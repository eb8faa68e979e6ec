import ScriptHost.Proofs.Engine.HostObject

/-!
# Steps of code

Expressions and statements do nothing but steps, by induction on the syntax. A
wait leaves frames, so what goes on after it is the same code again.
-/

set_option autoImplicit false

-- The linter does not see a variable that all theorems of a mutual block share.
set_option linter.unusedSectionVars false

namespace ScriptHost.Engine

variable {context : Context} {scope : Scope} {name : String} {value : Value}
  {R : State → State → Prop} [Covers R]

theorem walks_readVariable : WalksBy R (readVariable context scope name) := by
  unfold readVariable
  split
  · exact walks_throwReference
  · refine walks_bind walks_cell? fun found => ?_
    split
    · exact walks_pure _
    · exact walks_throwReference

theorem walks_assign : WalksBy R (assign context scope name value) := by
  refine walks_bind walks_readVariable fun _ => ?_
  split
  · exact walks_pure _
  · exact walks_ite walks_throwType walks_writeCell

theorem walks_namespaceProperty {key : Nat} : WalksBy R (namespaceProperty context key name) := by
  refine walks_bind walks_instance? fun found => ?_
  split
  · exact walks_pure _
  · refine walks_bind walks_cell? fun held => ?_
    split
    · exact walks_pure _
    · exact walks_throwReference

theorem walks_propertyOf : WalksBy R (propertyOf context value name) := by
  unfold propertyOf
  split
  · exact walks_throwType
  · exact walks_throwType
  · exact walks_pure _
  · exact walks_pure _
  · exact walks_pure _
  · exact walks_pure _
  · exact walks_namespaceProperty
  · exact walks_pure _

theorem walks_itemOf {index : Value} : WalksBy R (itemOf context value index) := by
  unfold itemOf
  split
  · exact walks_pure _
  · exact walks_pure _
  · exact walks_bind walks_valueText fun _ => walks_propertyOf

theorem walks_sortedText : WalksBy R (sortedText context value) := by
  unfold sortedText
  split
  · exact walks_bind (walks_mapM (fun _ => walks_valueText) _) fun _ => walks_pure _
  · exact walks_pure _
  · exact walks_throwType
  · exact walks_throwType
  · exact walks_throwType

theorem walks_newError : WalksBy R (newError context value) := by
  unfold newError
  split
  · exact walks_bind (walks_pure _) fun _ => walks_errorValue
  · exact walks_bind walks_valueText fun _ => walks_errorValue

theorem walks_sum {a b : Value} : WalksBy R (sum context a b) := by
  unfold sum
  split
  · exact walks_pure _
  · exact walks_throwType

theorem walks_argumentNames : WalksBy R (argumentNames context) := by
  refine walks_bind walks_theArgument fun argument => ?_
  split
  · exact walks_throwType
  · exact walks_pure _

mutual

theorem walks_eval : ∀ e, WalksBy R (eval context scope e)
  | .undefined => walks_pure _
  | .null => walks_pure _
  | .bool _ => walks_pure _
  | .int _ => walks_pure _
  | .float _ => walks_pure _
  | .string _ => walks_pure _
  | .array items =>
    walks_bind (walks_evalAll items) fun _ => walks_bind walks_issue fun _ => walks_pure _
  | .object => walks_bind walks_issue fun _ => walks_pure _
  | .symbol => walks_bind walks_issue fun _ => walks_pure _
  | .arrow .. => walks_bind walks_issue fun _ => walks_pure _
  | .variable _ => walks_readVariable
  | .host _ => walks_hostProperty
  | .hasHost _ => walks_bind walks_hasProperty fun _ => walks_pure _
  | .noHost => walks_bind walks_theArgument fun _ => walks_pure _
  | .hostKeys => walks_bind walks_argumentNames fun _ => walks_pure _
  | .callHost _ args =>
    walks_bind walks_hostProperty fun _ => walks_bind (walks_evalAll args) fun _ => walks_callValue
  | .concat items => walks_bind (walks_evalTexts items) fun _ => walks_pure _
  | .add a b => walks_bind (walks_eval a) fun _ => walks_bind (walks_eval b) fun _ => walks_sum
  | .property e _ => walks_bind (walks_eval e) fun _ => walks_propertyOf
  | .index e i => walks_bind (walks_eval e) fun _ => walks_bind (walks_eval i) fun _ => walks_itemOf
  | .sorted e => walks_bind (walks_eval e) fun _ => walks_sortedText
  | .typeOf e => walks_bind (walks_eval e) fun _ => walks_pure _
  | .error message => walks_bind (walks_eval message) fun _ => walks_newError
  | .isError e => walks_bind (walks_eval e) fun _ => walks_pure _
  | .same a b =>
    walks_bind (walks_eval a) fun _ => walks_bind (walks_eval b) fun _ => walks_pure _

theorem walks_evalAll : ∀ items, WalksBy R (evalAll context scope items)
  | [] => walks_pure _
  | e :: rest =>
    walks_bind (walks_eval e) fun _ => walks_bind (walks_evalAll rest) fun _ => walks_pure _

theorem walks_evalTexts : ∀ items, WalksBy R (evalTexts context scope items)
  | [] => walks_pure _
  | e :: rest =>
    walks_bind (walks_eval e) fun _ => walks_bind walks_valueText fun _ =>
      walks_bind (walks_evalTexts rest) fun _ => walks_pure _

end

theorem walks_bindName {value : Option Value} : WalksBy R (bind name value scope) :=
  walks_bind walks_newCell fun _ => walks_pure _

theorem walks_declareAll (names : List String) : ∀ scope, WalksBy R (declareAll scope names) := by
  induction names with
  | nil => exact fun _ => walks_pure _
  | cons name rest ih => exact fun _ => walks_bind walks_bindName fun _ => ih _

theorem walks_enter {block : List Stmt} : WalksBy R (enter scope block) := walks_declareAll _ _

theorem walks_store {cell : Option Cell} : WalksBy R (store cell value) := by
  unfold store
  split
  · exact walks_writeCell
  · exact walks_pure _

theorem walks_addSetter {setter : Callable} : WalksBy R (addSetter context name setter) := by
  refine walks_get fun s => ?_
  split
  · exact walks_throwType s
  · rename_i h
    exact .single (Covers.quiet (.setterAdded name setter h) ⟨rfl, rfl⟩)

section Calls

variable {call : String} {args : List Expr}

theorem walks_promised {tellsFailure : Bool} {call : Value → Run Value} (h : ∀ v, WalksBy R (call v)) :
    WalksBy R (promised tellsFailure call) := by
  refine walks_bind walks_issue fun key => walks_bind walks_issue fun _ =>
    walks_bind (walks_attempted (h _)) fun result => ?_
  split <;> exact walks_pure _

theorem walks_awaitCall : WalksBy R (awaitCall context scope call args) :=
  walks_promised fun _ =>
    walks_bind walks_hostProperty fun _ => walks_bind (walks_evalAll args) fun _ => walks_callValue

theorem walks_sleep {ms : Expr} : WalksBy R (sleep context scope ms) :=
  walks_promised fun _ =>
    walks_bind walks_hostProperty fun _ => walks_bind (walks_eval ms) fun _ => walks_callValue

theorem walks_callBack {parameters : List String} {body : List Stmt} :
    WalksBy R (callBack context scope call args parameters body) :=
  walks_bind walks_hostProperty fun _ => walks_bind (walks_evalAll args) fun _ =>
    walks_bind walks_issue fun _ => walks_callValue

end Calls

theorem walks_load {specifier : Expr} {cell : Option Cell} :
    WalksBy R (do
      match ← attempted (do valueText context (← eval context scope specifier)) with
      | .ok text => return Outcome.waits (.load context.module text) cell []
      | .error value => return .waits (.settled (.error value)) none []) := by
  refine walks_bind (walks_attempted (walks_bind (walks_eval _) fun _ => walks_valueText)) ?_
  intro result
  split <;> exact walks_pure _

mutual

theorem walks_exec (context : Context) : ∀ scope statement, WalksBy R (exec context scope statement)
  | _, .print value =>
    walks_bind walks_hostProperty fun _ => walks_bind (walks_eval value) fun _ =>
      walks_bind walks_callValue fun _ => walks_pure _
  | _, .eval value => walks_bind (walks_eval value) fun _ => walks_pure _
  | _, .declare _ value =>
    walks_bind (walks_eval value) fun _ => walks_bind walks_store fun _ => walks_pure _
  | _, .assign _ value =>
    walks_bind (walks_eval value) fun _ => walks_bind walks_assign fun _ => walks_pure _
  | _, .throw value => walks_bind (walks_eval value) fun _ => walks_throw _
  | _, .give value => walks_bind (walks_eval value) fun _ => walks_pure _
  | _, .await value _ => walks_bind (walks_eval value) fun _ => walks_pure _
  | _, .awaitCall .. => walks_bind walks_awaitCall fun _ => walks_pure _
  | _, .callBack .. =>
    walks_bind walks_callBack fun _ => walks_bind walks_store fun _ => walks_pure _
  | _, .timer .. => walks_bind walks_callBack fun _ => walks_bind walks_store fun _ => walks_pure _
  | _, .sleep _ => walks_bind walks_sleep fun _ => walks_pure _
  | _, .never => walks_bind walks_issue fun _ => walks_pure _
  | _, .load .. => walks_load
  | _, .branch condition yes no =>
    walks_bind (walks_eval condition) fun _ => walks_ite
      (walks_bind walks_enter fun scope => walks_execBlock context scope yes)
      (walks_bind walks_enter fun scope => walks_execBlock context scope no)
  | _, .attempt body rescue => by
    refine walks_bind walks_enter fun scope =>
      walks_bind (walks_attempted (walks_execBlock context scope body)) fun result => ?_
    split
    · exact walks_pure _
    · exact walks_bind walks_bindName fun _ => walks_bind walks_enter fun scope =>
        walks_execBlock context scope rescue
  | _, .setter .. => walks_bind walks_addSetter fun _ => walks_pure _

theorem walks_execBlock (context : Context) : ∀ scope block, WalksBy R (execBlock context scope block)
  | _, [] => walks_pure _
  | scope, statement :: rest => by
    refine walks_bind (walks_exec context scope statement) fun outcome => ?_
    split
    · exact walks_execBlock context scope rest
    · exact walks_pure _
    · exact walks_pure _

end

theorem walks_rescue {body : List Stmt} : WalksBy R (rescue context scope body value) :=
  walks_bind walks_bindName fun _ => walks_bind walks_enter fun _ => walks_execBlock _ _ _

/-- What code goes on with walks if it walks for each way in which statements end. -/
theorem walks_outcome {next : Except Value Outcome → Run Outcome}
    (ended : WalksBy R (next (.ok .ended))) (given : ∀ value, WalksBy R (next (.ok (.given value))))
    (waits : ∀ await cell frames, WalksBy R (next (.ok (.waits await cell frames))))
    (error : ∀ value, WalksBy R (next (.error value))) (result : Except Value Outcome) :
    WalksBy R (next result) := by
  cases result with
  | error value => exact error value
  | ok outcome =>
    cases outcome with
    | ended => exact ended
    | given value => exact given value
    | waits await cell frames => exact waits await cell frames

theorem walks_proceed (frames : List Frame) : ∀ thrown, WalksBy R (proceed context thrown frames) := by
  induction frames with
  | nil =>
    intro thrown
    cases thrown with
    | none => exact walks_pure _
    | some value => exact walks_throw _
  | cons frame rest ih =>
    intro thrown
    unfold proceed
    split
    all_goals
      refine walks_bind ?_ (walks_outcome (ih none) (fun _ => walks_pure _)
        (fun _ _ _ => walks_pure _) fun _ => ih _)
    · exact walks_attempted (walks_execBlock _ _ _)
    · exact walks_pure _
    · exact walks_pure _
    · exact walks_attempted walks_rescue

theorem walks_resumeFrames {cell : Option Cell} {frames : List Frame}
    {result : Except Value Value} : WalksBy R (resumeFrames context cell frames result) := by
  cases result with
  | ok value => exact walks_bind walks_store fun _ => walks_proceed frames none
  | error value => exact walks_proceed frames _

end ScriptHost.Engine
