import ScriptHost.Proofs.Engine.Secluded

/-!
# Expressions and statements apart from the host

Every construct of a program is secluded where its code was not given the host,
by induction on the syntax. A read of the argument of `main` gives no function of
the host, so what is called there does nothing or throws.
-/

set_option autoImplicit false

namespace ScriptHost.Engine

variable {context : Context} {scope : Scope} {name : String} {value : Value}

section Reading

theorem secluded_readVariable : Secluded Value.Tame (readVariable context scope name) := by
  unfold readVariable
  split
  · exact secluded_throwReference
  · refine secluded_bind secluded_cell? fun held hh => ?_
    split
    · exact secluded_pure (hh _ rfl)
    · exact secluded_throwReference

theorem secluded_assign (h : value.Tame) : Secluded Any (assign context scope name value) := by
  refine secluded_bind secluded_readVariable fun _ _ => ?_
  split
  · exact secluded_pure trivial
  · exact secluded_ite secluded_throwType (secluded_writeCell h)

theorem secluded_namespaceProperty {key : Nat} :
    Secluded Value.Tame (namespaceProperty context key name) := by
  refine secluded_bind secluded_instance? fun found _ => ?_
  split
  · exact secluded_pure (.plain rfl)
  · refine secluded_bind secluded_cell? fun held hh => ?_
    split
    · exact secluded_pure (hh _ rfl)
    · exact secluded_throwReference

theorem errorProperty_tame (e : ErrorValue) : (errorProperty e name).Tame := by
  unfold errorProperty
  split
  · exact .plain rfl
  · exact .plain rfl
  · cases e.trace <;> exact .plain rfl
  · cases e.code <;> exact .plain rfl
  · exact .plain rfl

theorem lengthProperty_tame (n : Nat) :
    (if name = "length" then length n else .undefined).Tame := by
  split <;> exact .plain rfl

theorem secluded_propertyOf (h : value.Tame) :
    Secluded Value.Tame (propertyOf context value name) := by
  unfold propertyOf
  split
  · exact secluded_throwType
  · exact secluded_throwType
  · exact secluded_pure (lengthProperty_tame _)
  · exact secluded_pure (lengthProperty_tame _)
  · exact secluded_pure (errorProperty_tame _)
  · exact secluded_pure (tame_property h.own name)
  · exact secluded_namespaceProperty
  · exact secluded_pure (.plain rfl)

theorem secluded_itemOf {index : Value} (h : value.Tame) :
    Secluded Value.Tame (itemOf context value index) := by
  unfold itemOf
  split
  · exact secluded_pure (tame_item h.items _)
  · rename_i text i _
    refine secluded_pure ?_
    cases text.toList[i]? <;> exact .plain rfl
  · exact secluded_bind secluded_valueText fun _ _ => secluded_propertyOf h

theorem secluded_sortedText : Secluded Value.Tame (sortedText context value) := by
  unfold sortedText
  split
  · exact secluded_bind (secluded_mapM fun _ _ => secluded_valueText) fun _ _ =>
      secluded_pure (.plain rfl)
  · exact secluded_pure (.plain rfl)
  · exact secluded_throwType
  · exact secluded_throwType
  · exact secluded_throwType

theorem secluded_newError : Secluded Value.Tame (newError context value) := by
  unfold newError
  split
  · exact secluded_bind (P := Any) (secluded_pure trivial) fun _ _ => secluded_errorValue
  · exact secluded_bind secluded_valueText fun _ _ => secluded_errorValue

theorem secluded_sum {a b : Value} : Secluded Value.Tame (sum context a b) := by
  unfold sum
  split
  · rename_i h
    exact secluded_pure (tame_add h)
  · exact secluded_throwType

theorem secluded_argumentNames (hc : context.Tame) : Secluded Any (argumentNames context) := by
  refine secluded_bind (secluded_theArgument hc) fun argument _ => ?_
  split
  · exact secluded_throwType
  · exact secluded_pure trivial

end Reading

section Expressions

mutual

theorem secluded_eval (hc : context.Tame) : ∀ e, Secluded Value.Tame (eval context scope e)
  | .undefined => secluded_pure (.plain rfl)
  | .null => secluded_pure (.plain rfl)
  | .bool _ => secluded_pure (.plain rfl)
  | .int _ => secluded_pure (.plain rfl)
  | .float _ => secluded_pure (.plain rfl)
  | .string _ => secluded_pure (.plain rfl)
  | .array items =>
    secluded_bind (secluded_evalAll hc items) fun _ h =>
      secluded_bind secluded_issue fun _ _ => secluded_pure (.array _ h)
  | .object => secluded_bind secluded_issue fun _ _ => secluded_pure (.object _ nofun)
  | .symbol => secluded_bind secluded_issue fun _ _ => secluded_pure (.plain rfl)
  | .arrow .. => secluded_bind secluded_issue fun _ _ => secluded_pure (.function _ hc)
  | .variable _ => secluded_readVariable
  | .host _ => secluded_hostProperty hc
  | .hasHost _ => secluded_bind (secluded_hasProperty hc) fun _ _ => secluded_pure (.plain rfl)
  | .noHost => secluded_bind (secluded_theArgument hc) fun _ _ => secluded_pure (.plain rfl)
  | .hostKeys => secluded_bind (secluded_argumentNames hc) fun _ _ => secluded_pure (.plain rfl)
  | .callHost _ args =>
    secluded_bind (secluded_hostProperty hc) fun _ h =>
      secluded_bind (secluded_evalAll hc args) fun _ _ => secluded_callValue hc h
  | .concat items =>
    secluded_bind (secluded_evalTexts hc items) fun _ _ => secluded_pure (.plain rfl)
  | .add a b =>
    secluded_bind (secluded_eval hc a) fun _ _ => secluded_bind (secluded_eval hc b) fun _ _ =>
      secluded_sum
  | .property e _ => secluded_bind (secluded_eval hc e) fun _ h => secluded_propertyOf h
  | .index e i =>
    secluded_bind (secluded_eval hc e) fun _ h => secluded_bind (secluded_eval hc i) fun _ _ =>
      secluded_itemOf h
  | .sorted e => secluded_bind (secluded_eval hc e) fun _ _ => secluded_sortedText
  | .typeOf e => secluded_bind (secluded_eval hc e) fun _ _ => secluded_pure (.plain rfl)
  | .error message => secluded_bind (secluded_eval hc message) fun _ _ => secluded_newError
  | .isError e => secluded_bind (secluded_eval hc e) fun _ _ => secluded_pure (.plain rfl)
  | .same a b =>
    secluded_bind (secluded_eval hc a) fun _ _ => secluded_bind (secluded_eval hc b) fun _ _ =>
      secluded_pure (.plain rfl)

theorem secluded_evalAll (hc : context.Tame) :
    ∀ items, Secluded (fun values => ∀ v ∈ values, v.Tame) (evalAll context scope items)
  | [] => secluded_pure (by simp)
  | e :: rest =>
    secluded_bind (secluded_eval hc e) fun _ h => secluded_bind (secluded_evalAll hc rest)
      fun _ hr => secluded_pure (List.forall_mem_cons.mpr ⟨h, hr⟩)

theorem secluded_evalTexts (hc : context.Tame) :
    ∀ items, Secluded Any (evalTexts context scope items)
  | [] => secluded_pure trivial
  | e :: rest =>
    secluded_bind (secluded_eval hc e) fun _ _ => secluded_bind secluded_valueText fun _ _ =>
      secluded_bind (secluded_evalTexts hc rest) fun _ _ => secluded_pure trivial

end

end Expressions

section Blocks

theorem secluded_bindName {held : Option Value} (h : ∀ v, held = some v → v.Tame) :
    Secluded Any (bind name held scope) :=
  secluded_bind (secluded_newCell h) fun _ _ => secluded_pure trivial

theorem secluded_declareAll (names : List String) :
    ∀ scope, Secluded Any (declareAll scope names) := by
  induction names with
  | nil => exact fun _ => secluded_pure trivial
  | cons name rest ih =>
    exact fun _ => secluded_bind (secluded_bindName fun _ h => nomatch h) fun _ _ => ih _

theorem secluded_enter {block : List Stmt} : Secluded Any (enter scope block) :=
  secluded_declareAll _ _

theorem secluded_store {cell : Option Cell} (h : value.Tame) : Secluded Any (store cell value) := by
  unfold store
  split
  · exact secluded_writeCell h
  · exact secluded_pure trivial

theorem secluded_bindRescue (h : value.Tame) :
    Secluded Any (bind rescueParameter (some value) scope) :=
  secluded_bindName fun _ hv => Option.some.inj hv ▸ h

end Blocks

section Calls

variable {call : String} {args : List Expr}

def Await.Tame : Await → Prop
  | .settled result => Brings Value.Tame result
  | _ => True

theorem secluded_promised {tellsFailure : Bool} {call : Value → Run Value}
    (h : ∀ v, Secluded Value.Tame (call v)) : Secluded Await.Tame (promised tellsFailure call) := by
  refine secluded_bind secluded_issue fun key _ => secluded_bind secluded_issue fun _ _ =>
    secluded_bind (secluded_attempted (h _)) fun result hr => ?_
  cases result with
  | ok value => exact secluded_pure trivial
  | error value => exact secluded_pure hr

theorem secluded_awaitCall (hc : context.Tame) :
    Secluded Await.Tame (awaitCall context scope call args) :=
  secluded_promised fun _ => secluded_bind (secluded_hostProperty hc) fun _ h =>
    secluded_bind (secluded_evalAll hc args) fun _ _ => secluded_callValue hc h

theorem secluded_sleep (hc : context.Tame) {ms : Expr} :
    Secluded Await.Tame (sleep context scope ms) :=
  secluded_promised fun _ => secluded_bind (secluded_hostProperty hc) fun _ h =>
    secluded_bind (secluded_eval hc ms) fun _ _ => secluded_callValue hc h

theorem secluded_callBack (hc : context.Tame) {parameters : List String} {body : List Stmt} :
    Secluded Value.Tame (callBack context scope call args parameters body) :=
  secluded_bind (secluded_hostProperty hc) fun _ h => secluded_bind (secluded_evalAll hc args)
    fun _ _ => secluded_bind secluded_issue fun _ _ => secluded_callValue hc h

end Calls

section Statements

def State.withSetter (s : State) (name : String) (setter : Callable) : State :=
  { s with setters := (name, setter) :: s.setters }

theorem addSetter_taken {s : State} {setter old : Callable} (h : s.setters.lookup name = some old) :
    (addSetter context name setter).run s =
      (throwType context "property is not configurable").run s := by
  rw [addSetter, run_get, h]

theorem addSetter_new {s : State} {setter : Callable} (h : s.setters.lookup name = none) :
    (addSetter context name setter).run s = .ok () (s.withSetter name setter) := by
  rw [addSetter, run_get, h]
  rfl

theorem secluded_addSetter {setter : Callable} (h : setter.Tame) :
    Secluded Any (addSetter context name setter) := by
  intro s hs
  cases hl : s.setters.lookup name with
  | some old =>
    have hthrow : Secluded Any (throwType context "property is not configurable" : Run Unit) :=
      secluded_throwType
    obtain ⟨r, hr, hc⟩ := hthrow s hs
    exact ⟨r, hr, fun host history =>
      (addSetter_taken (s := s.beside host history) hl).trans (hc host history)⟩
  | none =>
    refine ⟨.ok () (s.withSetter name setter), ⟨trivial, { hs with setters := ?_ }⟩,
      fun host history => addSetter_new (s := s.beside host history) hl⟩
    exact List.forall_mem_cons.mpr ⟨h, hs.setters⟩

def Outcome.Tame : Outcome → Prop
  | .ended => True
  | .given value => value.Tame
  | .waits await _ _ => await.Tame

theorem secluded_given (h : value.Tame) : Secluded Outcome.Tame (pure (.given value)) :=
  secluded_pure h

theorem secluded_waits {await : Await} {cell : Option Cell} {frames : List Frame}
    (h : await.Tame) : Secluded Outcome.Tame (pure (.waits await cell frames)) :=
  secluded_pure h

theorem secluded_load (hc : context.Tame) {specifier : Expr} {cell : Option Cell} :
    Secluded Outcome.Tame (do
      match ← attempted (do valueText context (← eval context scope specifier)) with
      | .ok text => return .waits (.load context.module text) cell []
      | .error value => return .waits (.settled (.error value)) none []) := by
  refine secluded_bind (secluded_attempted (Q := Any)
    (secluded_bind (secluded_eval hc _) fun _ _ => secluded_valueText)) fun result hr => ?_
  cases result with
  | ok text => exact secluded_pure trivial
  | error value => exact secluded_pure hr

theorem outcomeInside_tame {outcome : Outcome} (h : outcome.Tame) (frame : Frame) :
    (outcome.inside frame).Tame := by
  cases outcome with
  | waits await cell frames => exact h
  | _ => exact h

mutual

theorem secluded_exec (hc : context.Tame) :
    ∀ scope statement, Secluded Outcome.Tame (exec context scope statement)
  | _, .print value =>
    secluded_bind (secluded_hostProperty hc) fun _ h => secluded_bind (secluded_eval hc value)
      fun _ _ => secluded_bind (secluded_callValue hc h) fun _ _ => secluded_pure trivial
  | _, .eval value => secluded_bind (secluded_eval hc value) fun _ _ => secluded_pure trivial
  | _, .declare _ value =>
    secluded_bind (secluded_eval hc value) fun _ h => secluded_bind (secluded_store h) fun _ _ =>
      secluded_pure trivial
  | _, .assign _ value =>
    secluded_bind (secluded_eval hc value) fun _ h => secluded_bind (secluded_assign h) fun _ _ =>
      secluded_pure trivial
  | _, .throw value =>
    secluded_bind (secluded_eval hc value) fun _ h => secluded_throw (tame_thrownBy h)
  | _, .give value => secluded_bind (secluded_eval hc value) fun _ h => secluded_given h
  | _, .await value _ => secluded_bind (secluded_eval hc value) fun _ h => secluded_waits h
  | _, .awaitCall .. => secluded_bind (secluded_awaitCall hc) fun _ h => secluded_waits h
  | _, .callBack .. =>
    secluded_bind (secluded_callBack hc) fun _ h => secluded_bind (secluded_store h) fun _ _ =>
      secluded_pure trivial
  | _, .timer .. =>
    secluded_bind (secluded_callBack hc) fun _ h => secluded_bind (secluded_store h) fun _ _ =>
      secluded_pure trivial
  | _, .sleep _ => secluded_bind (secluded_sleep hc) fun _ h => secluded_waits h
  | _, .never => secluded_bind secluded_issue fun _ _ => secluded_waits trivial
  | _, .load .. => secluded_load hc
  | _, .branch condition yes no =>
    secluded_bind (secluded_eval hc condition) fun _ _ => secluded_ite
      (secluded_bind secluded_enter fun scope _ => secluded_execBlock hc scope yes)
      (secluded_bind secluded_enter fun scope _ => secluded_execBlock hc scope no)
  | _, .attempt body rescue => by
    refine secluded_bind secluded_enter fun scope _ =>
      secluded_bind (secluded_attempted (secluded_execBlock hc scope body)) fun result hr => ?_
    split
    · exact secluded_pure (outcomeInside_tame hr _)
    · exact secluded_bind (secluded_bindRescue hr) fun _ _ =>
        secluded_bind secluded_enter fun scope _ => secluded_execBlock hc scope rescue
  | _, .setter .. => secluded_bind (secluded_addSetter hc) fun _ _ => secluded_pure trivial

theorem secluded_execBlock (hc : context.Tame) :
    ∀ scope block, Secluded Outcome.Tame (execBlock context scope block)
  | _, [] => secluded_pure trivial
  | scope, statement :: rest => by
    refine secluded_bind (secluded_exec hc scope statement) fun outcome ho => ?_
    split
    · exact secluded_execBlock hc scope rest
    · exact secluded_pure ho
    · exact secluded_pure ho

end

end Statements

end ScriptHost.Engine
