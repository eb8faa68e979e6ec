import ScriptHost.Proofs.Engine.Code

/-!
# Steps of imports and evaluations

An import that fails is remembered and thrown in one step. Declaring, linking
and visiting follow the imports as deep as the fuel allows, so each is an
induction on the fuel with one more level in its step.
-/

set_option autoImplicit false

namespace ScriptHost.Engine

variable {α : Type} {R : State → State → Prop}

section Imports

variable [Covers R]

theorem walks_complain {class_ message : String} : WalksBy R (complain class_ message : Run α) :=
  walks_bind walks_errorValue fun _ => walks_throw _

theorem walks_failedImport {name complaint : String} {failure : LoadFailure}
    (h : Names complaint name) :
    WalksBy R (failedImport name failure complaint : Run α) :=
  fun _ => .single (Covers.quiet (.importFailed name complaint failure h) ⟨rfl, rfl⟩)

theorem walks_resolveImport {base specifier : String} : WalksBy R (resolveImport base specifier) := by
  unfold resolveImport
  split
  · exact walks_pure _
  · refine walks_failedImport ⟨"Error resolving module '", "' from '" ++ base ++ "'", ?_, by decide⟩
    rw [← String.append_assoc, ← String.append_assoc]
    rfl

theorem walks_fetchImport {name : String} : WalksBy R (fetchImport name) := by
  refine walks_get fun s => ?_
  refine walks_from_bind (walks_forM (fun _ => walks_note) _ s) fun _ s' => ?_
  split
  · exact walks_from_pure _
  · exact walks_failedImport ⟨"Error loading module '", "'", rfl, by decide⟩ s'

theorem walks_importInstance {declare : String → String → Run Nat}
    (h : ∀ name source, WalksBy R (declare name source)) {base specifier : String} :
    WalksBy R (importInstance declare base specifier) := by
  refine walks_bind walks_resolveImport fun name => walks_get fun s => ?_
  split
  · exact walks_from_pure _
  · exact walks_bind walks_fetchImport (fun _ => h _ _) s

end Imports

section Declarations

variable [Covers R]

theorem walks_moduleScope {key : Nat} {program : Program} : WalksBy R (moduleScope key program) := by
  refine walks_bind walks_enter fun scope => walks_ite ?_ (walks_pure _)
  exact walks_bind walks_issue fun _ => walks_bindName

theorem walks_addInstance {name : String} {program : Program} :
    Walks (addInstance name program) := by
  refine walks_bind walks_issue fun key => walks_bind walks_moduleScope fun scope => ?_
  exact walks_bind (walks_modify fun _ => .inner _ _ _ _ _ (Nat.le_refl _)) fun _ => walks_pure _

theorem walks_removeInstance {key : Nat} : Walks (removeInstance key) :=
  walks_modify fun _ => .inner _ _ _ _ _ (Nat.le_refl _)

theorem walks_declare (fuel : Nat) : ∀ name source, Walks (declare fuel name source) := by
  induction fuel with
  | zero => exact fun _ _ => walks_throwNew
  | succ fuel ih =>
    intro name source
    unfold declare
    split
    · exact walks_throwNew
    · refine walks_bind walks_addInstance fun key => ?_
      refine walks_bind (walks_attempted (walks_mapM (fun _ => walks_importInstance ih) _)) ?_
      intro result
      split
      · exact walks_bind walks_changeInstance fun _ => walks_pure _
      · exact walks_bind walks_removeInstance fun _ => walks_throw _

end Declarations

section Linking

variable [Covers R]

theorem walks_importedBinding {name : String} {i : Instance} :
    WalksBy R (importedBinding name i) := by
  unfold importedBinding
  split
  · exact walks_pure _
  · exact walks_complain

theorem walks_bindImports (imports : List (Import × Nat)) :
    ∀ scope, WalksBy R (bindImports scope imports) := by
  induction imports with
  | nil => exact fun _ => walks_pure _
  | cons first rest ih =>
    intro scope
    refine walks_bind walks_instance? fun found => ?_
    split
    · exact walks_bind walks_importedBinding fun _ => ih _
    · exact ih scope

theorem walks_link (fuel : Nat) : ∀ key, WalksBy R (link fuel key) := by
  induction fuel with
  | zero => exact fun _ => walks_pure _
  | succ fuel ih =>
    intro key
    unfold link
    refine walks_bind walks_instance? fun found => ?_
    split
    · exact walks_pure _
    · rename_i i
      refine walks_ite (walks_pure _) ?_
      refine walks_bind (walks_changeInside fun _ => rfl) fun _ => ?_
      refine walks_bind (walks_attempted ?_) fun result => ?_
      · exact walks_bind (walks_forM ih _) fun _ => walks_bindImports _ _
      · split
        · exact walks_changeInside fun _ => rfl
        · exact walks_bind (walks_changeInside fun _ => rfl) fun _ => walks_throw _

end Linking

section Threads

variable [Covers R]

theorem walks_park {key : Nat} {thread : Thread} {await : Await} {cell : Option Cell}
    {frames : List Frame} : WalksBy R (park key thread await cell frames) := by
  refine walks_bind (walks_modify fun _ => Covers.quiet (.inner _ _ _ _ _ (Nat.le_refl _))
    ⟨rfl, rfl⟩) fun _ => ?_
  split
  · exact walks_pure _
  · exact walks_enqueue
  · exact walks_enqueue

theorem walks_endMain {result : Except Value Unit} : WalksBy R (endMain result) :=
  walks_modify fun _ => Covers.quiet (.mainEnded (some result)) ⟨rfl, rfl⟩

omit [Covers R] in
theorem walks_isPending {key : Nat} : WalksBy R (isPending key) := by
  refine walks_bind walks_stageOf fun stage => ?_
  split <;> exact walks_pure _

omit [Covers R] in
theorem walks_failureOf? {key : Nat} : WalksBy R (failureOf? key) := by
  refine walks_bind walks_stageOf fun stage => ?_
  split <;> exact walks_pure _

theorem walks_notify {key : Nat} {result : Except Value Unit} : WalksBy R (notify key result) := by
  refine walks_bind walks_instance? fun found => ?_
  split
  · exact walks_pure _
  · exact walks_bind (walks_changeInside fun _ => rfl) fun _ => walks_forM (fun _ => walks_enqueue) _

theorem walks_conclude {key : Nat} {result : Except Value Unit} : Walks (conclude key result) :=
  walks_bind walks_setStage fun _ => walks_notify

theorem walks_tell {event : ModuleEvent} : Walks (tell event) := walks_modify fun _ => .told event

theorem walks_startBody {key : Nat} {i : Instance} : Walks (startBody key i) := by
  refine walks_bind walks_tell fun _ => walks_bind (walks_attempted (walks_execBlock _ _ _)) ?_
  intro result
  split
  · exact walks_bind walks_setStage fun _ => walks_bind walks_issue fun _ => walks_park
  · exact walks_conclude

theorem walks_startIfReady {key : Nat} : Walks (startIfReady key) := by
  refine walks_bind walks_instance? fun found => ?_
  split
  · exact walks_pure _
  · refine walks_bind (walks_mapM (fun _ => walks_failureOf?) _) fun failures => ?_
    split
    · exact walks_conclude
    · refine walks_bind (walks_mapM (fun _ => walks_isPending) _) fun pending => ?_
      exact walks_ite walks_setStage walks_startBody

theorem walks_visit (fuel : Nat) : ∀ key, Walks (visit fuel key) := by
  induction fuel with
  | zero => exact fun _ => walks_pure _
  | succ fuel ih =>
    intro key
    unfold visit
    refine walks_bind walks_instance? fun found => ?_
    split
    · exact walks_pure _
    · split
      · refine walks_bind walks_setStage fun _ => walks_bind (walks_forM ?_ _) fun _ => ?_
        · intro other
          refine walks_bind (walks_mapM (fun _ => walks_failureOf?) _) fun failures => ?_
          exact walks_ite (walks_pure _) (ih other)
        · exact walks_startIfReady
      · exact walks_pure _

theorem walks_release (fuel : Nat) : Walks (release fuel) := by
  induction fuel with
  | zero => exact walks_pure _
  | succ fuel ih =>
    refine walks_get fun s => walks_from_bind (walks_forM (fun _ => walks_startIfReady) _ s) ?_
    intro _ s'
    exact walks_from_get (walks_ite ih (walks_pure _) s')

omit [Covers R] in
theorem walks_instanceCount : WalksBy R instanceCount := fun _ => .refl

theorem walks_evaluateInstance {key : Nat} : Walks (evaluateInstance key) :=
  walks_bind walks_instanceCount fun _ => walks_bind (walks_link _ key) fun _ => walks_visit _ key

theorem walks_endThread {key : Nat} {thread : Thread} {result : Except Value Outcome} :
    Walks (endThread key thread result) := by
  refine walks_bind (walks_modify fun _ => .inner _ _ _ _ _ (Nat.le_refl _)) fun _ => ?_
  split
  · exact walks_endMain
  · exact walks_bind walks_conclude fun _ => walks_bind walks_instanceCount fun _ => walks_release _

theorem walks_loadInstance {thread : Nat} {base specifier : String} :
    Walks (loadInstance thread base specifier) := by
  refine walks_bind (walks_attempted ?_) fun result => ?_
  · refine walks_bind (walks_importInstance (walks_declare deepest)) fun key => ?_
    exact walks_bind walks_tell fun _ => walks_bind walks_evaluateInstance fun _ => walks_pure _
  · split
    · exact walks_pure _
    · refine walks_bind walks_stageOf fun stage => ?_
      split
      · exact walks_pure _
      · exact walks_pure _
      · exact walks_pure _
      · exact walks_bind walks_changeInstance fun _ => walks_pure _

end Threads

section Jobs

/-- The kinds of steps by which threads get on: whatever the end of a thread and a dynamic import
come to is among them. -/
class Evaluates (R : State → State → Prop) : Prop extends Covers R where
  ended (key : Nat) (thread : Thread) (result : Except Value Outcome) :
    WalksBy R (endThread key thread result)
  loads (thread : Nat) (base specifier : String) : WalksBy R (loadInstance thread base specifier)

instance : Evaluates CodeStep where
  quiet h _ := h
  ended _ _ _ := walks_endThread
  loads _ _ _ := walks_loadInstance

variable [Evaluates R]

theorem walks_advance {key : Nat} {thread : Thread} {code : Run Outcome} (h : WalksBy R code) :
    WalksBy R (advance key thread code) := by
  refine walks_bind (walks_attempted h) fun result => ?_
  split
  · exact walks_park
  · exact Evaluates.ended _ _ _

theorem walks_runJob {job : Job} : WalksBy R (runJob job) := by
  cases job with
  | resume key result =>
    refine walks_get fun s => ?_
    split
    · exact walks_from_pure ()
    · exact walks_advance walks_resumeFrames s
  | load key base specifier =>
    refine walks_bind (Evaluates.loads _ _ _) fun result => ?_
    split
    · exact walks_enqueue
    · exact walks_pure _

end Jobs

end ScriptHost.Engine
