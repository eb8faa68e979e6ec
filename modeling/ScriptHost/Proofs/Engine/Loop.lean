import ScriptHost.Proofs.Engine.Conversion

/-!
# Steps of the event loop

A round of the loop calls back, runs jobs, lets the host work or lets time pass,
and all of it is steps again, up to the code that a run starts with.
-/

set_option autoImplicit false

namespace ScriptHost.Engine

variable {s : State} {R : State → State → Prop}

/-- The kinds of steps by which an engine goes round its loop: its threads get on, and it does all
else that leaves modules as they are. -/
class Loops (R : State → State → Prop) : Prop extends Evaluates R where
  turn {s s' : State} (h : Step s s') (hm : SameModules s s') : R s s'

instance : Loops Step where
  quiet h _ := .code h
  ended _ _ _ := turns_code walks_endThread
  loads _ _ _ := turns_code walks_loadInstance
  turn h _ := h

variable [Loops R]

omit [Loops R] in
/-- The arguments of the next call are made, and then it is made or given up. What the callback
throws is dropped, and the call goes on with the state that it left. -/
theorem callNext_run {source : CallbackSource} {f : Callable} {answer? : Option HostAnswer}
    {woken : List Waking} (h : s.woken = (source, f, answer?) :: woken) :
    callNext.run s = match (argumentsFor answer?).run s with
      | .ok args made => .ok () (left ((callBackWith f args).run
          (made.afterNext (.called source f args))))
      | .error value made => .ok () (made.afterNext (.givenUp source value)) := by
  rw [callNext, run_get, h]
  dsimp only
  rw [bind_run, attempted_run]
  cases (argumentsFor answer?).run s with
  | error value made => rfl
  | ok args made =>
    change (attempted (callBackWith f args) >>= fun _ => pure ()).run
        (made.afterNext (.called source f args)) =
      .ok () (left ((callBackWith f args).run (made.afterNext (.called source f args))))
    rw [bind_run, attempted_run]
    cases (callBackWith f args).run (made.afterNext (.called source f args)) <;> rfl

omit [Loops R] in
theorem next_waits (answer? : Option HostAnswer) {next : Waking} {woken : List Waking}
    (h : s.woken = next :: woken) :
    ∃ more, (left ((argumentsFor answer?).run s)).woken = next :: more := by
  obtain ⟨more, hm⟩ := (code_waiting (walks_argumentsFor answer?) s).woken
  exact ⟨woken ++ more, by rw [← hm, h, List.cons_append]⟩

theorem turns_callNext : WalksBy R callNext := by
  intro s
  cases hw : s.woken with
  | nil =>
    have hc : callNext.run s = .ok () s := by
      rw [callNext, run_get, hw]
      rfl
    unfold WalksFrom
    rw [hc]
    exact .refl
  | cons next woken =>
    obtain ⟨source, f, answer?⟩ := next
    have hmade : Relation.ReflTransGen R s (left ((argumentsFor answer?).run s)) :=
      walks_argumentsFor answer? s
    obtain ⟨more, hnext⟩ := next_waits answer? hw
    unfold WalksFrom
    rw [callNext_run hw]
    cases hc : (argumentsFor answer?).run s with
    | ok args made =>
      rw [hc] at hmade hnext
      have hcalled : R made (made.afterNext (.called source f args)) :=
        Loops.turn (.called source f answer? args more hnext (argumentsFor_suits hc)) ⟨rfl, rfl⟩
      exact (hmade.tail hcalled).trans (walks_callBackWith _)
    | error value made =>
      rw [hc] at hmade hnext
      obtain ⟨answer, rfl, ht⟩ := argumentsFor_throws hc
      exact hmade.tail (Loops.turn (.givenUp source f answer value more hnext ht) ⟨rfl, rfl⟩)

theorem turns_runNextJob : WalksBy R runNextJob := by
  refine walks_get fun s => ?_
  split
  · exact walks_from_pure ()
  · refine walks_from_set (Covers.quiet (.inner _ _ _ _ _ (Nat.le_refl _)) ⟨rfl, rfl⟩) ?_
    exact walks_runJob _

omit [Loops R] in
/-- An answer that no callback waits for does nothing. -/
theorem happened_unawaited {key : Nat} (answer : HostAnswer) (h : s.callbacks.lookup key = none) :
    (happened (.answered key answer)).run s = .ok () s := by
  rw [happened, run_get, h]
  rfl

omit [Loops R] in
theorem happened_awaited {key : Nat} {f : Callable} (answer : HostAnswer)
    (h : s.callbacks.lookup key = some f) : (happened (.answered key answer)).run s =
      .ok () ({ s with callbacks := s.callbacks.filter (·.1 ≠ key) }.withAnswer key f answer) := by
  rw [happened, run_get, h]
  rfl

/-- A turn of the host and what its event does to callbacks are one step. -/
theorem turns_hostTurn : WalksBy R hostTurn := by
  refine walks_get fun s => ?_
  split
  · exact walks_from_pure ()
  · rename_i host event ht
    split
    · rename_i event
      change Relation.ReflTransGen R s (left ((happened event).run { s with host }))
      cases event with
      | fired timer => exact .single (Loops.turn (.fired host timer ht) ⟨rfl, rfl⟩)
      | answered key answer =>
        cases hf : s.callbacks.lookup key with
        | none =>
          rw [happened_unawaited (s := { s with host }) answer hf]
          exact .single (Loops.turn (.hostTurned host _ ht (by simp)) ⟨rfl, rfl⟩)
        | some f =>
          rw [happened_awaited (s := { s with host }) answer hf]
          exact .single (Loops.turn (.answered host key f answer ht hf) ⟨rfl, rfl⟩)
    · exact .single (Loops.turn (.hostTurned host none ht (by simp)) ⟨rfl, rfl⟩)

omit [Loops R] in
theorem turns_exhaust {hasMore : State → Bool} {step : Run Unit} (h : WalksBy R step) (fuel : Nat) :
    WalksBy R (exhaust hasMore step fuel) := by
  induction fuel with
  | zero => exact walks_pure ()
  | succ fuel ih =>
    exact walks_get fun s => walks_ite (walks_bind h fun _ => ih) (walks_pure ()) s

theorem turns_pass {limit : Nat} : WalksBy R (pass limit) := by
  refine walks_get fun s => ?_
  split
  · exact walks_from_pure _
  · rename_i deadline hd
    split
    · exact walks_from_set (Loops.turn (.timePassed deadline hd) ⟨rfl, rfl⟩) (walks_from_pure _)
    · exact walks_from_pure _

theorem turns_round {limit : Nat} : WalksBy R (round limit) := by
  refine walks_get fun s => walks_ite ?_ (walks_ite ?_ turns_pass) s
  · exact walks_bind (turns_exhaust turns_callNext _) fun _ =>
      walks_bind (turns_exhaust turns_runNextJob _) fun _ => walks_pure _
  · exact walks_bind (turns_exhaust turns_hostTurn _) fun _ => walks_pure _

theorem turns_await {isOver : State → Bool} {limit : Nat} (fuel : Nat) :
    WalksBy R (await isOver limit fuel) := by
  induction fuel with
  | zero => exact walks_pure _
  | succ fuel ih =>
    have goOn : WalksBy R (do
        if ← round limit then await isOver limit fuel else return false) :=
      walks_bind turns_round fun _ => walks_ite ih (walks_pure _)
    exact walks_get fun s => walks_ite (walks_pure _) goOn s

section Starts

omit [Loops R] in
theorem walks_exportedMain? {key : Nat} : WalksBy R (exportedMain? key) := by
  refine walks_bind walks_instance? fun found => ?_
  split
  · exact walks_pure _
  · refine walks_bind walks_cell? fun held => ?_
    split <;> exact walks_pure _

theorem walks_enterMain {f : Callable} {argument : MainArgument} :
    WalksBy R (enterMain f argument) := by
  unfold enterMain
  split
  · refine walks_bind walks_instance? fun found => ?_
    split
    · exact walks_endMain
    · refine walks_bind walks_issue fun _ => walks_advance ?_
      exact walks_bind walks_enter fun _ => walks_execBlock _ _ _
  · refine walks_bind (walks_attempted walks_callBackWith) fun result => ?_
    split <;> exact walks_endMain

theorem walks_startMain {f : Callable} {argument : EntryArgument} :
    WalksBy R (startMain f argument) := by
  refine walks_bind (walks_attempted walks_grant) fun result => ?_
  split
  · exact walks_enterMain
  · exact walks_endMain

theorem turns_awaitMain {f : Callable} {argument : EntryArgument} {limit : Nat} :
    WalksBy R (awaitMain f argument limit) := by
  refine walks_bind (walks_modify fun _ => Covers.quiet (.mainEnded none) ⟨rfl, rfl⟩) fun _ => ?_
  refine walks_bind walks_startMain fun _ => walks_bind (turns_await _) fun isOver => ?_
  exact walks_ite (walks_get fun _ => walks_from_pure _) (walks_pure _)

theorem turns_finish {id : ModuleId} {limit : Nat} : WalksBy R (finish id limit) :=
  walks_bind (turns_await _) fun _ => walks_ite (walks_pure _) (walks_pure _)

omit [Loops R] in
theorem turns_evaluateEntry {id : ModuleId} {source : String} {limit : Nat} :
    Turns (evaluateEntry id source limit) := by
  refine walks_bind (turns_code (walks_attempted ?_)) fun result => ?_
  · exact walks_bind (walks_declare _ _ _) fun _ => walks_bind walks_tell fun _ =>
      walks_bind walks_evaluateInstance fun _ => walks_pure _
  · split
    · exact walks_pure _
    · refine walks_bind (turns_await _) fun isOver => walks_ite ?_ (walks_pure _)
      refine walks_bind walks_failureOf? fun failure => ?_
      split
      · exact walks_pure _
      · exact walks_bind walks_exportedMain? fun _ => walks_pure _

end Starts

end ScriptHost.Engine
