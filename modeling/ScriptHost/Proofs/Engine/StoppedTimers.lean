import ScriptHost.Proofs.Engine.Accounts
import ScriptHost.Proofs.Engine.Scripts

/-!
# Stopped timers

The host does not fire a timer any more once it is stopped. The calls for fires
that were before are not taken back: a timer that comes due at the moment at
which another one stops it has fired by then, and its callback is called after
the stop.
-/

set_option autoImplicit false

namespace ScriptHost.Engine

/-! A program that starts two timers for the same moment. The second would go on firing, but the
first stops it. -/

namespace StoppedLate

open Rethrown (statement valueOf view)
open Script (callOf timer stateOf)

def program : Json := .object [("main", .string "sync"), ("main_body", .array [
  timer "a" 0 [statement "eval" [("value", callOf "stopTimer" [valueOf "b"])]],
  timer "b" 5 []])]

def state : State := stateOf .raw program

set_option maxRecDepth 100000 in
theorem labels : (runWithin 10 state view).1.history.map CallbackEvent.label =
    [("called", .timer 2)] ++ ("stopped", .timer 2) :: [("called", .timer 1), ("fired", .timer 2),
      ("fired", .timer 1), ("started", .timer 2), ("started", .timer 1)] := by
  decide +kernel

/-- The second timer is stopped between its fire and its call. -/
theorem stopped : ∃ later earlier interval f,
    (runWithin 10 state view).1.history = later ++ .stopped 2 :: earlier ∧
      .started 2 interval f ∈ earlier ∧ .called (.timer 2) f [] ∈ later := by
  obtain ⟨later, rest, hh, hl, hr⟩ := List.map_eq_append_iff.mp labels
  obtain ⟨e, earlier, rfl, he, hs⟩ := List.map_eq_cons_iff.mp hr
  obtain rfl := stopped_of_label he
  obtain ⟨interval, f, hf⟩ : ∃ interval f, .started 2 interval f ∈ earlier :=
    started_of_label (by rw [hs]; simp)
  obtain ⟨g, args, hg⟩ : ∃ g args, .called (.timer 2) g args ∈ later :=
    called_of_label (by rw [hl]; simp)
  have ha : Accounted (runWithin 10 state view).1 := run_accounted _ _ _
  obtain ⟨rfl, rfl⟩ : g = f ∧ args = [] := by
    apply ha.called_timer 2 interval
    · rw [hh]
      simp [hf]
    · rw [hh]
      simp [hg]
  exact ⟨later, earlier, interval, g, hh, hf, hg⟩

end StoppedLate

/-- A stopped timer does not fire again. Its callback is called after the stop once for each fire
before it whose call was outstanding, less what a run that ends early still owes. So it is never
called again exactly if its calls before the stop, with those that are owed, were as many as its
fires. -/
theorem stopped_timer_calls {s : State} {duration : Nat} {view : HostView}
    {later earlier : List CallbackEvent} {timer interval : Nat} {f : Callable}
    (stopped : (runWithin duration s view).1.history = later ++ .stopped timer :: earlier)
    (started : .started timer interval f ∈ earlier) :
    .fired timer ∉ later ∧
      (∀ g args, .called (.timer timer) g args ∈ later → g = f ∧ args = []) ∧
      callsOf earlier (.timer timer) + callsOf later (.timer timer) +
        (runWithin duration s view).1.owed (.timer timer) = firesOf earlier timer ∧
      ((∀ g args, .called (.timer timer) g args ∉ later) ↔
        callsOf earlier (.timer timer) + (runWithin duration s view).1.owed (.timer timer) =
          firesOf earlier timer) := by
  have ha : Accounted (runWithin duration s view).1 := run_accounted duration s view
  have hunfired : .fired timer ∉ later := by
    intro hf
    apply ha.timers.silent timer interval f
    rw [stopped]
    exact (List.singleton_sublist.mpr hf).append
      ((List.singleton_sublist.mpr started).cons_cons (.stopped timer))
  have hcalls : ∀ g args, .called (.timer timer) g args ∈ later → g = f ∧ args = [] := by
    intro g args hg
    apply ha.called_timer timer interval
    · rw [stopped]
      exact List.mem_append_right _ (List.mem_cons_of_mem _ started)
    · rw [stopped]
      exact List.mem_append_left _ hg
  have hcount : callsOf earlier (.timer timer) + callsOf later (.timer timer) +
      (runWithin duration s view).1.owed (.timer timer) = firesOf earlier timer := by
    have hb := ha.balance (.timer timer)
    rw [ha.timer_waivers, duesOf_timer, stopped, firesOf_append, callsOf_append, firesOf_cons, callsOf_cons,
      firesOf_eq_zero.mpr hunfired] at hb
    simp only [CallbackEvent.isFireOf, CallbackEvent.isCallOf, Bool.false_eq_true, if_false] at hb
    omega
  refine ⟨hunfired, hcalls, hcount, ?_⟩
  rw [← callsOf_eq_zero]
  omega

section StoppedLate

open StoppedLate
open Rethrown (view)

/-- The second timer's callback is called after the timer was stopped. -/
theorem stopped_timer_called : ¬ ∀ (s : State) (duration : Nat) (view : HostView)
    (later earlier : List CallbackEvent) (timer interval : Nat) (f : Callable),
    Reached s → s.config.entryMode = .raw →
    (runWithin duration s view).1.history = later ++ .stopped timer :: earlier →
    .started timer interval f ∈ earlier → ∀ args, .called (.timer timer) f args ∉ later := by
  intro h
  obtain ⟨later, earlier, interval, f, hh, hs, hc⟩ := stopped
  exact h state 10 view later earlier 2 interval f (Script.reached _ _) rfl hh hs [] hc

theorem stopped_timer_call_outstanding : ∃ later earlier interval f,
    (runWithin 10 state view).1.history = later ++ .stopped 2 :: earlier ∧
    .started 2 interval f ∈ earlier ∧ .fired 2 ∉ later ∧
      (∀ g args, .called (.timer 2) g args ∈ later → g = f ∧ args = []) ∧
      callsOf earlier (.timer 2) + callsOf later (.timer 2) +
        (runWithin 10 state view).1.owed (.timer 2) = firesOf earlier 2 ∧
      ((∀ g args, .called (.timer 2) g args ∉ later) ↔
        callsOf earlier (.timer 2) + (runWithin 10 state view).1.owed (.timer 2) =
          firesOf earlier 2) := by
  obtain ⟨later, earlier, interval, f, hh, hs, -⟩ := stopped
  exact ⟨later, earlier, interval, f, hh, hs,
    @stopped_timer_calls state 10 view later earlier 2 interval f hh hs⟩

end StoppedLate

end ScriptHost.Engine
