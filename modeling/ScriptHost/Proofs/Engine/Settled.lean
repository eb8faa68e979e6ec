import ScriptHost.Proofs.Engine.Accounts
import ScriptHost.Proofs.Engine.Handover
import ScriptHost.Proofs.Engine.Scripts

/-!
# Runs that complete

A run whose `main` was called completes only when nothing is left that could
call back. Whatever was due has been called by then, and no timer is active.
-/

set_option autoImplicit false

open scoped List

namespace ScriptHost.Engine

section Completed

variable {α β : Type} {s s' : State} {limit : Nat}

end Completed

section Settled

variable {s : State}

/-- A callback was called once for its answer, or its call was given up, as a name that is set to
show the answer has a setter. -/
inductive CalledOrGivenUp (s : State) (key : Nat) (f : Callable) (answer : HostAnswer) : Prop
  | called (args : List Value) (hs : Shows s.Takes answer args)
      (hc : s.history.filter (·.isCallOf (.primitive key)) = [.called (.primitive key) f args])
      (hg : waiversOf s.history (.primitive key) = 0)
  | givenUp (name : String) (hn : name ∈ namesSet answer) (ht : s.Takes name)
      (hc : callsOf s.history (.primitive key) = 0)
      (hg : waiversOf s.history (.primitive key) = 1)

/-- What became of the callbacks of a run. -/
structure Settled (s : State) : Prop where
  accepted : ∀ key f, .accepted key f ∈ s.history → ∃ answer,
    .answered key answer ∈ s.history ∧ CalledOrGivenUp s key f answer
  /-- The callback of a timer was called once for each fire. -/
  started : ∀ timer interval f, .started timer interval f ∈ s.history →
    s.history.filter (·.isCallOf (.timer timer)) =
      List.replicate (firesOf s.history timer) (.called (.timer timer) f [])
  /-- A timer that fires once did, unless it was stopped before. -/
  once : ∀ timer f, .started timer 0 f ∈ s.history → firesOf s.history timer = 1 ∨
    firesOf s.history timer = 0 ∧ [.stopped timer, .started timer 0 f] <+ s.history
  inactive : s.host.timers.active = []

theorem Accounted.idle_balance (h : Accounted s) (hw : s.woken = []) (hc : s.callbacks = [])
    (source : CallbackSource) :
    duesOf s.history source = callsOf s.history source + waiversOf s.history source := by
  rw [h.balance source]
  simp [State.owed, hw, hc]

theorem Accounted.calledOrGivenUp (h : Accounted s) {key : Nat} {f : Callable}
    (hf : .accepted key f ∈ s.history)
    (hb : duesOf s.history (.primitive key) =
      callsOf s.history (.primitive key) + waiversOf s.history (.primitive key)) :
    ∃ answer, .answered key answer ∈ s.history ∧ CalledOrGivenUp s key f answer := by
  have hpos : duesOf s.history (.primitive key) ≠ 0 := fun hz => duesOf_eq_zero.mp hz f hf
  have hle : duesOf s.history (.primitive key) ≤ 1 := h.once key
  by_cases hg : waiversOf s.history (.primitive key) = 0
  · obtain ⟨e, he⟩ : ∃ e, s.history.filter (·.isCallOf (.primitive key)) = [e] := by
      rw [← List.length_eq_one_iff, ← List.countP_eq_length_filter]
      change callsOf s.history (.primitive key) = 1
      omega
    have hm : e ∈ s.history.filter (·.isCallOf (.primitive key)) := by simp [he]
    obtain ⟨hm, hc⟩ := List.mem_filter.mp hm
    obtain ⟨g, args, rfl⟩ := isCallOf_iff.mp hc
    obtain ⟨answer?, hd, hs⟩ := h.called _ g args hm
    cases hd with
    | answer hg' ha =>
      obtain rfl := h.accepted_once hf hg'
      cases hs with
      | answer hs => exact ⟨_, ha, .called args hs he hg⟩
  · obtain ⟨e, he, hge⟩ := List.countP_pos_iff.mp (Nat.pos_of_ne_zero hg)
    obtain ⟨value, rfl⟩ := isWaiverOf_iff.mp hge
    obtain ⟨g, answer, hd, name, hn, ht⟩ := h.givenUp _ value he
    cases hd with
    | answer _ ha => exact ⟨answer, ha, .givenUp name hn ht (by omega) (by omega)⟩

theorem Accounted.settled (h : Accounted s) (hi : isIdle s = true) : Settled s := by
  simp only [isIdle, Bool.and_eq_true, List.isEmpty_iff] at hi
  obtain ⟨⟨⟨hwoken, -⟩, hcallbacks⟩, htimers⟩ := hi
  -- nothing waits to be called or for an answer, so what was due was called or given up
  have hbalance := h.idle_balance hwoken hcallbacks
  have hinactive : s.host.timers.active = [] := by
    rw [List.eq_nil_iff_forall_not_mem]
    intro timer hm
    obtain ⟨f, -, hl⟩ := h.timers.kept timer hm
    rw [htimers] at hl
    cases hl
  constructor
  case accepted => exact fun key f hf => h.calledOrGivenUp hf (hbalance _)
  case started =>
    intro timer interval f hf
    rw [List.eq_replicate_iff]
    constructor
    · have hb := hbalance (.timer timer)
      rw [duesOf_timer, h.timer_waivers, Nat.add_zero] at hb
      rw [hb, callsOf, List.countP_eq_length_filter]
    · intro e he
      obtain ⟨hm, hc⟩ := List.mem_filter.mp he
      obtain ⟨g, args, rfl⟩ := isCallOf_iff.mp hc
      obtain ⟨rfl, rfl⟩ := h.called_timer timer interval hf hm
      rfl
  case once =>
    intro timer f hf
    obtain ⟨hfires, -⟩ | ⟨hfires, ha | hs⟩ := h.timers.once timer f hf
    · exact .inl hfires
    · obtain ⟨active, hm, -⟩ := Timers.isActive_iff.mp ha
      simp [hinactive] at hm
    · exact .inr ⟨hfires, hs⟩
  case inactive => exact hinactive

end Settled

/-! A program that hands over callbacks of each kind, one of which throws. -/

namespace Busy

open Rethrown (statement view)
open Script (app handOver number stateOf timer)

def program : Json := .object [("main", .string "sync"), ("main_body", .array [
  handOver "openDirectory" [.string "file:///"] [],
  handOver "closeDirectory" [number 7] [statement "throw" [("value", .string "dropped")]],
  handOver "spawnProcess" [.string "true", .array []] [],
  timer "a" 0 []])]

def state : State := stateOf .raw program

def completed? : Option RunResult → Option (ModuleId × Bool)
  | some (.ok (.completed id isInvoked)) => some (id, isInvoked)
  | _ => none

set_option maxRecDepth 100000 in
theorem seen : completed? (runWithin 10 state view).2.result = some (app, true) := by
  decide +kernel

end Busy

/-- A call that is given up: the setter throws when the result is made. -/
def Spoiled.state : State :=
  Script.stateAfter .raw (Script.setterText "success" "throw 0;")
    [Script.handOver "spawnProcess" [.string "true", .array []] [Script.print "called"]]

set_option maxRecDepth 100000 in
example : Busy.completed? (runWithin 10 Spoiled.state Rethrown.view).2.result =
      some (Script.app, true) ∧
    (runWithin 10 Spoiled.state Rethrown.view).1.history.map (·.label.1) =
      ["given up", "answered", "accepted"] := by
  decide +kernel

/-! A program that hands a callback to `openDirectory` with a text that is no URL. -/

namespace Refused

open Rethrown (statement view)
open Script (app handOver print stateOf)
open Busy (completed?)

def program : Json := .object [("main", .string "sync"), ("main_body", .array [statement "try" [
  ("body", .array [handOver "openDirectory" [.string "no url"] [print "called"]]),
  ("catch", .array [print "refused"])]])]

def state : State := stateOf .raw program

def writesOf (log : List Entry) : List String := log.filterMap fun
  | .wrote text _ => some text
  | _ => none

set_option maxRecDepth 100000 in
theorem seen : completed? (runWithin 0 state view).2.result = some (app, true) ∧
    writesOf (runWithin 0 state view).2.log = ["refused"] ∧
    (runWithin 0 state view).1.history.map CallbackEvent.label = [] := by
  decide +kernel

end Refused

end ScriptHost.Engine
