import ScriptHost.Timers.Basic

/-!
# Sets of timers

What starting, stopping and firing do to the timers that are active. A timer
fires only while it is active.
-/

set_option autoImplicit false

namespace ScriptHost

namespace Timers

variable {t : Timers} {handle : Nat} {timer : Timer}

theorem isActive_iff : t.isActive handle = true ↔ ∃ timer ∈ t.active, timer.handle = handle := by
  simp [isActive]

theorem mem_stop : timer ∈ (t.stop handle).active ↔ timer ∈ t.active ∧ timer.handle ≠ handle := by
  simp [stop]

theorem find_some (h : t.find? handle = some timer) : timer ∈ t.active ∧ timer.handle = handle :=
  ⟨List.mem_of_find?_eq_some h, by simpa using List.find?_some h⟩

theorem stop_isActive (other : Nat) :
    (t.stop handle).isActive other = (decide (other ≠ handle) && t.isActive other) := by
  rw [Bool.eq_iff_iff, isActive_iff, Bool.and_eq_true, isActive_iff, decide_eq_true_eq]
  constructor
  · rintro ⟨timer, hm, rfl⟩
    have hs : timer ∈ t.active ∧ timer.handle ≠ handle := mem_stop.mp hm
    exact ⟨hs.2, timer, hs.1, rfl⟩
  · rintro ⟨hne, timer, hm, rfl⟩
    exact ⟨timer, mem_stop.mpr ⟨hm, hne⟩, rfl⟩

def afterFire (t : Timers) (timer : Timer) : Timers :=
  if timer.interval = 0 then t.stop timer.handle else t

theorem afterFire_active {other : Timer} (h : other ∈ (t.afterFire timer).active) :
    other ∈ t.active ∧ (other.handle = timer.handle → timer.interval ≠ 0) := by
  unfold afterFire at h
  split at h
  · have hs : other ∈ t.active ∧ other.handle ≠ timer.handle := mem_stop.mp h
    exact ⟨hs.1, fun he => absurd he hs.2⟩
  · rename_i hi
    exact ⟨h, fun _ => hi⟩

theorem afterFire_issued (t : Timers) (timer : Timer) :
    (t.afterFire timer).issued = t.issued := by
  unfold afterFire
  split <;> rfl

theorem afterFire_isActive (t : Timers) (timer : Timer) (other : Nat) :
    (t.afterFire timer).isActive other =
      (decide (other ≠ timer.handle ∨ timer.interval ≠ 0) && t.isActive other) := by
  unfold afterFire
  by_cases hi : timer.interval = 0
  · rw [if_pos hi, stop_isActive]
    simp [hi]
  · simp [hi]

variable {Job : Type} (t : Timers) (s : Schedule Job) (embed : TimerJob → Job)

theorem fire_timers (timer : Timer) : (t.fire s embed timer).1 = t.afterFire timer := by
  unfold fire afterFire
  split <;> rfl

theorem run_cases (job : TimerJob) :
    ((t.run s embed job).1 = none ∧ (t.run s embed job).2.1 = t) ∨
      ∃ timer ∈ t.active, (t.run s embed job).1 = some timer.handle ∧
        (t.run s embed job).2.1 = t.afterFire timer := by
  cases job with
  | begin handle delay =>
    cases hf : t.find? handle with
    | none => exact .inl (by simp [run, hf])
    | some timer =>
      by_cases hd : delay = 0
      · obtain ⟨hm, rfl⟩ := find_some hf
        exact .inr ⟨timer, hm, by simp [run, hf, hd, fire_timers]⟩
      · exact .inl (by simp [run, hf, hd])
  | due handle =>
    cases hf : t.find? handle with
    | none => exact .inl (by simp [run, hf])
    | some timer =>
      obtain ⟨hm, rfl⟩ := find_some hf
      exact .inr ⟨timer, hm, by simp [run, hf, fire_timers]⟩

end Timers

end ScriptHost
