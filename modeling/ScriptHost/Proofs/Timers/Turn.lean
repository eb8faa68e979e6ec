import ScriptHost.Proofs.Timers.Basic
import ScriptHost.Timers.Course

/-!
# Turns of timers

What the turn of a job can be. A job whose timer is not active does nothing; one
that begins goes to sleep, unless the delay of its timer is none; and in all other
cases the timer fires, and sleeps again if it repeats.
-/

set_option autoImplicit false

namespace ScriptHost

namespace Schedule

variable {Job : Type} {asleep : List (Nat × Job)} {deadline : Nat}

theorem earliest_eq_none : earliest asleep = none ↔ asleep = [] := by
  cases asleep with
  | nil => simp [earliest]
  | cons pair rest =>
    simp only [earliest]
    split <;> simp

theorem earliest_mem (h : earliest asleep = some deadline) :
    ∃ pair ∈ asleep, pair.1 = deadline := by
  induction asleep generalizing deadline with
  | nil => simp [earliest] at h
  | cons pair rest ih =>
    simp only [earliest] at h
    cases hr : earliest rest with
    | none =>
      rw [hr] at h
      exact ⟨pair, List.mem_cons_self, Option.some.inj h⟩
    | some least =>
      rw [hr] at h
      obtain rfl := Option.some.inj h
      rcases Nat.le_total pair.1 least with hl | hl
      · exact ⟨pair, List.mem_cons_self, (Nat.min_eq_left hl).symm⟩
      · obtain ⟨other, hm, he⟩ := ih hr
        exact ⟨other, List.mem_cons_of_mem _ hm, he.trans (Nat.min_eq_right hl).symm⟩

theorem earliest_le (h : earliest asleep = some deadline) : ∀ pair ∈ asleep, deadline ≤ pair.1 := by
  induction asleep generalizing deadline with
  | nil => simp
  | cons pair rest ih =>
    intro other hm
    simp only [earliest] at h
    cases hr : earliest rest with
    | none =>
      rw [hr] at h
      have hrest : rest = [] := earliest_eq_none.mp hr
      obtain rfl := Option.some.inj h
      obtain rfl : other = pair := by simpa [hrest] using hm
      exact Nat.le_refl _
    | some least =>
      rw [hr] at h
      obtain rfl := Option.some.inj h
      rcases List.mem_cons.mp hm with rfl | hm
      · exact Nat.min_le_left _ _
      · exact Nat.le_trans (Nat.min_le_right _ _) (ih hr other hm)

end Schedule

def TimerJob.handle : TimerJob → Nat
  | .begin handle _ => handle
  | .due handle => handle

namespace Timers

theorem mem_afterFire {t : Timers} {timer other : Timer} :
    other ∈ (t.afterFire timer).active ↔
      other ∈ t.active ∧ (other.handle = timer.handle → timer.interval ≠ 0) := by
  refine ⟨afterFire_active, fun ⟨hm, hi⟩ => ?_⟩
  unfold afterFire
  split
  · next hz => exact mem_stop.mpr ⟨hm, fun he => hi he hz⟩
  · exact hm

namespace Course

def without (c : Course) (rest : List TimerJob) : Schedule TimerJob :=
  { c.schedule with ready := rest }

def again (c : Course) (timer : Timer) (rest : List TimerJob) : Schedule TimerJob :=
  if timer.interval = 0 then c.without rest
  else (c.without rest).sleep timer.interval (.due timer.handle)

inductive Turn (c : Course) : Course → Option Nat → Prop
  | idle (job : TimerJob) (rest : List TimerJob) (hr : c.schedule.ready = job :: rest)
      (hn : ∀ timer ∈ c.timers.active, timer.handle ≠ job.handle) :
      Turn c { c with schedule := c.without rest } none
  | slept (timer : Timer) (delay : Nat) (rest : List TimerJob)
      (hr : c.schedule.ready = .begin timer.handle delay :: rest)
      (hm : timer ∈ c.timers.active) (hd : delay ≠ 0) :
      Turn c ({ c with schedule := (c.without rest).sleep delay (.due timer.handle) }.note
        [.begun timer.handle]) none
  | firedAtOnce (timer : Timer) (rest : List TimerJob)
      (hr : c.schedule.ready = .begin timer.handle 0 :: rest) (hm : timer ∈ c.timers.active) :
      Turn c ({ c with timers := c.timers.afterFire timer, schedule := c.again timer rest }.note
        [.begun timer.handle, .fired timer.handle]) (some timer.handle)
  | fired (timer : Timer) (rest : List TimerJob)
      (hr : c.schedule.ready = .due timer.handle :: rest) (hm : timer ∈ c.timers.active) :
      Turn c ({ c with timers := c.timers.afterFire timer, schedule := c.again timer rest }.note
        [.fired timer.handle]) (some timer.handle)

variable {c c' : Course} {fired : Option Nat}

theorem fire_again (c : Course) (timer : Timer) (rest : List TimerJob) :
    c.timers.fire (c.without rest) id timer = (c.timers.afterFire timer, c.again timer rest) := by
  unfold fire afterFire again
  split <;> rfl

theorem find_none {t : Timers} {handle : Nat} (h : t.find? handle = none) :
    ∀ timer ∈ t.active, timer.handle ≠ handle := by
  intro timer hm
  simpa using List.find?_eq_none.mp h timer hm

theorem turn_of_turn? (h : c.turn? = some (c', fired)) : Turn c c' fired := by
  unfold turn? Schedule.next? at h
  cases hr : c.schedule.ready with
  | nil => simp [hr] at h
  | cons job rest =>
    simp only [hr, Option.some.injEq, Prod.mk.injEq] at h
    obtain ⟨hc, hf⟩ := h
    rw [← hc, ← hf]
    cases job with
    | «begin» handle delay =>
      cases hfind : c.timers.find? handle with
      | none =>
        have hn : ∀ timer ∈ c.timers.active, timer.handle ≠ handle := find_none hfind
        have ha : c.timers.isActive handle = false := by simpa [isActive] using hn
        simpa [Timers.run, hfind, eventsOf, ha, note, now, without] using Turn.idle _ rest hr hn
      | some timer =>
        obtain ⟨hm, rfl⟩ := find_some hfind
        have ha : c.timers.isActive timer.handle = true := isActive_iff.mpr ⟨timer, hm, rfl⟩
        by_cases hd : delay = 0
        · subst hd
          have hfire := fire_again c timer rest
          unfold without at hfire
          simp only [Timers.run, hfind, eventsOf, ha, hfire]
          exact Turn.firedAtOnce timer rest hr hm
        · simp only [Timers.run, hfind, hd, eventsOf, ha]
          exact Turn.slept timer delay rest hr hm hd
    | due handle =>
      cases hfind : c.timers.find? handle with
      | none =>
        have hn : ∀ timer ∈ c.timers.active, timer.handle ≠ handle := find_none hfind
        simpa [Timers.run, hfind, eventsOf, note, now, without] using Turn.idle _ rest hr hn
      | some timer =>
        obtain ⟨hm, rfl⟩ := find_some hfind
        have hfire := fire_again c timer rest
        unfold without at hfire
        simp only [Timers.run, hfind, eventsOf, hfire]
        exact Turn.fired timer rest hr hm

end Course

end Timers

end ScriptHost
