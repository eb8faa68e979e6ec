import Mathlib.Data.List.Nodup
import Mathlib.Data.List.Perm.Basic
import ScriptHost.Proofs.Timers.OnSchedule

/-!
# Active timers

The active timers are those whose life goes on: they were started, nothing ended
them, and they repeat or have not fired. These are just the ones that can fire:
from an active timer turns and the passing of time lead to its next fire, and
nothing makes an inactive one fire again.
-/

set_option autoImplicit false

open scoped List

namespace ScriptHost.Timers

/-- A timer was started, was not ended since, and repeats or has not begun its single fire. -/
def Life.mayFire (l : Life) : Bool :=
  l.start.any (fun p => p.interval ≠ 0 || l.fires.isEmpty) && l.ended.isNone

def startIn : Nat × TimerEvent → Option Nat
  | (_, .started handle _ _) => some handle
  | _ => none

namespace Course

def starts (c : Course) : List Nat := c.history.filterMap startIn

variable {c c' : Course} {handle : Nat} {timer : Timer} {fired : Option Nat}

theorem rest?_some {moment : Nat} (h : c.rest? moment = some c') :
    ∃ schedule, c' = { c with schedule } := by
  unfold rest? at h
  split at h
  · exact ⟨_, (Option.some.inj h).symm⟩
  · cases h

/-! ## The handles of active timers -/

theorem starts_note (c : Course) (events : List TimerEvent) :
    (c.note events).starts = c.starts ++ (events.map (c.now, ·)).filterMap startIn :=
  List.filterMap_append

/-- Handles are given out in order, and those of the active timers are among them in that order. -/
structure Listed (c : Course) : Prop where
  starts : c.starts = List.range' 1 c.timers.issued
  active : c.timers.active.map (·.handle) <+ c.starts

namespace Listed

theorem of_sublist (h : c.Listed) (hs : c'.starts = c.starts)
    (hi : c'.timers.issued = c.timers.issued) (ha : c'.timers.active <+ c.timers.active) :
    c'.Listed where
  starts := by rw [hs, hi, h.starts]
  active := by
    rw [hs]
    exact (ha.map _).trans h.active

theorem add (h : c.Listed) (delay interval : Nat) : (c.add delay interval).1.Listed := by
  have hstarts : (c.add delay interval).1.starts = c.starts ++ [c.timers.issued + 1] :=
    starts_note _ _
  constructor
  case starts =>
    rw [hstarts, h.starts, Nat.add_comm c.timers.issued]
    exact List.range'_1_concat.symm
  case active =>
    rw [hstarts]
    change (c.timers.active ++ [(⟨c.timers.issued + 1, interval⟩ : Timer)]).map (·.handle) <+ _
    rw [List.map_append]
    exact h.active.append (List.Sublist.refl _)

theorem afterFire_sublist (t : Timers) (timer : Timer) :
    (t.afterFire timer).active <+ t.active := by
  unfold afterFire
  split
  · exact List.filter_sublist
  · exact List.Sublist.refl _

theorem turn (h : c.Listed) (ht : Turn c c' fired) : c'.Listed := by
  cases ht with
  | idle job rest hr hn => exact h.of_sublist rfl rfl (List.Sublist.refl _)
  | slept timer delay rest hr hm hd =>
    exact h.of_sublist ((starts_note _ _).trans (List.append_nil _)) rfl (List.Sublist.refl _)
  | firedAtOnce timer rest hr hm =>
    exact h.of_sublist ((starts_note _ _).trans (List.append_nil _)) (afterFire_issued _ _)
      (afterFire_sublist _ _)
  | fired timer rest hr hm =>
    exact h.of_sublist ((starts_note _ _).trans (List.append_nil _)) (afterFire_issued _ _)
      (afterFire_sublist _ _)

theorem move {a : Move} (h : c.Listed) (hm : c.move? a = some c') : c'.Listed := by
  cases a with
  | add delay interval =>
    obtain rfl := Option.some.inj hm
    exact h.add delay interval
  | stop handle =>
    obtain rfl := Option.some.inj hm
    exact h.of_sublist ((starts_note _ _).trans (List.append_nil _)) rfl List.filter_sublist
  | drop =>
    obtain rfl := Option.some.inj hm
    exact h.of_sublist ((starts_note _ _).trans (List.append_nil _)) rfl (List.nil_sublist _)
  | turn =>
    obtain ⟨⟨after, fired⟩, ht, rfl⟩ := Option.map_eq_some_iff.mp hm
    exact h.turn (turn_of_turn? ht)
  | wake limit =>
    obtain ⟨deadline, -, -, -, rfl⟩ := wake?_some hm
    exact h.of_sublist rfl rfl (List.Sublist.refl _)
  | rest moment =>
    obtain ⟨schedule, rfl⟩ := rest?_some hm
    exact h.of_sublist rfl rfl (List.Sublist.refl _)

theorem run {moves : List Move} (h : c.Listed) (hr : c.run moves = some c') : c'.Listed :=
  runsBy.keeps (fun _ _ _ _ => move) hr h

theorem start : start.Listed where
  starts := rfl
  active := List.nil_sublist _

theorem nodup (h : c.Listed) : c.starts.Nodup := by
  rw [h.starts]
  exact List.nodup_range'

theorem mem_starts (h : c.Listed) : handle ∈ c.starts ↔ 0 < handle ∧ handle ≤ c.timers.issued := by
  rw [h.starts, List.mem_range'_1]
  omega

theorem fresh (h : c.Listed) : c.timers.issued + 1 ∉ c.starts := by
  rw [h.mem_starts]
  omega

end Listed

/-! ## Active timers and their lives -/

theorem mem_handles : handle ∈ c.timers.active.map (·.handle) ↔ c.timers.isActive handle = true := by
  rw [isActive_iff, List.mem_map]

theorem Valid.isActive_eq (hv : c.Valid) (handle : Nat) :
    c.timers.isActive handle = (c.life handle).mayFire := by
  have hk : c.Kept handle := hv.kept handle
  rw [Bool.eq_iff_iff, isActive_iff]
  constructor
  · rintro ⟨timer, hm, ht⟩
    obtain ⟨p, hp, -, he, hspent, -⟩ := hk.active timer hm ht
    have hone : p.interval = 0 → (c.life handle).fires.length ≤ 1 := (hk.onTime p hp).once
    have hopen : p.interval ≠ 0 ∨ (c.life handle).fires = [] := by
      by_cases hi : p.interval = 0
      · have hne : (c.life handle).fires.length ≠ 1 := fun hl => hspent ⟨hi, hl⟩
        have hzero : (c.life handle).fires.length = 0 := by
          have := hone hi
          omega
        exact .inr (List.length_eq_zero_iff.mp hzero)
      · exact .inl hi
    simpa [Life.mayFire, hp, he] using hopen
  · intro hl
    obtain ⟨p, hp, he, hopen⟩ : ∃ p, (c.life handle).start = some p ∧
        (c.life handle).ended = none ∧ (p.interval ≠ 0 ∨ (c.life handle).fires = []) := by
      unfold Life.mayFire at hl
      cases hs : (c.life handle).start with
      | none => simp [hs] at hl
      | some p => exact ⟨p, rfl, by simpa [hs, and_comm] using hl⟩
    refine (hk.inactive p hp he).resolve_left fun hspent => ?_
    rcases hopen with hi | hf
    · exact hi hspent.1
    · simpa [hf] using hspent.2

theorem activeCount_eq (hv : c.Valid) (hl : c.Listed) :
    c.timers.activeCount = (c.starts.filter fun handle => (c.life handle).mayFire).length := by
  have hperm : c.timers.active.map (·.handle) ~
      c.starts.filter fun handle => (c.life handle).mayFire := by
    refine (List.perm_ext_iff_of_nodup (hl.active.nodup hl.nodup) (hl.nodup.filter _)).mpr ?_
    intro handle
    rw [List.mem_filter, ← hv.isActive_eq, mem_handles]
    exact ⟨fun ha => ⟨hl.active.subset (mem_handles.mpr ha), ha⟩, And.right⟩
  rw [← hperm.length_eq, List.length_map]
  rfl

/-! ## What a turn does to a life -/

theorem turn_other (h : Turn c c' fired) (hf : fired ≠ some handle) :
    (c'.life handle).start = (c.life handle).start ∧
    (c'.life handle).fires = (c.life handle).fires ∧
    (c'.life handle).ended = (c.life handle).ended ∧
    (c'.life handle).late = (c.life handle).late ∧
    c'.timers.isActive handle = c.timers.isActive handle := by
  have hafter : ∀ timer : Timer, some timer.handle ≠ some handle →
      (c.timers.afterFire timer).isActive handle = c.timers.isActive handle := by
    intro timer hne
    have hne : handle ≠ timer.handle := fun he => hne (congrArg some he.symm)
    simp [afterFire_isActive, hne]
  cases h with
  | idle job rest hr hn => exact ⟨rfl, rfl, rfl, rfl, rfl⟩
  | slept timer delay rest hr hm hd =>
    have hlife : ({ c with schedule := (c.without rest).sleep delay (.due timer.handle) }.note
        [.begun timer.handle]).life handle =
        if timer.handle = handle then { c.life handle with begun := some c.now }
        else c.life handle := life_note _ _ _
    rw [hlife]
    split <;> exact ⟨rfl, rfl, rfl, rfl, rfl⟩
  | firedAtOnce timer rest hr hm | fired timer rest hr hm =>
    have hne : timer.handle ≠ handle := fun he => hf (congrArg some he)
    rw [fired_life]
    simp [Life.note, hne, note, hafter timer hf]

/-- A turn in which a timer fires adds a fire to its life, and the timer was active. It still is
just if it repeats. -/
theorem turn_own (hv : c.Valid) (h : Turn c c' (some handle)) :
    ∃ p, c.timers.isActive handle = true ∧ (c'.life handle).start = some p ∧
      (c'.life handle).fires = (c.life handle).fires ++ [c.now] ∧
      c'.timers.isActive handle = decide (p.interval ≠ 0) := by
  have hactive : ∀ timer ∈ c.timers.active, c.timers.isActive timer.handle = true :=
    fun timer hm => isActive_iff.mpr ⟨timer, hm, rfl⟩
  cases h with
  | firedAtOnce timer rest hr hm | fired timer rest hr hm =>
    obtain ⟨p, hp, hi, he, -, -⟩ := (hv.kept timer.handle).active timer hm rfl
    refine ⟨p, hactive timer hm, ?_, ?_, ?_⟩
    · rw [fired_life]
      simp [Life.note, Life.fire, he, hp]
    · rw [fired_life]
      simp [Life.note, Life.fire, he]
    · simp [note, afterFire_isActive, hactive timer hm, hi]

/-! ## The next fire of an active timer -/

def Move.isPassing : Move → Bool
  | .turn | .wake _ => true
  | .add _ _ | .stop _ | .drop | .rest _ => false

/-- Turns and the passing of time lead from one course to another. -/
def Passes (c c' : Course) : Prop := ∃ moves, (∀ a ∈ moves, a.isPassing) ∧ c.run moves = some c'

theorem Passes.head {a : Move} {middle : Course} (ha : a.isPassing) (hm : c.move? a = some middle)
    (h : Passes middle c') : Passes c c' := by
  obtain ⟨moves, hp, hr⟩ := h
  refine ⟨a :: moves, ?_, ?_⟩
  · intro b hb
    rcases List.mem_cons.mp hb with rfl | hb
    · exact ha
    · exact hp b hb
  · rw [run, hm]
    exact hr

theorem turn?_isSome {job : TimerJob} {rest : List TimerJob}
    (hr : c.schedule.ready = job :: rest) : ∃ after fired, c.turn? = some (after, fired) := by
  simp [turn?, Schedule.next?, hr]

theorem turn_ready (h : Turn c c' fired) :
    c'.now = c.now ∧ c.schedule.ready.length = c'.schedule.ready.length + 1 := by
  have hagain : ∀ (timer : Timer) (rest : List TimerJob), (c.again timer rest).ready = rest := by
    intro timer rest
    unfold again
    split <;> rfl
  cases h with
  | idle job rest hr hn => exact ⟨rfl, by rw [hr]; rfl⟩
  | slept timer delay rest hr hm hd => exact ⟨rfl, by rw [hr]; rfl⟩
  | firedAtOnce timer rest hr hm =>
    refine ⟨again_now c timer rest, ?_⟩
    simp [hr, note, hagain]
  | fired timer rest hr hm =>
    refine ⟨again_now c timer rest, ?_⟩
    simp [hr, note, hagain]

/-- When no job can run, time passes up to the next fire of an active timer or to an earlier
deadline. -/
theorem wake_nearer (hv : c.Valid) (hr : c.schedule.ready = []) {p : Start} {l : Life}
    (hw : c.Awaits handle p l) :
    ∃ deadline, c.move? (.wake deadline) =
        some { c with schedule := c.schedule.wakeAt deadline } ∧
      c.now < deadline ∧ deadline ≤ p.due l.fires.length := by
  obtain ⟨-, hlt⟩ := hw.now_lt hv hr
  cases hw with
  | turn hb hf hm hj => simp [hr] at hj
  | due hb hd hj => simp [hr] at hj
  | deadline hb hj =>
    obtain ⟨deadline, hd⟩ : ∃ deadline, Schedule.earliest c.schedule.asleep = some deadline := by
      cases he : Schedule.earliest c.schedule.asleep with
      | none => simp [Schedule.earliest_eq_none.mp he] at hj
      | some deadline => exact ⟨deadline, rfl⟩
    obtain ⟨pair, hm, he⟩ := Schedule.earliest_mem hd
    refine ⟨deadline, ?_, he ▸ hv.later pair hm, Schedule.earliest_le hd _ hj⟩
    simp [move?, wake?, hr, Schedule.wake?, Schedule.earliest?, hd]

/-- An active timer fires if nobody does anything. The job at the front has its turn until the
timer fires or no job can run, and then time passes towards its deadline. -/
theorem fires_next (c : Course) (handle : Nat) (hv : c.Valid) {p : Start}
    (hp : (c.life handle).start = some p) (ha : c.timers.isActive handle = true) :
    ∃ c', Passes c c' ∧ (c.life handle).fires.length < (c'.life handle).fires.length := by
  obtain ⟨timer, hm, ht⟩ := isActive_iff.mp ha
  obtain ⟨-, -, -, hw⟩ := (hv.kept handle).awaits hp hm ht
  cases hr : c.schedule.ready with
  | cons job rest =>
    obtain ⟨after, fired, hturn⟩ := turn?_isSome hr
    have hmove : c.move? .turn = some after := by simp [move?, hturn]
    have hturn : Turn c after fired := turn_of_turn? hturn
    by_cases hf : fired = some handle
    · subst hf
      obtain ⟨-, -, -, hfires, -⟩ := turn_own hv hturn
      exact ⟨after, .head rfl hmove ⟨[], by simp, rfl⟩, by simp [hfires]⟩
    · obtain ⟨hstart, hfires, -, -, hactive⟩ := turn_other hturn hf
      obtain ⟨hnow, hlength⟩ := turn_ready hturn
      have hless : after.schedule.ready.length < c.schedule.ready.length := by omega
      obtain ⟨c', hpass, hmore⟩ :=
        fires_next after handle (turn_valid hv hturn) (hstart.trans hp) (hactive.trans ha)
      exact ⟨c', .head rfl hmove hpass, hfires ▸ hmore⟩
  | nil =>
    obtain ⟨deadline, hmove, hlt, hle⟩ := wake_nearer hv hr hw
    obtain ⟨c', hpass, hmore⟩ :=
      fires_next { c with schedule := c.schedule.wakeAt deadline } handle (wake_valid hv hmove) hp ha
    exact ⟨c', .head rfl hmove hpass, hmore⟩
termination_by (p.due (c.life handle).fires.length - c.now, c.schedule.ready.length)
decreasing_by
  · refine Prod.Lex.left _ _ ?_
    change p.due (c.life handle).fires.length - deadline < p.due (c.life handle).fires.length - c.now
    omega
  · rw [hfires, hnow]
    exact Prod.Lex.right _ hless

/-! ## Timers that are not active -/

theorem close_fires (l : Life) (moment : Nat) :
    (l.close moment).fires = l.fires ∧ (l.close moment).late = l.late := by
  unfold Life.close
  split <;> exact ⟨rfl, rfl⟩

/-- A timer that was started and is not active stays so, and does not fire. -/
theorem move_inactive {a : Move} (hl : c.Listed) (hv : c.Valid) (hh : handle ∈ c.starts)
    (ha : c.timers.isActive handle = false) (hm : c.move? a = some c') :
    handle ∈ c'.starts ∧ c'.timers.isActive handle = false ∧
      (c'.life handle).fires = (c.life handle).fires ∧
      (c'.life handle).late = (c.life handle).late := by
  cases a with
  | add delay interval =>
    obtain rfl := Option.some.inj hm
    have hne : c.timers.issued + 1 ≠ handle := fun he => hl.fresh (he ▸ hh)
    refine ⟨?_, ?_, ?_, ?_⟩
    · rw [show (c.add delay interval).1.starts = c.starts ++ _ from starts_note _ _]
      exact List.mem_append_left _ hh
    · have hgiven := hl.mem_starts.mp hh
      simpa [isActive, Course.add, note, Timers.start, hne] using ha
    · rw [add_life, if_neg hne]
    · rw [add_life, if_neg hne]
  | stop other =>
    obtain rfl := Option.some.inj hm
    have hlife : (c.stop other).life handle =
        if other = handle then (c.life handle).close c.now else c.life handle := life_note _ _ _
    refine ⟨?_, ?_, ?_⟩
    · rw [show (c.stop other).starts = c.starts ++ _ from starts_note _ _]
      exact List.mem_append_left _ hh
    · show (c.timers.stop other).isActive handle = false
      rw [stop_isActive, ha, Bool.and_false]
    · rw [hlife]
      split
      · exact close_fires _ _
      · exact ⟨rfl, rfl⟩
  | drop =>
    obtain rfl := Option.some.inj hm
    have hlife : c.drop.life handle = (c.life handle).close c.now := life_note _ _ _
    refine ⟨?_, rfl, ?_⟩
    · rw [show c.drop.starts = c.starts ++ _ from starts_note _ _]
      exact List.mem_append_left _ hh
    · rw [hlife]
      exact close_fires _ _
  | turn =>
    obtain ⟨⟨after, fired⟩, ht, rfl⟩ := Option.map_eq_some_iff.mp hm
    have ht : Turn c after fired := turn_of_turn? ht
    -- only an active timer fires, so it is another one that does
    have hf : fired ≠ some handle := by
      rintro rfl
      obtain ⟨-, hactive, -⟩ := turn_own hv ht
      rw [ha] at hactive
      cases hactive
    obtain ⟨-, hfires, -, hlate, hactive⟩ := turn_other ht hf
    have hissued : after.timers.issued = c.timers.issued := by
      cases ht <;> first | rfl | exact afterFire_issued _ _
    refine ⟨?_, hactive.trans ha, hfires, hlate⟩
    exact (hl.turn ht).mem_starts.mpr (hissued ▸ hl.mem_starts.mp hh)
  | wake limit =>
    obtain ⟨deadline, -, -, -, rfl⟩ := wake?_some hm
    exact ⟨hh, ha, rfl, rfl⟩
  | rest moment =>
    obtain ⟨schedule, rfl⟩ := rest?_some hm
    exact ⟨hh, ha, rfl, rfl⟩

theorem run_inactive {moves : List Move} (hl : c.Listed) (hv : c.Valid) (hh : handle ∈ c.starts)
    (ha : c.timers.isActive handle = false) (hr : c.run moves = some c') :
    (c'.life handle).fires = (c.life handle).fires ∧
      (c'.life handle).late = (c.life handle).late := by
  have h : c'.Listed ∧ c'.Valid ∧ handle ∈ c'.starts ∧ c'.timers.isActive handle = false ∧
      (c'.life handle).fires = (c.life handle).fires ∧
      (c'.life handle).late = (c.life handle).late := by
    refine runsBy.keeps (P := fun next => next.Listed ∧ next.Valid ∧ handle ∈ next.starts ∧
      next.timers.isActive handle = false ∧ (next.life handle).fires = (c.life handle).fires ∧
      (next.life handle).late = (c.life handle).late) ?_ hr ⟨hl, hv, hh, ha, rfl, rfl⟩
    intro next a after _ ⟨hl, hv, hh, ha, hfires, hlate⟩ hm
    obtain ⟨hh', ha', hfires', hlate'⟩ := move_inactive hl hv hh ha hm
    exact ⟨hl.move hm, move_valid hv hm, hh', ha', hfires'.trans hfires, hlate'.trans hlate⟩
  exact h.2.2.2.2

/-! ## Stops -/

theorem stop_inactive (ha : c.timers.isActive handle = false) :
    c.stop handle = c.note [.stopped handle] := by
  have hkept : c.timers.active.filter (·.handle ≠ handle) = c.timers.active := by
    refine List.filter_eq_self.mpr fun timer hm => ?_
    simpa using List.any_eq_false.mp ha timer hm
  unfold stop Timers.stop
  rw [hkept]

theorem stop_find {t : Timers} {other : Nat} (ho : other ≠ handle) :
    (t.stop handle).find? other = t.find? other := by
  unfold find? Timers.stop
  rw [List.find?_filter]
  refine congrArg (List.find? · t.active) (funext fun timer => ?_)
  by_cases he : timer.handle = other
  · simp [he, ho]
  · simp [he]

theorem Listed.stop_activeCount (hl : c.Listed) (ha : c.timers.isActive handle = true) :
    (c.stop handle).timers.activeCount + 1 = c.timers.activeCount := by
  have hone : c.timers.active.countP (·.handle = handle) = 1 := by
    have hcount := List.count_eq_one_of_mem (hl.active.nodup hl.nodup) (mem_handles.mpr ha)
    rw [List.count_eq_countP, List.countP_map] at hcount
    exact hcount
  have hlength := List.length_eq_countP_add_countP (fun t : Timer => t.handle = handle)
    (l := c.timers.active)
  rw [hone, List.countP_eq_length_filter, Nat.add_comm] at hlength
  simpa [activeCount, stop, note, Timers.stop] using hlength.symm

/-! ## The law -/

/-- What it means for the timers of a course that some are active. -/
structure ActiveLaw (c : Course) : Prop where
  /-- A timer is active if it was started, was not ended and repeats or has not fired. -/
  active : ∀ handle, c.timers.isActive handle = (c.life handle).mayFire
  count : c.starts.Nodup ∧
    c.timers.activeCount = (c.starts.filter fun handle => (c.life handle).mayFire).length
  /-- If nobody does anything, an active timer fires. -/
  fires : ∀ handle, c.timers.isActive handle = true → ∃ c', Passes c c' ∧
    (c.life handle).fires.length < (c'.life handle).fires.length
  /-- Whatever is done, a timer that was started and is not active never fires. -/
  silent : ∀ handle ∈ c.starts, c.timers.isActive handle = false →
    ∀ moves c', c.run moves = some c' →
      (c'.life handle).fires = (c.life handle).fires ∧ (c'.life handle).late = (c.life handle).late
  /-- A callback runs in the course that its turn leads to. -/
  callback : ∀ handle c', c.turn? = some (c', some handle) → ∃ p,
    c.timers.isActive handle = true ∧ (c'.life handle).start = some p ∧
    (c'.life handle).fires = (c.life handle).fires ++ [c.now] ∧
    c'.timers.isActive handle = decide (p.interval ≠ 0)
  fresh : ∀ delay interval, (c.add delay interval).2 ∉ c.starts ∧
    (c.add delay interval).1.starts = c.starts ++ [(c.add delay interval).2]
  stopInactive : ∀ handle, c.timers.isActive handle = false →
    (c.stop handle).timers = c.timers ∧ (c.stop handle).schedule = c.schedule
  stopActive : ∀ handle, c.timers.isActive handle = true →
    (c.stop handle).timers.isActive handle = false ∧
    (c.stop handle).timers.activeCount + 1 = c.timers.activeCount ∧
    (c.stop handle).schedule = c.schedule ∧
    ∀ other, other ≠ handle → (c.stop handle).timers.find? other = c.timers.find? other ∧
      (c.stop handle).life other = c.life other
  drop : c.drop.timers.activeCount = 0 ∧ ∀ handle ∈ c.starts, ∀ moves c',
    c.drop.run moves = some c' → (c'.life handle).fires = (c.life handle).fires ∧
      (c'.life handle).late = (c.life handle).late

/-- At every moment of every course, also in the callback of a timer and after any calls that it
made, the active timers are those that can fire. -/
theorem active_law {moves : List Move} (h : start.run moves = some c) : ActiveLaw c := by
  have hv : c.Valid := run_valid start_valid h
  have hl : c.Listed := Listed.start.run h
  constructor
  case active => exact hv.isActive_eq
  case count => exact ⟨hl.nodup, activeCount_eq hv hl⟩
  case fires =>
    intro handle ha
    obtain ⟨timer, hm, ht⟩ := isActive_iff.mp ha
    obtain ⟨p, hp, -⟩ := (hv.kept handle).active timer hm ht
    exact fires_next c handle hv hp ha
  case silent => exact fun handle hh ha moves c' hr => run_inactive hl hv hh ha hr
  case callback => exact fun handle c' ht => turn_own hv (turn_of_turn? ht)
  case fresh => exact fun delay interval => ⟨hl.fresh, starts_note _ _⟩
  case stopInactive =>
    intro handle ha
    rw [stop_inactive ha]
    exact ⟨rfl, rfl⟩
  case stopActive =>
    intro handle ha
    refine ⟨?_, hl.stop_activeCount ha, rfl, fun other ho => ⟨stop_find ho, ?_⟩⟩
    · show (c.timers.stop handle).isActive handle = false
      simp [stop_isActive]
    · have hlife : (c.stop handle).life other =
          if handle = other then (c.life other).close c.now else c.life other := life_note _ _ _
      rw [hlife, if_neg ho.symm]
  case drop =>
    refine ⟨rfl, fun handle hh moves c' hr => ?_⟩
    have hmove : c.move? .drop = some c.drop := rfl
    have hgiven : handle ∈ c.drop.starts := by
      rw [show c.drop.starts = c.starts ++ _ from starts_note _ _]
      exact List.mem_append_left _ hh
    obtain ⟨hfires, hlate⟩ :=
      run_inactive (hl.move hmove) (move_valid hv hmove) hgiven rfl hr
    have hlife : c.drop.life handle = (c.life handle).close c.now := life_note _ _ _
    obtain ⟨hf, ht⟩ := close_fires (c.life handle) c.now
    rw [hlife] at hfires hlate
    exact ⟨hfires.trans hf, hlate.trans ht⟩

/-- Two timers are due at five. The callback of the first, in which it is inactive, stops the second
and starts a third. -/
def insideCallback : List Move :=
  [.add 5 0, .add 5 5, .turn, .turn, .wake 5, .turn, .stop 2, .add 0 0]

theorem active_inside_callback : ∃ c, start.run insideCallback = some c ∧
    c.timers.activeCount = 1 ∧ c.starts = [1, 2, 3] ∧ (c.stop 1).timers = c.timers ∧
    (c.add 0 0).2 ∉ c.starts ∧
    (∃ c', Passes c c' ∧ (c.life 3).fires.length < (c'.life 3).fires.length) ∧
    ∀ moves c', c.run moves = some c' → (c'.life 2).fires = [] := by
  have hrun : (start.run insideCallback).map (fun c => (c.timers.active, c.starts,
      (c.life 2).fires)) = some ([⟨3, 0⟩], [1, 2, 3], []) := by decide
  obtain ⟨c, hc, hview⟩ := Option.map_eq_some_iff.mp hrun
  simp only [Prod.mk.injEq] at hview
  obtain ⟨hactive, hstarts, hfires⟩ := hview
  have hlaw : ActiveLaw c := active_law hc
  have hi : ∀ handle, c.timers.isActive handle = decide (3 = handle) := by
    intro handle
    simp [isActive, hactive]
  refine ⟨c, hc, by simp [activeCount, hactive], hstarts, (hlaw.stopInactive 1 (hi 1)).1,
    (hlaw.fresh 0 0).1, hlaw.fires 3 (hi 3), fun moves c' hr => ?_⟩
  exact (hlaw.silent 2 (by simp [hstarts]) (hi 2) moves c' hr).1.trans hfires

end Course

end ScriptHost.Timers
