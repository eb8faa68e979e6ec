import ScriptHost.Proofs.Timers.Moves
import ScriptHost.Timers.Scenario
import ScriptHost.Proofs.Steps

/-!
# Timers on schedule

A timer fires exactly at the moments of its schedule, as far as the clock went and
up to its end, whatever the other timers do. This holds at every moment of every
course of a set of timers, and so of every scenario.
-/

set_option autoImplicit false

namespace ScriptHost.Timers

namespace Course

variable {c c' : Course} {handle : Nat} {p : Start}

theorem start_valid : start.Valid where
  unique := List.nodup_nil
  issued := fun _ hm => by cases hm
  given := fun _ hm => by cases hm
  later := fun _ hm => by cases hm
  kept := fun handle => {
    unborn := fun _ => rfl
    active := fun _ hm => by cases hm
    onTime := fun _ hp => by cases hp
    inactive := fun _ hp => by cases hp }

theorem move_valid {a : Move} (hv : c.Valid) (h : c.move? a = some c') : c'.Valid := by
  cases a with
  | add delay interval =>
    obtain rfl := Option.some.inj h
    exact add_valid hv delay interval
  | stop handle =>
    obtain rfl := Option.some.inj h
    exact stop_valid hv handle
  | drop =>
    obtain rfl := Option.some.inj h
    exact drop_valid hv
  | turn =>
    obtain ⟨⟨after, fired⟩, ht, rfl⟩ := Option.map_eq_some_iff.mp h
    exact turn_valid hv (turn_of_turn? ht)
  | wake limit => exact wake_valid hv h
  | rest moment => exact rest_valid hv h

theorem runsBy : RunsBy move? run :=
  ⟨fun _ => rfl, fun _ _ _ => rfl⟩

theorem run_valid {moves : List Move} (hv : c.Valid) (h : c.run moves = some c') : c'.Valid :=
  runsBy.keeps (fun _ _ _ _ => move_valid) h hv

/-- A timer has no fire before its job has its first turn, which is at the moment of its start.
After that it fires at the moments of its schedule and at no others, once if it does not repeat.
While it lasts every moment of the schedule before now has its fire, and once no job can run so has
now; a timer that ended has all its fires before the end, and none of the moments before the end is
without its fire. -/
theorem fires_on_schedule {moves : List Move} (h : start.run moves = some c)
    (hs : (c.life handle).start = some p) :
    let l := c.life handle
    (l.begun = none → l.fires = []) ∧
    (∀ begun, l.begun = some begun → begun = p.moment ∧
      l.fires = (List.range l.fires.length).map (p.dueFrom begun)) ∧
    (∀ fire ∈ l.fires, fire ≤ c.now) ∧ (p.interval = 0 → l.fires.length ≤ 1) ∧
    (l.ended = none → l.isSpent p ∨ c.now ≤ p.due l.fires.length ∧
      (c.schedule.ready = [] → l.begun = some p.moment ∧ c.now < p.due l.fires.length)) ∧
    (∀ moment, l.ended = some moment → (∀ fire ∈ l.fires, fire ≤ moment) ∧
      (l.isSpent p ∨ moment ≤ p.due l.fires.length)) ∧
    l.late = [] := by
  intro l
  have hv : c.Valid := run_valid start_valid h
  have ht : OnTime c.now p l := (hv.kept handle).onTime p hs
  refine ⟨ht.unbegun, fun begun hb => ?_, ht.past, ht.once, fun he => ?_, ht.ended, ht.late⟩
  · obtain rfl := ht.begun begun hb
    exact ⟨rfl, ht.fires⟩
  · rcases hv.next hs he with hspent | hw
    · exact .inl hspent
    · exact .inr ⟨hw.now_le hv, hw.now_lt hv⟩

/-- Two timers are due at five. The callback of the first stops the second, and a third one, which
repeats, goes on. -/
theorem fires_beside_stopped :
    ∃ c : Course, start.run [.add 5 0, .add 5 5, .add 0 2, .turn, .turn, .turn, .wake 5, .turn,
        .wake 5, .turn, .wake 5, .turn, .stop 2, .turn, .rest 5] = some c ∧
      (c.life 2).start = some ⟨0, 5, 5⟩ ∧ (c.life 2).ended = some 5 ∧ (c.life 2).fires = [] ∧
      (c.life 2).late = [] ∧ (c.life 1).fires = [5] ∧
      (c.life 3).start = some ⟨0, 0, 2⟩ ∧
      (c.life 3).fires = (List.range 3).map (Start.dueFrom ⟨0, 0, 2⟩ 0) ∧ c.now < 6 := by
  have hrun : (start.run [.add 5 0, .add 5 5, .add 0 2, .turn, .turn, .turn, .wake 5, .turn,
      .wake 5, .turn, .wake 5, .turn, .stop 2, .turn, .rest 5]).map
      (fun c => (c.life 1, c.life 2, c.life 3, c.schedule.ready)) = some
        (⟨some ⟨0, 5, 0⟩, some 0, [5], none, []⟩, ⟨some ⟨0, 5, 5⟩, some 0, [], some 5, []⟩,
          ⟨some ⟨0, 0, 2⟩, some 0, [0, 2, 4], none, []⟩, []) := by decide
  obtain ⟨c, hc, hlives⟩ := Option.map_eq_some_iff.mp hrun
  simp only [Prod.mk.injEq] at hlives
  obtain ⟨hone, htwo, hthree, hready⟩ := hlives
  have hstopped : (c.life 2).start = some ⟨0, 5, 5⟩ := by rw [htwo]
  have hrepeats : (c.life 3).start = some ⟨0, 0, 2⟩ := by rw [hthree]
  obtain ⟨-, -, -, -, -, -, hlate⟩ := fires_on_schedule hc hstopped
  obtain ⟨-, hbegun, -, -, hlasts, -, -⟩ := fires_on_schedule hc hrepeats
  have hfires := (hbegun 0 (by rw [hthree])).2
  have hnext := hlasts (by rw [hthree])
  rw [hthree] at hfires hnext
  have hnow : c.now < 6 := by
    rcases hnext with hspent | ⟨-, hnext⟩
    · exact absurd hspent.1 (by decide)
    · exact (hnext hready).2
  exact ⟨c, hc, hstopped, by rw [htwo], by rw [htwo], hlate, by rw [hone], hrepeats,
    by rw [hthree]; exact hfires, hnow⟩

/-! ## Scenarios -/

def Reached (c : Course) : Prop := ∃ moves, start.run moves = some c

theorem Reached.move {a : Move} (h : c.Reached) (hm : c.move? a = some c') : c'.Reached := by
  obtain ⟨moves, hr⟩ := h
  exact ⟨moves ++ [a], by rw [runsBy.snoc, hr, Option.bind_some, hm]⟩

end Course

namespace Scenario

open Course

variable {s s' : Scenario}

theorem perform_reached (h : s.course.Reached) (own : Nat) (a : Action) :
    (s.perform own a).1.course.Reached := by
  cases a with
  | start delay interval callback =>
    cases hd : s.isDropped with
    | true => simpa [perform, hd] using h
    | false =>
      have hadd : (s.course.add delay interval).1.Reached := h.move (a := .add delay interval) rfl
      simpa [perform, hd] using hadd
  | stop handle => exact h.move (a := .stop (handle.getD own)) rfl
  | drop => exact h.move (a := .drop) rfl

theorem fired_reached (h : s.course.Reached) (handle : Nat) : (s.fired handle).course.Reached :=
  List.foldlRecOn (motive := fun s : Scenario => s.course.Reached) _ _ h
    fun _ h a _ => perform_reached h handle a

theorem turn_reached (h : s.course.Reached) (ht : s.turn? = some s') : s'.course.Reached := by
  unfold turn? at ht
  cases hc : s.course.turn? with
  | none => simp [hc] at ht
  | some turned =>
    obtain ⟨course, fired⟩ := turned
    have hcourse : course.Reached := h.move (a := .turn) (by simp [move?, hc])
    rw [hc] at ht
    cases fired with
    | none =>
      obtain rfl := Option.some.inj ht
      exact hcourse
    | some handle =>
      obtain rfl := Option.some.inj ht
      exact fired_reached (s := { s with course }) hcourse handle

theorem advance_reached (fuel limit : Nat) :
    ∀ s : Scenario, s.course.Reached → (advance fuel limit s).course.Reached := by
  induction fuel with
  | zero => exact fun _ h => h
  | succ fuel ih =>
    intro s h
    unfold advance
    split
    · next ht => exact ih _ (turn_reached h ht)
    · split
      · next hw => exact ih _ (h.move (a := .wake limit) hw)
      · cases hr : s.course.rest? limit with
        | none => exact h
        | some course => exact h.move (a := .rest limit) hr

theorem step_reached (h : s.course.Reached) (a : Step) : (s.step a).1.course.Reached := by
  cases a with
  | act action => exact perform_reached h 0 action
  | wait ms => exact advance_reached _ _ s h

/-- The timers of every scenario, with the log taken away after each step as in its run, are those
of a course. -/
theorem steps_reached (steps : List Step) :
    (steps.foldl (fun s a => { (s.step a).1 with log := [] }) start).course.Reached :=
  List.foldlRecOn (motive := fun s : Scenario => s.course.Reached) steps _ ⟨[], rfl⟩ fun _ h a _ => step_reached h a

end Scenario

end ScriptHost.Timers
