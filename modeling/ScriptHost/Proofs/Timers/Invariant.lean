import ScriptHost.Proofs.Timers.Turn

/-!
# What holds of a set of timers

Every active timer has one job, which waits for its first turn, for its deadline
or for its turn at the deadline, and the deadline is the one that the number of
its fires so far tells.
-/

set_option autoImplicit false

namespace ScriptHost.Timers

def Start.dueFrom (p : Start) (begun count : Nat) : Nat := begun + p.delay + count * p.interval

/-- The moment of a fire if the first turn is at the moment of the start. -/
def Start.due (p : Start) (count : Nat) : Nat := p.dueFrom p.moment count

/-- A timer that fires once has fired. -/
def Life.isSpent (l : Life) (p : Start) : Prop := p.interval = 0 ∧ l.fires.length = 1

/-- What the life of a timer is like at any moment. -/
structure OnTime (now : Nat) (p : Start) (l : Life) : Prop where
  begun : ∀ moment, l.begun = some moment → moment = p.moment
  unbegun : l.begun = none → l.fires = []
  fires : l.fires = (List.range l.fires.length).map p.due
  past : ∀ moment ∈ l.fires, moment ≤ now
  once : p.interval = 0 → l.fires.length ≤ 1
  late : l.late = []
  ended : ∀ moment, l.ended = some moment →
    (∀ fire ∈ l.fires, fire ≤ moment) ∧ (l.isSpent p ∨ moment ≤ p.due l.fires.length)

section Lives

variable {p : Start} {l : Life} {now : Nat}

theorem close_start (l : Life) (moment : Nat) : (l.close moment).start = l.start := by
  unfold Life.close
  split <;> rfl

theorem close_unborn (moment : Nat) : Life.unborn.close moment = .unborn := rfl

theorem OnTime.later {later : Nat} (h : OnTime now p l) (hn : now ≤ later) :
    OnTime later p l :=
  { h with past := fun moment hm => Nat.le_trans (h.past moment hm) hn }

theorem OnTime.close (h : OnTime now p l) (hs : l.start = some p)
    (hn : l.ended = none → l.isSpent p ∨ now ≤ p.due l.fires.length) :
    OnTime now p (l.close now) := by
  unfold Life.close
  split
  · next ho =>
    have he : l.ended = none := by simpa [hs] using ho
    refine { h with ended := ?_ }
    intro moment hm
    obtain rfl := Option.some.inj hm
    exact ⟨h.past, hn he⟩
  · exact h

theorem OnTime.begin (h : OnTime now p l) (hm : p.moment = now) :
    OnTime now p { l with begun := some now } where
  begun := fun _ hb => (Option.some.inj hb).symm.trans hm.symm
  unbegun := fun hb => by simp at hb
  fires := h.fires
  past := h.past
  once := h.once
  late := h.late
  ended := h.ended

theorem OnTime.fire (h : OnTime now p l) (hn : ¬ l.isSpent p)
    (he : l.ended = none) (hd : now = p.due l.fires.length) :
    OnTime now p { l with begun := some p.moment, fires := l.fires ++ [now] } where
  begun := fun moment hm => (Option.some.inj hm).symm
  unbegun := fun hb => by simp at hb
  fires := by
    rw [List.length_append, List.length_singleton, List.range_succ, List.map_append, ← h.fires, hd]
    rfl
  past := by
    intro moment hm
    rcases List.mem_append.mp hm with hm | hm
    · exact h.past moment hm
    · exact Nat.le_of_eq (List.mem_singleton.mp hm)
  once := by
    intro hi
    have hone : l.fires.length ≤ 1 := h.once hi
    have hne : l.fires.length ≠ 1 := fun hl => hn ⟨hi, hl⟩
    rw [List.length_append, List.length_singleton]
    omega
  late := h.late
  ended := fun moment hm => by simp [he] at hm

end Lives

namespace Course

/-- Where the job of an active timer stands. -/
inductive Awaits (c : Course) (handle : Nat) (p : Start) (l : Life) : Prop
  | turn (hb : l.begun = none) (hf : l.fires = []) (hm : p.moment = c.now)
      (hj : .begin handle p.delay ∈ c.schedule.ready)
  | deadline (hb : l.begun = some p.moment)
      (hj : (p.due l.fires.length, .due handle) ∈ c.schedule.asleep)
  | due (hb : l.begun = some p.moment) (hd : c.now = p.due l.fires.length)
      (hj : .due handle ∈ c.schedule.ready)

/-- What holds of one timer. -/
structure Kept (c : Course) (handle : Nat) : Prop where
  unborn : c.timers.issued < handle → c.life handle = .unborn
  active : ∀ timer ∈ c.timers.active, timer.handle = handle →
    ∃ p, (c.life handle).start = some p ∧ p.interval = timer.interval ∧
      (c.life handle).ended = none ∧ ¬ (c.life handle).isSpent p ∧
      c.Awaits handle p (c.life handle)
  onTime : ∀ p, (c.life handle).start = some p → OnTime c.now p (c.life handle)
  inactive : ∀ p, (c.life handle).start = some p → (c.life handle).ended = none →
    (c.life handle).isSpent p ∨ ∃ timer ∈ c.timers.active, timer.handle = handle

def jobs (c : Course) : List Nat :=
  c.schedule.ready.map TimerJob.handle ++ c.schedule.asleep.map (·.2.handle)

structure Valid (c : Course) : Prop where
  unique : c.jobs.Nodup
  issued : ∀ handle ∈ c.jobs, handle ≤ c.timers.issued
  given : ∀ timer ∈ c.timers.active, timer.handle ≤ c.timers.issued
  later : ∀ pair ∈ c.schedule.asleep, c.now < pair.1
  kept : ∀ handle, c.Kept handle

variable {c c' : Course} {handle : Nat} {timer : Timer} {p : Start} {rest : List TimerJob}

theorem life_note (c : Course) (events : List TimerEvent) (handle : Nat) :
    (c.note events).life handle =
      (events.map (c.now, ·)).foldl (Life.note handle) (c.life handle) := by
  simp [life, note, List.foldl_append]

/-! ## What a move leaves alone -/

theorem Awaits.same {l : Life} (h : c.Awaits handle p l) (hn : c'.now = c.now)
    (hr : ∀ job ∈ c.schedule.ready, job.handle = handle → job ∈ c'.schedule.ready)
    (hs : ∀ pair ∈ c.schedule.asleep, pair.2.handle = handle → pair ∈ c'.schedule.asleep) :
    c'.Awaits handle p l := by
  cases h with
  | turn hb hf hm hj => exact .turn hb hf (hm.trans hn.symm) (hr _ hj rfl)
  | deadline hb hj => exact .deadline hb (hs _ hj rfl)
  | due hb hd hj => exact .due hb (hn.trans hd) (hr _ hj rfl)

theorem Kept.same (h : c.Kept handle) (hl : c'.life handle = c.life handle) (hn : c'.now = c.now)
    (hi : c.timers.issued ≤ c'.timers.issued)
    (ha : ∀ timer, timer.handle = handle →
      (timer ∈ c'.timers.active ↔ timer ∈ c.timers.active))
    (hr : ∀ job ∈ c.schedule.ready, job.handle = handle → job ∈ c'.schedule.ready)
    (hs : ∀ pair ∈ c.schedule.asleep, pair.2.handle = handle → pair ∈ c'.schedule.asleep) :
    c'.Kept handle where
  unborn := fun hlt => hl ▸ h.unborn (Nat.lt_of_le_of_lt hi hlt)
  active := by
    intro timer hm ht
    obtain ⟨p, hp, hpi, he, hspent, hw⟩ := h.active timer ((ha timer ht).mp hm) ht
    rw [hl]
    exact ⟨p, hp, hpi, he, hspent, hw.same hn hr hs⟩
  onTime := by
    intro p hp
    rw [hl] at hp ⊢
    exact hn ▸ h.onTime p hp
  inactive := by
    intro p hp he
    rw [hl] at hp he ⊢
    exact (h.inactive p hp he).imp id fun ⟨timer, hm, ht⟩ => ⟨timer, (ha timer ht).mpr hm, ht⟩

/-! ## The next fire -/

theorem due_zero (p : Start) : p.due 0 = p.moment + p.delay := by
  simp [Start.due, Start.dueFrom]

theorem due_succ (p : Start) (count : Nat) : p.due (count + 1) = p.due count + p.interval := by
  simp [Start.due, Start.dueFrom, Nat.add_mul, Nat.add_assoc]

theorem Awaits.now_le {l : Life} (hv : c.Valid) (h : c.Awaits handle p l) :
    c.now ≤ p.due l.fires.length := by
  cases h with
  | turn hb hf hm hj =>
    rw [hf, List.length_nil, due_zero, hm]
    exact Nat.le_add_right _ _
  | deadline hb hj => exact Nat.le_of_lt (hv.later _ hj)
  | due hb hd hj => exact Nat.le_of_eq hd

/-- When no job can run, the job of an active timer sleeps. -/
theorem Awaits.now_lt {l : Life} (hv : c.Valid) (h : c.Awaits handle p l)
    (hr : c.schedule.ready = []) :
    l.begun = some p.moment ∧ c.now < p.due l.fires.length := by
  cases h with
  | turn hb hf hm hj => simp [hr] at hj
  | deadline hb hj => exact ⟨hb, hv.later _ hj⟩
  | due hb hd hj => simp [hr] at hj

theorem Kept.awaits (h : c.Kept handle) (hp : (c.life handle).start = some p)
    (hm : timer ∈ c.timers.active) (ht : timer.handle = handle) :
    p.interval = timer.interval ∧ (c.life handle).ended = none ∧ ¬ (c.life handle).isSpent p ∧
      c.Awaits handle p (c.life handle) := by
  obtain ⟨q, hq, hi, he, hs, hw⟩ := h.active timer hm ht
  obtain rfl : q = p := Option.some.inj (hq.symm.trans hp)
  exact ⟨hi, he, hs, hw⟩

theorem Valid.next (hv : c.Valid) (hp : (c.life handle).start = some p)
    (he : (c.life handle).ended = none) :
    (c.life handle).isSpent p ∨ c.Awaits handle p (c.life handle) := by
  rcases (hv.kept handle).inactive p hp he with hs | ⟨timer, hm, ht⟩
  · exact .inl hs
  · exact .inr ((hv.kept handle).awaits hp hm ht).2.2.2

end Course

end ScriptHost.Timers
