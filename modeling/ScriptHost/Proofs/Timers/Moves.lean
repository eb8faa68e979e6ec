import ScriptHost.Proofs.Timers.Invariant

/-!
# What the moves of timers keep

Starts, stops, drops, turns and the passing of time all keep every job in its
place. A turn is about one timer and leaves the jobs of the others alone; time
passes only when every job sleeps, and never past a deadline.
-/

set_option autoImplicit false

namespace ScriptHost.Timers.Course

variable {c c' : Course} {handle : Nat} {timer : Timer} {p : Start} {rest : List TimerJob}

/-! ## Starts -/

theorem add_life (c : Course) (delay interval handle : Nat) :
    (c.add delay interval).1.life handle =
      if c.timers.issued + 1 = handle then
        { c.life handle with start := some ⟨c.now, delay, interval⟩ }
      else c.life handle :=
  life_note _ _ _

theorem add_jobs (c : Course) (delay interval : Nat) :
    (c.add delay interval).1.jobs.Perm ((c.timers.issued + 1) :: c.jobs) := by
  have hjobs : (c.add delay interval).1.jobs = c.schedule.ready.map TimerJob.handle ++
      (c.timers.issued + 1) :: c.schedule.asleep.map (·.2.handle) := by
    change (c.schedule.ready ++ [TimerJob.begin (c.timers.issued + 1) delay]).map
      TimerJob.handle ++ c.schedule.asleep.map (·.2.handle) = _
    simp [TimerJob.handle]
  rw [hjobs]
  exact List.perm_middle

theorem added_kept (hv : c.Valid) (delay interval : Nat) :
    (c.add delay interval).1.Kept (c.timers.issued + 1) := by
  have hborn : c.life (c.timers.issued + 1) = .unborn :=
    (hv.kept _).unborn (Nat.lt_succ_self _)
  have hlife : (c.add delay interval).1.life (c.timers.issued + 1) =
      { Life.unborn with start := some ⟨c.now, delay, interval⟩ } := by
    rw [add_life, if_pos rfl, hborn]
  have hactive : (⟨c.timers.issued + 1, interval⟩ : Timer) ∈
      (c.add delay interval).1.timers.active := List.mem_append_right _ (List.mem_singleton.mpr rfl)
  constructor
  case unborn => exact fun hlt => absurd hlt (Nat.lt_irrefl _)
  case active =>
    intro timer hm ht
    rcases List.mem_append.mp hm with hm | hm
    · have := hv.given timer hm
      omega
    · obtain rfl := List.mem_singleton.mp hm
      rw [hlife]
      refine ⟨_, rfl, rfl, rfl, fun hs => ?_, .turn rfl rfl rfl ?_⟩
      · have hlen := hs.2
        simp [Life.unborn] at hlen
      · exact List.mem_append_right _ (List.mem_singleton.mpr rfl)
  case onTime =>
    intro p hp
    rw [hlife] at hp ⊢
    constructor <;> simp [Life.unborn]
  case inactive =>
    intro p hp he
    exact .inr ⟨_, hactive, rfl⟩

theorem add_valid (hv : c.Valid) (delay interval : Nat) : (c.add delay interval).1.Valid where
  unique := by
    refine (add_jobs c delay interval).nodup_iff.mpr (List.nodup_cons.mpr ⟨fun hm => ?_, hv.unique⟩)
    have hle : c.timers.issued + 1 ≤ c.timers.issued := hv.issued _ hm
    omega
  issued := by
    intro handle hm
    change handle ≤ c.timers.issued + 1
    rcases List.mem_cons.mp ((add_jobs c delay interval).mem_iff.mp hm) with rfl | hm
    · exact Nat.le_refl _
    · exact Nat.le_succ_of_le (hv.issued handle hm)
  given := by
    intro timer hm
    rcases List.mem_append.mp hm with hm | hm
    · exact Nat.le_succ_of_le (hv.given timer hm)
    · obtain rfl := List.mem_singleton.mp hm
      exact Nat.le_refl _
  later := hv.later
  kept := by
    intro handle
    by_cases hh : c.timers.issued + 1 = handle
    · exact hh ▸ added_kept hv delay interval
    · refine (hv.kept handle).same ?_ rfl (Nat.le_succ _) ?_ ?_ ?_
      · rw [add_life, if_neg hh]
      · intro timer ht
        refine ⟨fun hm => ?_, List.mem_append_left _⟩
        rcases List.mem_append.mp hm with hm | hm
        · exact hm
        · obtain rfl := List.mem_singleton.mp hm
          exact absurd ht hh
      · exact fun job hj _ => List.mem_append_left _ hj
      · exact fun pair hp _ => hp

/-! ## Ends -/

theorem ended_kept (hv : c.Valid) (hl : c'.life handle = (c.life handle).close c.now)
    (hn : c'.now = c.now) (hi : c'.timers.issued = c.timers.issued)
    (ha : ∀ timer ∈ c'.timers.active, timer.handle ≠ handle) : c'.Kept handle where
  unborn := by
    intro hlt
    rw [hl, (hv.kept handle).unborn (hi ▸ hlt), close_unborn]
  active := fun timer hm ht => absurd ht (ha timer hm)
  onTime := by
    intro p hp
    rw [hl, close_start] at hp
    rw [hl, hn]
    refine ((hv.kept handle).onTime p hp).close hp fun he => ?_
    exact (hv.next hp he).imp id fun hw => hw.now_le hv
  inactive := by
    intro p hp he
    rw [hl, close_start] at hp
    rw [hl] at he
    unfold Life.close at he
    split at he
    · cases he
    · next ho => simp [hp, he] at ho

theorem stop_valid (hv : c.Valid) (handle : Nat) : (c.stop handle).Valid where
  unique := hv.unique
  issued := hv.issued
  given := fun timer hm => hv.given timer (mem_stop.mp hm).1
  later := hv.later
  kept := by
    intro other
    have hlife : (c.stop handle).life other =
        if handle = other then (c.life other).close c.now else c.life other := life_note _ _ _
    by_cases ho : handle = other
    · subst ho
      rw [if_pos rfl] at hlife
      exact ended_kept hv hlife rfl rfl fun timer hm => (mem_stop.mp hm).2
    · rw [if_neg ho] at hlife
      refine (hv.kept other).same hlife rfl (Nat.le_refl _) ?_ (fun _ hj _ => hj) fun _ hp _ => hp
      intro timer ht
      exact ⟨fun hm => (mem_stop.mp hm).1, fun hm => mem_stop.mpr ⟨hm, fun he => ho (he ▸ ht)⟩⟩

theorem drop_valid (hv : c.Valid) : c.drop.Valid where
  unique := hv.unique
  issued := hv.issued
  given := fun timer hm => by simp [drop, note, Timers.drop] at hm
  later := hv.later
  kept := by
    intro handle
    refine ended_kept hv (life_note _ _ _) rfl rfl fun timer hm => ?_
    simp [drop, note, Timers.drop] at hm

/-! ## The clock -/

theorem wake?_some {limit : Nat} (h : c.wake? limit = some c') :
    ∃ deadline, c.schedule.ready = [] ∧
      Schedule.earliest c.schedule.asleep = some deadline ∧ deadline ≤ limit ∧
      c' = { c with schedule := c.schedule.wakeAt deadline } := by
  unfold wake? at h
  split at h
  · next hr =>
    obtain ⟨schedule, hs, rfl⟩ := Option.map_eq_some_iff.mp h
    unfold Schedule.wake? Schedule.earliest? at hs
    split at hs
    · next deadline hd =>
      split at hs
      · next hle =>
        obtain rfl := Option.some.inj hs
        exact ⟨deadline, List.isEmpty_iff.mp hr, hd, hle, rfl⟩
      · cases hs
    · cases hs
  · cases h

/-- Time passes only when every job sleeps, and up to no later than the first deadline. -/
theorem passed_kept (hv : c.Valid) (hr : c.schedule.ready = []) (ht : c'.timers = c.timers)
    (hh : c'.history = c.history) (hn : c.now ≤ c'.now)
    (hj : ∀ deadline handle, (deadline, TimerJob.due handle) ∈ c.schedule.asleep →
      (deadline, .due handle) ∈ c'.schedule.asleep ∨
        c'.now = deadline ∧ .due handle ∈ c'.schedule.ready) : c'.Kept handle := by
  have hl : c'.life handle = c.life handle := by rw [life, life, hh]
  have hk : c.Kept handle := hv.kept handle
  constructor
  case unborn =>
    intro hlt
    rw [hl]
    exact hk.unborn (ht ▸ hlt)
  case active =>
    intro timer hm he
    rw [ht] at hm
    obtain ⟨p, hp, hpi, hended, hspent, hw⟩ := hk.active timer hm he
    rw [hl]
    refine ⟨p, hp, hpi, hended, hspent, ?_⟩
    cases hw with
    | turn hb hf hm hj => simp [hr] at hj
    | due hb hd hj => simp [hr] at hj
    | deadline hb hs =>
      rcases hj _ _ hs with hs | ⟨hd, hr⟩
      · exact .deadline hb hs
      · exact .due hb hd hr
  case onTime =>
    intro p hp
    rw [hl] at hp ⊢
    exact (hk.onTime p hp).later hn
  case inactive =>
    intro p hp he
    rw [hl] at hp he ⊢
    rw [ht]
    exact hk.inactive p hp he

theorem wakeAt_jobs (s : Schedule TimerJob) (deadline : Nat) :
    ((s.wakeAt deadline).ready ++ (s.wakeAt deadline).asleep.map (·.2)).Perm
      (s.ready ++ s.asleep.map (·.2)) := by
  have hsplit := List.filter_append_perm (fun pair : Nat × TimerJob => decide (pair.1 = deadline))
    s.asleep
  simp only [Schedule.wakeAt, List.append_assoc, ← List.map_append]
  refine List.Perm.append_left _ (List.Perm.map _ ?_)
  simpa using hsplit

theorem wake_valid {limit : Nat} (hv : c.Valid) (h : c.wake? limit = some c') : c'.Valid := by
  obtain ⟨deadline, hr, hd, -, rfl⟩ := wake?_some h
  have hjobs : ({ c with schedule := c.schedule.wakeAt deadline } : Course).jobs.Perm c.jobs := by
    have hp := (wakeAt_jobs c.schedule deadline).map TimerJob.handle
    simpa [jobs, List.map_append, Function.comp_def] using hp
  have hle : ∀ pair ∈ c.schedule.asleep, deadline ≤ pair.1 := Schedule.earliest_le hd
  constructor
  case unique => exact hjobs.nodup_iff.mpr hv.unique
  case issued => exact fun handle hm => hv.issued handle (hjobs.mem_iff.mp hm)
  case given => exact hv.given
  case later =>
    intro pair hm
    obtain ⟨hm, hne⟩ : pair ∈ c.schedule.asleep ∧ pair.1 ≠ deadline := by
      simpa [Schedule.wakeAt] using hm
    exact Nat.lt_of_le_of_ne (hle pair hm) (Ne.symm hne)
  case kept =>
    intro handle
    refine passed_kept hv hr rfl rfl ?_ fun moment other hm => ?_
    · obtain ⟨pair, hm, he⟩ := Schedule.earliest_mem hd
      exact he ▸ Nat.le_of_lt (hv.later pair hm)
    · by_cases he : moment = deadline
      · subst he
        exact .inr ⟨rfl, by simp [Schedule.wakeAt, hm]⟩
      · exact .inl (by simp [Schedule.wakeAt, hm, he])

theorem rest_valid {moment : Nat} (hv : c.Valid) (h : c.rest? moment = some c') : c'.Valid := by
  unfold rest? at h
  split at h
  · next hg =>
    obtain rfl := Option.some.inj h
    simp only [Bool.and_eq_true, List.isEmpty_iff, Option.isNone_iff_eq_none,
      decide_eq_true_eq] at hg
    obtain ⟨⟨hr, hw⟩, hle⟩ := hg
    have hlater : ∀ pair ∈ c.schedule.asleep, moment < pair.1 := by
      intro pair hm
      unfold Schedule.wake? Schedule.earliest? at hw
      cases he : Schedule.earliest c.schedule.asleep with
      | none =>
        rw [Schedule.earliest_eq_none.mp he] at hm
        cases hm
      | some deadline =>
        have hnot : ¬ deadline ≤ moment := by simpa [he] using hw
        exact Nat.lt_of_lt_of_le (Nat.lt_of_not_le hnot) (Schedule.earliest_le he pair hm)
    exact {
      unique := hv.unique
      issued := hv.issued
      given := hv.given
      later := hlater
      kept := fun _ => passed_kept hv hr rfl rfl hle fun _ _ hm => .inl hm }
  · cases h

/-! ## Turns -/

theorem jobs_cons {job : TimerJob} (hr : c.schedule.ready = job :: rest) :
    c.jobs = job.handle :: (rest.map TimerJob.handle ++ c.schedule.asleep.map (·.2.handle)) := by
  simp [jobs, hr]

theorem other_kept (hv : c.Valid) {job : TimerJob} (hr : c.schedule.ready = job :: rest)
    (ho : job.handle ≠ handle) (hl : c'.life handle = c.life handle) (hn : c'.now = c.now)
    (hi : c'.timers.issued = c.timers.issued)
    (ha : ∀ timer, timer.handle = handle →
      (timer ∈ c'.timers.active ↔ timer ∈ c.timers.active))
    (hready : c'.schedule.ready = rest)
    (hs : ∀ pair ∈ c.schedule.asleep, pair ∈ c'.schedule.asleep) : c'.Kept handle := by
  refine (hv.kept handle).same hl hn (Nat.le_of_eq hi.symm) ha ?_ fun pair hm _ => hs pair hm
  intro other hm ht
  rw [hr] at hm
  rw [hready]
  rcases List.mem_cons.mp hm with rfl | hm
  · exact absurd ht ho
  · exact hm

theorem idle_kept (hk : c.Kept handle) (hn : ∀ timer ∈ c.timers.active, timer.handle ≠ handle)
    (hl : c'.life handle = c.life handle) (hnow : c'.now = c.now) (ht : c'.timers = c.timers) :
    c'.Kept handle where
  unborn := fun hlt => hl ▸ hk.unborn (ht ▸ hlt)
  active := by
    intro timer hm he
    rw [ht] at hm
    exact absurd he (hn timer hm)
  onTime := by
    intro p hp
    rw [hl] at hp ⊢
    exact hnow ▸ hk.onTime p hp
  inactive := by
    intro p hp he
    rw [hl] at hp he ⊢
    rw [ht]
    exact hk.inactive p hp he

/-- The job at the front is the one that its timer waits for. -/
theorem Awaits.front {l : Life} {job : TimerJob} (hv : c.Valid)
    (hr : c.schedule.ready = job :: rest) (h : c.Awaits job.handle p l) :
    (job = .begin job.handle p.delay ∧ l.begun = none ∧ l.fires = [] ∧ p.moment = c.now) ∨
      (job = .due job.handle ∧ l.begun = some p.moment ∧ c.now = p.due l.fires.length) := by
  obtain ⟨hfresh, -⟩ := List.nodup_cons.mp (jobs_cons hr ▸ hv.unique)
  have hready : ∀ other ∈ rest, other.handle ≠ job.handle := fun other hm he =>
    hfresh (List.mem_append_left _ (List.mem_map.mpr ⟨other, hm, he⟩))
  have hasleep : ∀ pair ∈ c.schedule.asleep, pair.2.handle ≠ job.handle := fun pair hm he =>
    hfresh (List.mem_append_right _ (List.mem_map.mpr ⟨pair, hm, he⟩))
  cases h with
  | turn hb hf hm hj =>
    rcases List.mem_cons.mp (hr ▸ hj) with he | hm'
    · exact .inl ⟨he.symm, hb, hf, hm⟩
    · exact (hready _ hm' rfl).elim
  | deadline hb hj => exact (hasleep _ hj rfl).elim
  | due hb hd hj =>
    rcases List.mem_cons.mp (hr ▸ hj) with he | hm'
    · exact .inr ⟨he.symm, hb, hd⟩
    · exact (hready _ hm' rfl).elim

theorem idle_valid (hv : c.Valid) {job : TimerJob} (hr : c.schedule.ready = job :: rest)
    (hn : ∀ timer ∈ c.timers.active, timer.handle ≠ job.handle) :
    Valid { c with schedule := c.without rest } := by
  have hjobs := jobs_cons hr
  constructor
  case unique => exact (List.nodup_cons.mp (hjobs ▸ hv.unique)).2
  case issued => exact fun handle hm => hv.issued handle (hjobs ▸ List.mem_cons_of_mem _ hm)
  case given => exact hv.given
  case later => exact hv.later
  case kept =>
    intro handle
    by_cases hh : job.handle = handle
    · subst hh
      exact idle_kept (hv.kept _) hn rfl rfl rfl
    · exact other_kept hv hr hh rfl rfl rfl (fun _ _ => Iff.rfl) rfl fun _ hm => hm

theorem slept_jobs {job : TimerJob} (hr : c.schedule.ready = job :: rest) (ms : Nat)
    (timers : Timers) (history : List (Nat × TimerEvent)) :
    (Course.mk timers ((c.without rest).sleep ms (.due job.handle)) history).jobs.Perm c.jobs := by
  have hjobs : (Course.mk timers ((c.without rest).sleep ms (.due job.handle)) history).jobs =
      (rest.map TimerJob.handle ++ c.schedule.asleep.map (·.2.handle)) ++ [job.handle] := by
    simp [jobs, Schedule.sleep, without, TimerJob.handle]
  rw [hjobs, jobs_cons hr]
  exact List.perm_append_singleton _ _

theorem sleep_later (hv : c.Valid) {ms : Nat} (hms : ms ≠ 0) (job : TimerJob) :
    ∀ pair ∈ ((c.without rest).sleep ms job).asleep, c.now < pair.1 := by
  intro pair hm
  rcases List.mem_append.mp hm with hm | hm
  · exact hv.later pair hm
  · obtain rfl := List.mem_singleton.mp hm
    exact Nat.lt_add_of_pos_right (Nat.pos_of_ne_zero hms)

theorem slept_kept (hv : c.Valid) {delay : Nat}
    (hr : c.schedule.ready = .begin timer.handle delay :: rest) (hm : timer ∈ c.timers.active)
    (hl : c'.life timer.handle = { c.life timer.handle with begun := some c.now })
    (ht : c'.timers = c.timers) (hn : c'.now = c.now)
    (hs : (c.now + delay, .due timer.handle) ∈ c'.schedule.asleep) : c'.Kept timer.handle := by
  have hk : c.Kept timer.handle := hv.kept timer.handle
  obtain ⟨p, hp, -, he, hspent, hw⟩ := hk.active timer hm rfl
  obtain ⟨hj, hb, hf, hmoment⟩ | ⟨hj, -⟩ := hw.front hv hr
  · obtain rfl : delay = p.delay := (TimerJob.begin.inj hj).2
    constructor
    case unborn =>
      intro hlt
      have := hv.given timer hm
      rw [ht] at hlt
      omega
    case active =>
      intro other ho he'
      rw [ht] at ho
      rw [hl]
      refine ⟨p, hp, (hk.awaits hp ho he').1, he, hspent, .deadline (hmoment ▸ rfl) ?_⟩
      rw [hf, List.length_nil, due_zero, hmoment]
      exact hs
    case onTime =>
      intro q hq
      rw [hl] at hq ⊢
      obtain rfl : p = q := Option.some.inj (hp.symm.trans hq)
      exact hn ▸ (hk.onTime p hp).begin hmoment
    case inactive => exact fun _ _ _ => .inr ⟨timer, ht ▸ hm, rfl⟩
  · cases hj

theorem slept_valid (hv : c.Valid) {delay : Nat}
    (hr : c.schedule.ready = .begin timer.handle delay :: rest) (hm : timer ∈ c.timers.active)
    (hd : delay ≠ 0) :
    Valid ({ c with schedule := (c.without rest).sleep delay (.due timer.handle) }.note
      [.begun timer.handle]) := by
  have hjobs := slept_jobs hr delay c.timers (c.history ++ [(c.now, .begun timer.handle)])
  have hlife : ∀ handle,
      ({ c with schedule := (c.without rest).sleep delay (.due timer.handle) }.note
        [.begun timer.handle]).life handle =
      if timer.handle = handle then { c.life handle with begun := some c.now }
      else c.life handle := fun handle => life_note _ _ _
  constructor
  case unique => exact hjobs.nodup_iff.mpr hv.unique
  case issued => exact fun handle hm => hv.issued handle (hjobs.mem_iff.mp hm)
  case given => exact hv.given
  case later => exact sleep_later hv hd _
  case kept =>
    intro handle
    by_cases hh : timer.handle = handle
    · subst hh
      refine slept_kept hv hr hm ((hlife _).trans (if_pos rfl)) rfl rfl ?_
      exact List.mem_append_right _ (List.mem_singleton.mpr rfl)
    · refine other_kept hv hr hh ?_ rfl rfl (fun _ _ => Iff.rfl) rfl fun _ => List.mem_append_left _
      rw [hlife, if_neg hh]

/-! ## Fires -/

/-- A timer that fires at the moment that its schedule names has been spent or sleeps until the
next one. -/
theorem fired_kept (hv : c.Valid) (hm : timer ∈ c.timers.active)
    (hp : (c.life timer.handle).start = some p)
    (hd : c.now = p.due (c.life timer.handle).fires.length)
    (hl : c'.life timer.handle = { c.life timer.handle with
      begun := some p.moment, fires := (c.life timer.handle).fires ++ [c.now] })
    (ht : c'.timers = c.timers.afterFire timer) (hn : c'.now = c.now)
    (hs : timer.interval ≠ 0 →
      (c.now + timer.interval, .due timer.handle) ∈ c'.schedule.asleep) :
    c'.Kept timer.handle := by
  have hk : c.Kept timer.handle := hv.kept timer.handle
  obtain ⟨hi, he, hspent, -⟩ := hk.awaits hp hm rfl
  constructor
  case unborn =>
    intro hlt
    have := hv.given timer hm
    rw [ht, afterFire_issued] at hlt
    omega
  case active =>
    intro other ho he'
    rw [ht] at ho
    obtain ⟨ho, hrepeats⟩ := mem_afterFire.mp ho
    have hne : timer.interval ≠ 0 := hrepeats he'
    rw [hl]
    refine ⟨p, hp, (hk.awaits hp ho he').1, he, fun hs => hne (hi ▸ hs.1), .deadline rfl ?_⟩
    rw [List.length_append, List.length_singleton, due_succ, ← hd, hi]
    exact hs hne
  case onTime =>
    intro q hq
    rw [hl] at hq ⊢
    obtain rfl : p = q := Option.some.inj (hp.symm.trans hq)
    exact hn ▸ (hk.onTime p hp).fire hspent he hd
  case inactive =>
    intro q hq _
    rw [hl] at hq ⊢
    obtain rfl : p = q := Option.some.inj (hp.symm.trans hq)
    by_cases hz : timer.interval = 0
    · refine .inl ⟨hi.trans hz, ?_⟩
      -- it fired once at most, so it had not fired before
      have hone : (c.life timer.handle).fires.length ≤ 1 := (hk.onTime p hp).once (hi.trans hz)
      have hne : (c.life timer.handle).fires.length ≠ 1 := fun h => hspent ⟨hi.trans hz, h⟩
      rw [List.length_append, List.length_singleton]
      omega
    · exact .inr ⟨timer, ht ▸ mem_afterFire.mpr ⟨hm, fun _ => hz⟩, rfl⟩

theorem again_now (c : Course) (timer : Timer) (rest : List TimerJob) :
    (c.again timer rest).now = c.now := by
  unfold again
  split <;> rfl

theorem again_asleep (c : Course) (rest : List TimerJob) (hi : timer.interval ≠ 0) :
    (c.now + timer.interval, .due timer.handle) ∈ (c.again timer rest).asleep := by
  rw [again, if_neg hi]
  exact List.mem_append_right _ (List.mem_singleton.mpr rfl)

theorem fired_life (c : Course) (timer : Timer) (rest : List TimerJob) (events : List TimerEvent)
    (handle : Nat) :
    ({ c with timers := c.timers.afterFire timer, schedule := c.again timer rest }.note
      events).life handle = (events.map (c.now, ·)).foldl (Life.note handle) (c.life handle) := by
  rw [life_note, now, again_now]
  rfl

theorem again_jobs (hv : c.Valid) {job : TimerJob} (hj : job.handle = timer.handle)
    (hr : c.schedule.ready = job :: rest) (timers : Timers) (history : List (Nat × TimerEvent)) :
    (Course.mk timers (c.again timer rest) history).jobs.Nodup ∧
      ∀ handle ∈ (Course.mk timers (c.again timer rest) history).jobs, handle ∈ c.jobs := by
  unfold again
  split
  · have hjobs := jobs_cons hr
    exact ⟨(List.nodup_cons.mp (hjobs ▸ hv.unique)).2,
      fun handle hm => hjobs ▸ List.mem_cons_of_mem _ hm⟩
  · have hjobs := slept_jobs hr timer.interval timers history
    rw [hj] at hjobs
    exact ⟨hjobs.nodup_iff.mpr hv.unique, fun handle hm => hjobs.mem_iff.mp hm⟩

theorem fired_valid (hv : c.Valid) {job : TimerJob} {events : List TimerEvent}
    (hj : job.handle = timer.handle) (hr : c.schedule.ready = job :: rest)
    (ho : ∀ handle, timer.handle ≠ handle → ∀ l,
      (events.map (c.now, ·)).foldl (Life.note handle) l = l)
    (hk : ({ c with timers := c.timers.afterFire timer, schedule := c.again timer rest }.note
      events).Kept timer.handle) :
    Valid ({ c with timers := c.timers.afterFire timer, schedule := c.again timer rest }.note
      events) := by
  have hnow : (c.again timer rest).now = c.now := again_now c timer rest
  have hready : (c.again timer rest).ready = rest := by
    unfold again
    split <;> rfl
  have hasleep : ∀ pair ∈ c.schedule.asleep, pair ∈ (c.again timer rest).asleep := by
    intro pair hm
    unfold again
    split
    · exact hm
    · exact List.mem_append_left _ hm
  have hissued : (c.timers.afterFire timer).issued = c.timers.issued := afterFire_issued _ _
  obtain ⟨hnodup, hjobs⟩ := again_jobs hv hj hr (c.timers.afterFire timer)
    (c.history ++ events.map ((c.again timer rest).now, ·))
  constructor
  case unique => exact hnodup
  case issued => exact fun handle hm => hissued ▸ hv.issued handle (hjobs handle hm)
  case given => exact fun other hm => hissued ▸ hv.given other (mem_afterFire.mp hm).1
  case later =>
    intro pair hm
    change (c.again timer rest).now < pair.1
    rw [hnow]
    change pair ∈ (c.again timer rest).asleep at hm
    unfold again at hm
    split at hm
    · exact hv.later pair hm
    · next hi => exact sleep_later hv hi _ pair hm
  case kept =>
    intro handle
    by_cases hh : timer.handle = handle
    · exact hh ▸ hk
    · refine other_kept hv hr (hj ▸ hh) ?_ hnow hissued ?_ hready hasleep
      · exact (fired_life c timer rest events handle).trans (ho handle hh _)
      · intro other he
        exact mem_afterFire.trans ⟨And.left, fun hm => ⟨hm, fun h => absurd (h ▸ he) hh⟩⟩

theorem turn_valid {fired : Option Nat} (hv : c.Valid) (h : Turn c c' fired) : c'.Valid := by
  cases h with
  | idle job rest hr hn => exact idle_valid hv hr hn
  | slept timer delay rest hr hm hd => exact slept_valid hv hr hm hd
  | firedAtOnce timer rest hr hm =>
    refine fired_valid hv rfl hr (fun handle hh l => ?_) ?_
    · simp [Life.note, hh]
    · obtain ⟨p, hp, -, he, -, hw⟩ := (hv.kept timer.handle).active timer hm rfl
      obtain ⟨hj, -, hf, hmoment⟩ | ⟨hj, -⟩ := hw.front hv hr
      · have hdelay : p.delay = 0 := (TimerJob.begin.inj hj).2.symm
        refine fired_kept hv hm hp ?_ ?_ rfl (again_now c timer rest) (again_asleep c rest)
        · rw [hf, List.length_nil, due_zero, hdelay, hmoment, Nat.add_zero]
        · rw [fired_life]
          simp [Life.note, Life.fire, he, hmoment]
      · cases hj
  | fired timer rest hr hm =>
    refine fired_valid hv rfl hr (fun handle hh l => ?_) ?_
    · simp [Life.note, hh]
    · obtain ⟨p, hp, -, he, -, hw⟩ := (hv.kept timer.handle).active timer hm rfl
      obtain ⟨hj, -⟩ | ⟨-, hb, hd⟩ := hw.front hv hr
      · cases hj
      · refine fired_kept hv hm hp hd ?_ rfl (again_now c timer rest) (again_asleep c rest)
        rw [fired_life]
        simp [Life.note, Life.fire, he, ← hb]

end ScriptHost.Timers.Course
