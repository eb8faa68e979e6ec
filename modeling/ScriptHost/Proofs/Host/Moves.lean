import ScriptHost.Proofs.Host.Callbacks

/-!
# The moves of a host

What each move of a host does to the callbacks of its calls. A call tells its
caller something at once or queues one job, a job that has its turn calls its
callback, and a read that is suspended keeps its own until it ends.
-/

set_option autoImplicit false

namespace ScriptHost

theorem Timers.run_schedule {Job : Type} (t : Timers) (s : Schedule Job) (embed : TimerJob → Job)
    (job : TimerJob) : (t.run s embed job).2.2.ready = s.ready ∧
      ∀ pair ∈ (t.run s embed job).2.2.asleep, pair ∈ s.asleep ∨ ∃ own, pair.2 = embed own := by
  have hsleep : ∀ (ms : Nat) (own : TimerJob), ∀ pair ∈ (s.sleep ms (embed own)).asleep,
      pair ∈ s.asleep ∨ ∃ own, pair.2 = embed own := by
    intro ms own pair hm
    rcases List.mem_append.mp hm with hm | hm
    · exact .inl hm
    · exact .inr ⟨own, by rw [List.mem_singleton.mp hm]⟩
  have hfire : ∀ timer : Timer, (t.fire s embed timer).2.ready = s.ready ∧
      ∀ pair ∈ (t.fire s embed timer).2.asleep, pair ∈ s.asleep ∨ ∃ own, pair.2 = embed own := by
    intro timer
    unfold fire
    split
    · exact ⟨rfl, fun pair hm => .inl hm⟩
    · exact ⟨rfl, hsleep _ _⟩
  unfold run
  split
  · split
    · exact ⟨rfl, fun pair hm => .inl hm⟩
    · split
      · exact hfire _
      · exact ⟨rfl, hsleep _ _⟩
  · split
    · exact ⟨rfl, fun pair hm => .inl hm⟩
    · exact hfire _

namespace NativeHost.Course

variable {c c' : Course} {fs : FileSystem}

theorem next?_some {Job : Type} {s rest : Schedule Job} {job : Job} (h : s.next? = some (job, rest)) :
    s.ready = job :: rest.ready ∧ rest.asleep = s.asleep := by
  unfold Schedule.next? at h
  split at h
  · cases h
  · next front tail hr =>
    obtain ⟨rfl, rfl⟩ := Prod.mk.inj (Option.some.inj h)
    exact ⟨hr, rfl⟩

/-! ## The moves of a host -/

theorem call_turned (c : Course) (system : SystemStart) (call : HostCall) :
    Turned c (c.call system call) := by
  have hh := ask_asked c.host system c.calls.length call
  unfold Course.call
  generalize c.host.ask system c.calls.length call = asked at hh
  obtain ⟨host, word⟩ := asked
  cases hh with
  | atOnce word hs hu hd hw =>
    refine .toldAtOnce c.now call word hw rfl ?_ rfl hs hu hd
    show c.told ++ [(host.schedule.now, c.calls.length, word)] = _
    rw [hs]
    rfl
  | later job hs hu hd hb hw =>
    exact .queued c.now call job hb hw rfl (List.append_nil _) rfl hs hu hd

theorem timers_turned {host : NativeHost Nat} (hd : host.directories = c.host.directories)
    {more : List (HostJob Nat)} (hr : host.schedule.ready = c.host.schedule.ready ++ more)
    (hm : ∀ job ∈ more, job.callback? = none)
    (ha : ∀ pair ∈ host.schedule.asleep,
      pair ∈ c.host.schedule.asleep ∨ pair.2.callback? = none) : Turned c { c with host } := by
  have hcallbacks : more.filterMap HostJob.callback? = [] := List.filterMap_eq_nil_iff.mpr hm
  have hreads : more.filterMap HostJob.read? = [] := by
    refine List.filterMap_eq_nil_iff.mpr fun job hj => ?_
    have hn := hm job hj
    cases job with
    | read n callback => cases hn
    | timer | «open» | exit => rfl
  refine .quiet rfl rfl rfl (by rw [hd]) (by rw [hd]) ?_ ha (fun callback => ?_) ?_
  · intro job hj
    rw [hr] at hj
    exact (List.mem_append.mp hj).imp id (hm job)
  · show (host.schedule.ready.filterMap HostJob.callback? ++ _).count callback = _
    rw [hr, List.filterMap_append, hcallbacks, List.append_nil]
    rfl
  · show host.schedule.ready.filterMap HostJob.read? = _
    rw [hr, List.filterMap_append, hreads, List.append_nil]

theorem pass_turned (hk : Kept c) (moment : Nat) : Turned c (c.pass moment) := by
  unfold pass
  split
  · next schedule hw =>
    unfold Schedule.wake? at hw
    split at hw
    · next deadline _ =>
      split at hw
      · obtain rfl := Option.some.inj hw
        refine timers_turned rfl rfl ?_ fun pair hp => .inl (List.mem_filter.mp hp).1
        intro job hj
        obtain ⟨pair, hp, rfl⟩ := List.mem_map.mp hj
        exact hk.asleep pair (List.mem_filter.mp hp).1
      · cases hw
    · cases hw
  · exact timers_turned rfl (List.append_nil _).symm (fun _ hj => by cases hj) fun _ hp => .inl hp

theorem wait_turned (h : c.wait? = some c') : Turned c c' := by
  have hlater : ∀ {job : HostJob Nat} {schedule : Schedule (HostJob Nat)},
      c.host.schedule.next? = some (job, schedule) → job.read? = none →
      Turned c { c with host := ({ c.host with schedule } : NativeHost Nat).queue job } := by
    intro job schedule hn hj
    obtain ⟨hr, hs⟩ := next?_some hn
    have hready : (({ c.host with schedule } : NativeHost Nat).queue job).schedule.ready =
        schedule.ready ++ [job] := rfl
    refine .quiet rfl rfl rfl rfl rfl ?_ ?_ (fun callback => ?_) ?_
    · intro other hm
      rw [hr]
      rcases List.mem_append.mp hm with hm | hm
      · exact .inl (List.mem_cons_of_mem _ hm)
      · exact .inl (List.mem_singleton.mp hm ▸ List.mem_cons_self)
    · exact fun pair hp => .inl (hs ▸ hp)
    · show ((schedule.ready ++ [job]).filterMap HostJob.callback? ++ _).count callback = _
      rw [owing, hr, List.count_append, List.count_append, callbacks_cons, List.filterMap_append,
        List.count_append, callbacks_cons]
      simp
    · show (schedule.ready ++ [job]).filterMap HostJob.read? = _
      rw [hr, reads_cons, List.filterMap_append, reads_cons, hj]
      simp
  unfold wait? at h
  split at h
  · next path callback schedule hn =>
    obtain rfl := Option.some.inj h
    exact hlater hn rfl
  · next exit callback schedule hn =>
    obtain rfl := Option.some.inj h
    exact hlater hn rfl
  · cases h

theorem begin_turned (h : c.begin? = some c') : Turned c c' := by
  unfold begin? at h
  split at h
  · next n callback schedule hn =>
    obtain ⟨directories, hb, rfl⟩ := Option.map_eq_some_iff.mp h
    obtain ⟨hr, hs⟩ := next?_some hn
    obtain ⟨hspawned, hunder⟩ := Directories.begin_some hb
    exact .begun n callback schedule.ready hr rfl rfl rfl rfl hs hspawned hunder
  · cases h

theorem pull_turned {n : Nat} (h : c.pull? n = some c') : Turned c c' := by
  unfold pull? at h
  split at h
  · next callback directories page hl hp =>
    obtain rfl := Option.some.inj h
    obtain ⟨hunder, hspawned, hheard⟩ := Directories.pull_went hp
    cases page with
    | none =>
      exact .quiet rfl (List.append_nil _) rfl hunder hspawned (fun _ hj => .inl hj)
        (fun _ hp => .inl hp) (fun _ => rfl) rfl
    | some page =>
      exact .paged n callback c.now page hl (fun he => hheard (congrArg some he)) rfl rfl rfl rfl
        hspawned hunder
  · cases h

theorem answered_turned {job : HostJob Nat} {schedule : Schedule (HostJob Nat)}
    {host : NativeHost Nat} {callback : Nat} {answer : HostAnswer} {call : HostCall}
    (hn : c.host.schedule.next? = some (job, schedule)) (hb : job.callback? = some callback)
    (hj : job.read? = none) (hw : c.asked? callback = some call)
    (hh : call.Hears (.answered answer)) (hs : host.schedule = schedule)
    (hd : host.directories.spawned = c.host.directories.spawned)
    (hu : host.directories.underWay = c.host.directories.underWay) :
    Turned c ({ c with host, reading := c.reading ++ [] }.happened
      (some (.answered callback answer))) := by
  obtain ⟨hr, hasleep⟩ := next?_some hn
  refine .ended job schedule.ready callback host.schedule.now answer call hr hb hw hh rfl rfl
    (List.append_nil _) (by rw [← hs]; rfl) ?_ ?_ ?_
  · show host.schedule.asleep = _
    rw [hs, hasleep]
  · rw [hj]
    exact hd.symm
  · rw [hj]
    exact hu.trans (List.filter_eq_self.mpr fun _ _ => rfl).symm

theorem turn?_some (h : c.turn? fs = some c') : ∃ job schedule,
    c.host.schedule.next? = some (job, schedule) ∧
    c' = ({ c with
      host := (({ c.host with schedule } : NativeHost Nat).run fs job).1
      reading := c.reading ++ leaves job (({ c.host with schedule } : NativeHost Nat).run fs job).2 } :
      Course).happened (({ c.host with schedule } : NativeHost Nat).run fs job).2 := by
  unfold turn? at h
  split at h
  · cases h
  · next job schedule hn => exact ⟨job, schedule, hn, (Option.some.inj h).symm⟩

theorem happened_fired (c : Course) (fired : Option Nat) : c.happened (fired.map .fired) = c := by
  cases fired <;> rfl

theorem opened_frame {K : Type} (h : NativeHost K) (fs : FileSystem) (path : NativePath) :
    (h.opened fs path).1.schedule = h.schedule ∧
      (h.opened fs path).1.directories.spawned = h.directories.spawned ∧
      (h.opened fs path).1.directories.underWay = h.directories.underWay ∧
      (h.opened fs path).2 ≠ .error .callbackDropped := by
  unfold opened
  split
  · exact ⟨rfl, rfl, rfl, by simp [HostFailure.ofFault]⟩
  · exact ⟨rfl, rfl, rfl, by simp⟩

theorem timer_turned {job : TimerJob} {schedule : Schedule (HostJob Nat)} {host : NativeHost Nat}
    (hn : c.host.schedule.next? = some (.timer job, schedule))
    (hd : host.directories = c.host.directories)
    (hs : host.schedule = (c.host.timers.run schedule .timer job).2.2) :
    Turned c { c with host, reading := c.reading ++ [] } := by
  obtain ⟨hr, hasleep⟩ := next?_some hn
  obtain ⟨hready, hslept⟩ := c.host.timers.run_schedule schedule .timer job
  have hready : host.schedule.ready = schedule.ready := by rw [hs, hready]
  refine .quiet rfl rfl (List.append_nil _) (by rw [hd]) (by rw [hd]) ?_ ?_ (fun callback => ?_) ?_
  · intro other hj
    rw [hr]
    exact .inl (List.mem_cons_of_mem _ (hready ▸ hj))
  · intro pair hp
    rcases hslept pair (hs ▸ hp) with hp | ⟨own, ho⟩
    · exact .inl (hasleep ▸ hp)
    · exact .inr (by rw [ho]; rfl)
  · show (host.schedule.ready.filterMap HostJob.callback? ++
      List.map _ (c.reading ++ [])).count callback = _
    rw [hready, List.append_nil, owing, hr, List.count_append, List.count_append, callbacks_cons]
    rfl
  · show host.schedule.ready.filterMap HostJob.read? = _
    rw [hready, hr, reads_cons]
    rfl

theorem read_turned (hk : Kept c) {n callback : Nat} {schedule : Schedule (HostJob Nat)}
    (hn : c.host.schedule.next? = some (.read n callback, schedule)) {page : Option DirectoryPage}
    (hp : (c.host.directories.serve n).2 = page) :
    Turned c (({ c with
      host := { c.host with schedule, directories := (c.host.directories.serve n).1 }
      reading := c.reading ++
        leaves (.read n callback) (page.map fun page => .answered callback (.read page)) } :
      Course).happened (page.map fun page => .answered callback (.read page))) := by
  obtain ⟨hr, hasleep⟩ := next?_some hn
  obtain ⟨call, ha, hw⟩ := hk.awaited _ (hr ▸ List.mem_cons_self) callback rfl
  have hspawned : c.host.directories.spawned = n :: schedule.ready.filterMap HostJob.read? := by
    rw [← hk.fresh, hr, reads_cons]
    rfl
  obtain ⟨-, hunder, hleft, hheard⟩ := Directories.serve_went hk.directories hspawned
  have hleft : c.host.directories.spawned = n :: (c.host.directories.serve n).1.spawned := by
    rw [hleft]
    exact hspawned
  rw [hp] at hunder hheard
  cases page with
  | none => exact .begun n callback schedule.ready hr rfl rfl rfl rfl hasleep hleft hunder
  | some page =>
    cases hw with
    | read handle count =>
      have hword : HostCall.Hears (.read handle count) (.answered (.read page)) :=
        .read handle count page fun he => hheard (congrArg some he)
      refine .ended (.read n callback) schedule.ready callback schedule.now (.read page) _ hr rfl ha
        hword rfl rfl (List.append_nil _) rfl hasleep hleft ?_
      refine hunder.trans (List.filter_congr fun m _ => ?_)
      simp [HostJob.read?]

/-- The job at the front has its turn: it is a timer, or its callback is called, or it is a read
that is suspended. -/
theorem turn_turned (hk : Kept c) (h : c.turn? fs = some c') : Turned c c' := by
  obtain ⟨job, schedule, hn, rfl⟩ := turn?_some h
  obtain ⟨hr, -⟩ := next?_some hn
  cases job with
  | timer job =>
    show Turned c (happened _ ((c.host.timers.run schedule .timer job).1.map .fired))
    rw [happened_fired]
    exact timer_turned hn rfl rfl
  | «open» path callback =>
    obtain ⟨call, ha, hw⟩ := hk.awaited _ (hr ▸ List.mem_cons_self) callback rfl
    obtain ⟨hschedule, hspawned, hunder, hheard⟩ := opened_frame { c.host with schedule } fs path
    cases hw with
    | «open» id _ _ hp =>
      exact answered_turned hn rfl rfl ha (.opened id _ hheard) hschedule hspawned hunder
  | exit ended callback =>
    obtain ⟨call, ha, hw⟩ := hk.awaited _ (hr ▸ List.mem_cons_self) callback rfl
    cases hw with
    | spawn command args _ _ hne =>
      exact answered_turned hn rfl rfl ha (.exited command args ended hne) rfl rfl rfl
  | read n callback => exact read_turned hk hn rfl

/-! ## The moves keep every callback at one place -/

theorem move_turned {a : Move} (hk : Kept c) (h : c.move? a = some c') : Turned c c' := by
  cases a with
  | call system call =>
    obtain rfl := Option.some.inj h
    exact call_turned c system call
  | startTimer delay interval =>
    obtain rfl := Option.some.inj h
    refine timers_turned rfl rfl (fun job hj => ?_) fun _ hp => .inl hp
    rw [List.mem_singleton.mp hj]
    rfl
  | stopTimer handle =>
    obtain rfl := Option.some.inj h
    exact timers_turned rfl (List.append_nil _).symm (fun _ hj => by cases hj) fun _ hp => .inl hp
  | write text =>
    obtain rfl := Option.some.inj h
    exact timers_turned rfl (List.append_nil _).symm (fun _ hj => by cases hj) fun _ hp => .inl hp
  | turn fs => exact turn_turned hk h
  | wait => exact wait_turned h
  | begin => exact begin_turned h
  | pull read => exact pull_turned h
  | pass moment =>
    obtain rfl := Option.some.inj h
    exact pass_turned hk moment

theorem move_reaches {a : Move} (h : c.move? a = some c') :
    Directories.Reaches c.host.directories c'.host.directories := by
  have hhappened : ∀ (c : Course) (event : Option (HostEvent Nat)),
      (c.happened event).host = c.host := by
    intro c event
    rcases event with _ | ⟨timer⟩ | ⟨callback, answer⟩ <;> rfl
  cases a with
  | call system call =>
    obtain rfl := Option.some.inj h
    exact ask_reaches c.host system c.calls.length call
  | startTimer delay interval | stopTimer handle | write text | pass moment =>
    obtain rfl := Option.some.inj h
    exact .refl _
  | turn fs =>
    change c.turn? fs = some c' at h
    unfold turn? at h
    split at h
    · cases h
    · next job schedule _ =>
      obtain rfl := Option.some.inj h
      rw [hhappened]
      exact run_reaches { c.host with schedule } fs job
  | wait =>
    change c.wait? = some c' at h
    unfold wait? at h
    split at h
    · obtain rfl := Option.some.inj h
      exact .refl _
    · obtain rfl := Option.some.inj h
      exact .refl _
    · cases h
  | begin =>
    change c.begin? = some c' at h
    unfold begin? at h
    split at h
    · next n callback schedule _ =>
      obtain ⟨directories, hb, rfl⟩ := Option.map_eq_some_iff.mp h
      exact .single (a := .begin n) hb
    · cases h
  | pull read =>
    change c.pull? read = some c' at h
    unfold pull? at h
    split at h
    · next callback directories page _ hp =>
      obtain rfl := Option.some.inj h
      exact .single (a := .pull read) (by rw [Directories.step, hp]; rfl)
    · cases h

theorem Kept.move {a : Move} (hk : Kept c) (h : c.move? a = some c') : Kept c' := by
  obtain ⟨steps, hs⟩ := move_reaches h
  exact hk.turned (Directories.run_valid hk.directories hs) (move_turned hk h)

theorem runsBy : RunsBy move? run :=
  ⟨fun _ => rfl, fun _ _ _ => rfl⟩

theorem Kept.run {moves : List Move} (hk : Kept c) (h : c.run moves = some c') : Kept c' :=
  runsBy.keeps (fun _ _ _ _ => Kept.move) h hk

theorem start_kept (view : HostView) (sink : Sink) (now : Nat) : Kept (start view sink now) := by
  constructor
  case directories => exact Directories.empty_valid
  all_goals
    simp [start, NativeHost.start, Schedule.start, answersOf, refusalsOf, owing, Directories.empty,
      Directories.underWay]

end NativeHost.Course

end ScriptHost
