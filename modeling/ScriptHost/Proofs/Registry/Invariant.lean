import ScriptHost.Proofs.Registry.Turn
import ScriptHost.Proofs.Steps

/-!
# Every run is valid

A turn keeps the records of a registry coupled to their tasks and histories.
It is about at most one identifier, so only what the state shows of that one has
to be looked at.
-/

set_option autoImplicit false

namespace ScriptHost.Loads

variable {X : Type}

theorem Valid.changed {s s' : Loads X} (hv : Valid s) (id : ModuleId) (rest : History X)
    {record : Option (Record X CallId)} {tasks : List (CallId × LoadTask)}
    (hids : s'.registry.ids.Nodup) (hkeys : (s'.tasks.map (·.1)).Nodup)
    (hold : ∀ task ∈ s'.tasks, task.1 < s'.issued) (hh : s'.history = s.history ++ rest)
    (he : ∀ e ∈ rest, e.subject? = some id ∨ e.subject? = none)
    (hr : ∀ other,
      s'.registry.find? other = if other = id then record else s.registry.find? other)
    (ht : ∀ other, s'.tasksOf other = if other = id then tasks else s.tasksOf other)
    (hs : Sound id ⟨record, tasks, rest.foldl (Life.note id) (s.history.life id)⟩) :
    Valid s' where
  ids := hids
  keys := hkeys
  old := hold
  sound := by
    intro other
    by_cases ho : other = id
    · subst ho
      have hview : s'.view other = ⟨record, tasks, s'.history.life other⟩ := by
        rw [view, hr, ht, if_pos rfl, if_pos rfl]
      rw [hview, hh, life_append]
      exact hs
    · have hn : ∀ e ∈ rest, e.subject? ≠ some other := by
        intro e hm hsub
        rcases he e hm with h | h
        · exact ho (Option.some.inj (hsub.symm.trans h))
        · simp [h] at hsub
      have hrec : s'.registry.find? other = s.registry.find? other := by rw [hr, if_neg ho]
      have htasks : s'.tasksOf other = s.tasksOf other := by rw [ht, if_neg ho]
      rw [view_other rest hh hrec htasks hn]
      exact hv.sound other

theorem Valid.aside {s s' : Loads X} (hv : Valid s) (rest : History X)
    (hr : s'.registry = s.registry) (ht : s'.tasks = s.tasks) (hi : s'.issued = s.issued)
    (hh : s'.history = s.history ++ rest) (he : ∀ e ∈ rest, e.subject? = none) : Valid s' where
  ids := hr ▸ hv.ids
  keys := ht ▸ hv.keys
  old := by rw [ht, hi]; exact hv.old
  sound := by
    intro id
    rw [view_other rest hh (by rw [hr]) (by simp only [tasksOf, ht]) (by simp +contextual [he])]
    exact hv.sound id

/-! ## New calls -/

theorem Open.attached {g : Generation X} {n : Nat} {fetched : List (LoadResult String)}
    (hg : Open g n fetched) (c : CallId) :
    Open { g with calls := g.calls ++ [c], attached := g.attached ++ [c] } n fetched :=
  ⟨hg.started, hg.fetched, hg.evaluated, hg.sent⟩

theorem Closed.called {g : Generation X} {outcome : LoadResult X} (hg : Closed g outcome)
    (c : CallId) : Closed { g with calls := g.calls ++ [c] } outcome :=
  ⟨hg.started, hg.settled, hg.sent⟩

theorem Coupled.joined {id : ModuleId} {record : Record X CallId}
    {tasks : List (CallId × LoadTask)} {g : Generation X} (h : Coupled id (some record) tasks g)
    (ho : record.outcome? = none) (c : CallId) :
    Coupled id (some (record.join c)) tasks
      { g with calls := g.calls ++ [c], attached := g.attached ++ [c] } := by
  cases record with
  | pending waiters =>
    obtain ⟨t, rfl, rfl, hg⟩ := h.of_pending
    exact .pending t _ (hg.attached c)
  | loading waiters =>
    obtain ⟨rfl, ⟨t, rfl, hg⟩ | ⟨t, source, rfl, hg⟩⟩ := h.of_loading
    · exact .fetching t _ (hg.attached c)
    · exact .evaluating t _ source (hg.attached c)
  | ready value => simp [Record.outcome?] at ho
  | failed failure => simp [Record.outcome?] at ho

theorem fresh_key {s : Loads X} (hv : Valid s) : s.issued ∉ s.tasks.map (·.1) := by
  intro hm
  obtain ⟨task, ht, he⟩ := List.mem_map.mp hm
  exact absurd he (Nat.ne_of_lt (hv.old task ht))

theorem tasksOf_same (s : Loads X) (id other : ModuleId) :
    s.tasksOf other = if other = id then s.tasksOf id else s.tasksOf other := by
  by_cases h : other = id <;> simp [h]

theorem spawn_tasksOf (s : Loads X) (t : CallId) (id other : ModuleId) :
    (s.spawn t id).tasksOf other =
      if other = id then s.tasksOf id ++ [(t, ⟨id, .spawned⟩)] else s.tasksOf other := by
  by_cases h : other = id
  · simp [spawn, tasksOf, h]
  · have hn : id ≠ other := fun he => h he.symm
    simp [spawn, tasksOf, h, hn]

theorem first_valid {s : Loads X} (hv : Valid s) {id : ModuleId}
    (hr : s.registry.find? id = none) :
    Valid ((s.attach (s.registry.put id (.pending [s.issued])) id).spawn s.issued id) := by
  obtain ⟨hpast, hc⟩ := hv.sound id
  simp only [view, hr] at hpast hc
  obtain ⟨ht, hg⟩ := hc.of_none
  refine hv.changed id [.called s.issued id, .attached s.issued id]
    (Registry.put_nodup _ _ _ hv.ids) ?_ ?_ rfl (by simp [LoadEvent.subject?])
    (Registry.find_put _ _ · _) (spawn_tasksOf _ _ _) ⟨?_, ?_⟩
  · simp only [spawn, attach, List.map_append, List.map_cons, List.map_nil]
    refine List.nodup_append.mpr ⟨hv.keys, by simp, ?_⟩
    intro t hm n hn he
    rw [he, List.mem_singleton.mp hn] at hm
    exact fresh_key hv hm
  · intro task hm
    rcases List.mem_append.mp hm with hm | hm
    · exact Nat.lt_succ_of_lt (hv.old task hm)
    · rw [List.mem_singleton.mp hm]
      exact Nat.lt_succ_self _
  · simpa [Life.note, LoadEvent.subject?] using hpast
  · have htasks : (s.attach (s.registry.put id (.pending [s.issued])) id).tasksOf id = [] := ht
    rw [htasks]
    simp only [Life.note, LoadEvent.subject?, Generation.note, List.foldl_cons, List.foldl_nil,
      if_pos, hg]
    exact .pending s.issued ⟨[s.issued], [s.issued], 0, [], [], []⟩ ⟨rfl, rfl, rfl, rfl⟩

theorem joined_valid {s : Loads X} (hv : Valid s) {id : ModuleId} {record : Record X CallId}
    (hr : s.registry.find? id = some record) (ho : record.outcome? = none) :
    Valid (s.attach (s.registry.put id (record.join s.issued)) id) := by
  obtain ⟨hpast, hc⟩ := hv.sound id
  simp only [view, hr] at hpast hc
  refine hv.changed id [.called s.issued id, .attached s.issued id]
    (Registry.put_nodup _ _ _ hv.ids) hv.keys ?_ rfl (by simp [LoadEvent.subject?])
    (Registry.find_put _ _ · _) (tasksOf_same s id) ⟨?_, ?_⟩
  · intro task hm
    exact Nat.lt_succ_of_lt (hv.old task hm)
  · simpa [Life.note, LoadEvent.subject?] using hpast
  · simpa [Life.note, LoadEvent.subject?, Generation.note] using hc.joined ho s.issued

theorem answered_valid {s : Loads X} (hv : Valid s) {id : ModuleId} {outcome : LoadResult X}
    (hr : s.registry.find? id = some (.ofOutcome outcome)) :
    Valid { s with
      issued := s.issued + 1
      history := s.history ++ [.called s.issued id, .returned s.issued outcome] } := by
  obtain ⟨hpast, hc⟩ := hv.sound id
  simp only [view, hr] at hpast hc
  obtain ⟨ht, hg⟩ := hc.of_settled
  refine hv.changed id [.called s.issued id, .returned s.issued outcome] hv.ids hv.keys
    ?_ rfl (by simp [LoadEvent.subject?]) (s.registry.find_same id) (tasksOf_same s id) ⟨?_, ?_⟩
  · intro task hm
    exact Nat.lt_succ_of_lt (hv.old task hm)
  · simpa [Life.note, LoadEvent.subject?] using hpast
  · rw [ht, hr]
    simpa [Life.note, LoadEvent.subject?, Generation.note]
      using Coupled.settled _ outcome (hg.called s.issued)

/-! ## Drops -/

theorem dropped_valid {s : Loads X} (hv : Valid s) {id : ModuleId} {outcome : LoadResult X}
    (hr : s.registry.find? id = some (.ofOutcome outcome)) :
    Valid ({ s with registry := s.registry.remove id }.note [.invalidated id true]) := by
  obtain ⟨hpast, hc⟩ := hv.sound id
  simp only [view, hr] at hpast hc
  obtain ⟨ht, hg⟩ := hc.of_settled
  refine hv.changed id [.invalidated id true] ?_ hv.keys hv.old rfl
    (by simp [LoadEvent.subject?]) (s.registry.find_remove id) (tasksOf_same s id) ⟨?_, ?_⟩
  · simp only [note, Registry.remove_ids]
    exact hv.ids.filter _
  · simp only [Life.note, LoadEvent.subject?, List.foldl_cons, List.foldl_nil, if_pos]
    intro g hm
    rcases List.mem_append.mp hm with hm | hm
    · exact hpast g hm
    · exact ⟨outcome, List.mem_singleton.mp hm ▸ hg⟩
  · rw [ht]
    simpa [Life.note, LoadEvent.subject?] using Coupled.absent

theorem kept_valid {s : Loads X} (hv : Valid s) (id : ModuleId) :
    Valid (s.note [.invalidated id false]) := by
  obtain ⟨hpast, hc⟩ := hv.sound id
  simp only [view] at hpast hc
  refine hv.changed id [.invalidated id false] hv.ids hv.keys hv.old rfl
    (by simp [LoadEvent.subject?]) (s.registry.find_same id) (tasksOf_same s id) ⟨?_, ?_⟩
  · simpa [Life.note, LoadEvent.subject?, Generation.note] using hpast
  · simpa [Life.note, LoadEvent.subject?, Generation.note] using hc

/-! ## Turns of tasks -/

theorem entered_tasksOf {s : Loads X} (hv : Valid s) {t : CallId} {id : ModuleId}
    {old : Phase} (h : s.task? t = some ⟨id, old⟩) (phase : Phase) (other : ModuleId) :
    (enterPhase phase t s.tasks).filter (·.2.id = other) =
      if other = id then [(t, ⟨id, phase⟩)] else s.tasksOf other := by
  rw [enterPhase_filter]
  by_cases ho : other = id
  · have hs : s.tasks.filter (·.2.id = id) = [(t, ⟨id, old⟩)] := tasksOf_task hv h
    rw [ho, hs]
    simp [enterPhase]
  · rw [if_neg ho]
    exact enterPhase_absent phase t _ (other_task_ne hv h ho)

theorem ended_tasksOf {s : Loads X} (hv : Valid s) {t : CallId} {id : ModuleId}
    {old : Phase} (h : s.task? t = some ⟨id, old⟩) (other : ModuleId) :
    (s.tasks.filter (·.1 ≠ t)).filter (·.2.id = other) =
      if other = id then [] else s.tasksOf other := by
  rw [tasksOf_removed]
  by_cases ho : other = id
  · have hs : s.tasksOf id = [(t, ⟨id, old⟩)] := tasksOf_task hv h
    rw [ho, hs]
    simp
  · rw [if_neg ho]
    exact List.filter_eq_self.mpr fun pair hp => by simpa using other_task_ne hv h ho pair hp

theorem entered_old {s : Loads X} (hv : Valid s) (phase : Phase) (t : CallId) :
    ∀ task ∈ enterPhase phase t s.tasks, task.1 < s.issued := by
  intro task hm
  have hk : task.1 ∈ s.tasks.map (·.1) := by
    rw [← enterPhase_keys phase t]
    exact List.mem_map_of_mem hm
  obtain ⟨pair, hp, he⟩ := List.mem_map.mp hk
  exact he ▸ hv.old pair hp

theorem began_valid {s : Loads X} (hv : Valid s) {t : CallId} {id : ModuleId}
    {waiters : List CallId} (ht : s.task? t = some ⟨id, .spawned⟩)
    (hr : s.registry.find? id = some (.pending waiters)) :
    Valid ({ s with
      registry := s.registry.put id (.loading waiters)
      tasks := enterPhase .fetching t s.tasks }.note [.fetchStarted id]) := by
  obtain ⟨hpast, hc⟩ := hv.sound id
  simp only [view, hr] at hpast hc
  obtain ⟨_, _, rfl, hg⟩ := hc.of_pending
  refine hv.changed id [.fetchStarted id] (Registry.put_nodup _ _ _ hv.ids) ?_
    (entered_old hv _ t) rfl (by simp [LoadEvent.subject?]) (Registry.find_put _ _ · _)
    (entered_tasksOf hv ht .fetching) ⟨?_, ?_⟩
  · simp only [note, enterPhase_keys]
    exact hv.keys
  · simpa [Life.note, LoadEvent.subject?] using hpast
  · have hopen : Open { (s.history.life id).current with
        started := (s.history.life id).current.started + 1 } 1 [] :=
      ⟨by simp [hg.started], hg.fetched, hg.evaluated, hg.sent⟩
    simpa [Life.note, LoadEvent.subject?, Generation.note] using Coupled.fetching t _ hopen

theorem fetched_valid {s : Loads X} (hv : Valid s) {t : CallId} {id : ModuleId}
    (source : String) (ht : s.task? t = some ⟨id, .fetching⟩) :
    Valid ({ s with tasks := enterPhase .evaluating t s.tasks }.note
      [.fetchEnded id (.ok source), .evaluationStarted id source]) := by
  have hpast : ∀ g ∈ (s.history.life id).past, ∃ outcome, Closed g outcome := (hv.sound id).past
  have hf := task_found hv ht
  generalize hr : s.registry.find? id = record at hf
  cases hf with
  | fetching hg =>
    refine hv.changed id [.fetchEnded id (.ok source), .evaluationStarted id source] hv.ids ?_
      (entered_old hv _ t) rfl (by simp [LoadEvent.subject?]) (s.registry.find_same id)
      (entered_tasksOf hv ht .evaluating) ⟨?_, ?_⟩
    · simp only [note, enterPhase_keys]
      exact hv.keys
    · simpa [Life.note, LoadEvent.subject?, Generation.note] using hpast
    · have hopen : Open { (s.history.life id).current with
          fetched := (s.history.life id).current.fetched ++ [.ok source] } 1 [.ok source] :=
        ⟨hg.started, by simp [hg.fetched], hg.evaluated, hg.sent⟩
      rw [hr]
      simpa [Life.note, LoadEvent.subject?, Generation.note]
        using Coupled.evaluating t _ source hopen

theorem life_sent (id : ModuleId) (outcome : LoadResult X) (waiters : List CallId) (l : Life X) :
    (waiters.map (LoadEvent.sent · id outcome)).foldl (Life.note id) l =
      { l with current :=
        { l.current with sent := l.current.sent ++ waiters.map (·, outcome) } } := by
  induction waiters generalizing l with
  | nil => simp
  | cons c waiters ih =>
    rw [List.map_cons, List.foldl_cons, ih]
    simp [Life.note, LoadEvent.subject?, Generation.note]

/-- A task that ends leaves a valid state if the event that brought the outcome gives it to the
generation. -/
theorem settled_valid {s : Loads X} (hv : Valid s) {t : CallId} {id : ModuleId} {phase : Phase}
    {event : LoadEvent X} {outcome : LoadResult X} {waiters : List CallId} {g : Generation X}
    (ht : s.task? t = some ⟨id, phase⟩) (he : event.subject? = some id)
    (hn : Life.note id (s.history.life id) event = ⟨(s.history.life id).past, g⟩)
    (hsent : g.sent = [])
    (hg : Closed { g with sent := waiters.map (·, outcome) } outcome) :
    Valid (s.settled t id waiters event outcome) := by
  have hpast : ∀ g ∈ (s.history.life id).past, ∃ outcome, Closed g outcome := (hv.sound id).past
  refine hv.changed id (event :: waiters.map (.sent · id outcome))
    (Registry.put_nodup _ _ _ hv.ids) ?_ ?_ rfl ?_ (Registry.find_put _ _ · _)
    (ended_tasksOf hv ht) ⟨?_, ?_⟩
  · exact (List.filter_sublist.map _).nodup hv.keys
  · intro task hm
    exact hv.old task (List.mem_filter.mp hm).1
  · intro e hm
    rcases List.mem_cons.mp hm with rfl | hm
    · exact .inl he
    · obtain ⟨c, -, rfl⟩ := List.mem_map.mp hm
      exact .inl rfl
  · rw [List.foldl_cons, life_sent, hn]
    exact hpast
  · rw [List.foldl_cons, life_sent, hn]
    simp only [hsent, List.nil_append]
    exact .settled _ outcome hg

theorem failed_valid {s : Loads X} (hv : Valid s) {t : CallId} {id : ModuleId}
    {waiters : List CallId} (failure : LoadFailure) (ht : s.task? t = some ⟨id, .fetching⟩)
    (hr : s.registry.find? id = some (.loading waiters)) :
    Valid (s.settled t id waiters (.fetchEnded id (.error failure)) (.error failure)) := by
  have hf := task_found hv ht
  simp only [hr] at hf
  generalize hp : Phase.fetching = phase, hw : some (Record.loading waiters) = record at hf
  cases hf with
  | spawned => cases hp
  | evaluating => cases hp
  | fetching hg =>
    obtain rfl : waiters = _ := by simpa using hw
    refine settled_valid hv ht rfl (g := (s.history.life id).current.note
      (.fetchEnded id (.error failure))) ?_ hg.sent ⟨hg.started, ?_, rfl⟩
    · simp [Life.note, LoadEvent.subject?]
    · simp [Generation.outcome?, Generation.note, hg.fetched, hg.evaluated]

theorem outcomeOf_error (failure : EngineFailure) :
    (outcomeOf (.error failure) : LoadResult X) =
      .error (failure.cause.getD (.evaluation failure.message)) := by
  obtain ⟨message, cause⟩ := failure
  cases cause <;> rfl

theorem evaluated_valid {s : Loads X} (hv : Valid s) {t : CallId} {id : ModuleId}
    {waiters : List CallId} (result : Except EngineFailure X)
    (ht : s.task? t = some ⟨id, .evaluating⟩)
    (hr : s.registry.find? id = some (.loading waiters)) :
    Valid (s.settled t id waiters (.evaluationEnded id result) (outcomeOf result)) := by
  have hf := task_found hv ht
  simp only [hr] at hf
  generalize hp : Phase.evaluating = phase, hw : some (Record.loading waiters) = record at hf
  cases hf with
  | spawned => cases hp
  | fetching => cases hp
  | evaluating source hg =>
    obtain rfl : waiters = _ := by simpa using hw
    refine settled_valid hv ht rfl (g := (s.history.life id).current.note
      (.evaluationEnded id result)) ?_ hg.sent ⟨hg.started, ?_, rfl⟩
    · simp [Life.note, LoadEvent.subject?]
    · cases result with
      | ok value => simp [Generation.outcome?, Generation.note, hg.fetched, hg.evaluated, outcomeOf]
      | error failure =>
        rw [outcomeOf_error]
        simp [Generation.outcome?, Generation.note, hg.fetched, hg.evaluated]

/-! ## Runs -/

theorem start_valid : Valid (start : Loads X) where
  ids := List.nodup_nil
  keys := List.nodup_nil
  old := by simp [start]
  sound := fun id => ⟨by simp [view, start, History.life, Life.start], .absent⟩

theorem turn_valid {s s' : Loads X} {a : LoadStep X} (hv : Valid s) (h : Turn s a s') :
    Valid s' := by
  cases h with
  | first a id ha hr => exact first_valid hv hr
  | joined a id record ha hr ho => exact joined_valid hv hr ho
  | answered a id outcome ha hr => exact answered_valid hv hr
  | refused => exact hv.aside _ rfl rfl rfl rfl (by simp [LoadEvent.subject?])
  | dropped id outcome hr => exact dropped_valid hv hr
  | kept id hr => exact kept_valid hv id
  | gaveUp => exact hv.aside _ rfl rfl rfl rfl (by simp [LoadEvent.subject?])
  | began t id waiters ht hr => exact began_valid hv ht hr
  | paused => exact hv
  | fetched t id waiters source ht hr => exact fetched_valid hv source ht
  | failed t id waiters failure ht hr => exact failed_valid hv failure ht hr
  | evaluated t id waiters result ht hr => exact evaluated_valid hv result ht hr
  | resumed => exact hv.aside _ rfl rfl rfl rfl (by simp [LoadEvent.subject?])
  | skipped => exact hv.aside [] rfl rfl rfl (List.append_nil _).symm (by simp)
  | aborted => exact hv.aside _ rfl rfl rfl rfl (by simp [LoadEvent.subject?])

def Reachable (s : Loads X) : Prop := ∃ steps : List (LoadStep X), start.run steps = some s

theorem runsBy : RunsBy (S := Loads X) step run :=
  ⟨fun _ => rfl, fun _ _ _ => rfl⟩

theorem run_snoc {steps : List (LoadStep X)} {s s' : Loads X} {a : LoadStep X}
    (h : start.run steps = some s) (ha : s.step a = some s') :
    start.run (steps ++ [a]) = some s' := by
  rw [runsBy.snoc, h, Option.bind_some, ha]

theorem Reachable.step {s s' : Loads X} (h : Reachable s) {a : LoadStep X}
    (ha : s.step a = some s') : Reachable s' := by
  obtain ⟨steps, hs⟩ := h
  exact ⟨steps ++ [a], run_snoc hs ha⟩

theorem Reachable.induct {P : Loads X → Prop} (hstart : P start)
    (hstep : ∀ s a s', Reachable s → P s → s.step a = some s' → P s') {s : Loads X}
    (h : Reachable s) : P s := by
  obtain ⟨steps, h⟩ := h
  exact runsBy.induct (P := fun _ s => P s) hstart
    (fun steps s a s' hr hp hs => hstep s a s' ⟨steps, hr⟩ hp hs) h

theorem Reachable.valid {s : Loads X} (h : Reachable s) : Valid s :=
  h.induct start_valid fun _ _ _ _ hv hs => turn_valid hv (turn_of_step hv hs)

theorem Reachable.turn {s s' : Loads X} (h : Reachable s) {a : LoadStep X}
    (ha : s.step a = some s') : Turn s a s' :=
  turn_of_step h.valid ha

end ScriptHost.Loads
