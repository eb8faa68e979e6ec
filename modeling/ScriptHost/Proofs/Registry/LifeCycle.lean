import ScriptHost.Proofs.Registry.Invariant

/-!
# The life of a record

A record is made pending, is loading from the first turn of its task to the
last, and is then settled until it is dropped. Nothing else happens to a record,
and only turns about its own identifier do this much. The identifiers of a
registry are those that were loaded and not dropped since.
-/

set_option autoImplicit false

namespace ScriptHost

variable {X : Type}

/-- One step in the life of a record. -/
inductive RecordState.Moves : Option RecordState → Option RecordState → Prop
  | made : Moves none (some .pending)
  | begun : Moves (some .pending) (some .loading)
  | readied : Moves (some .loading) (some .ready)
  | failed : Moves (some .loading) (some .failed)
  | readyDropped : Moves (some .ready) none
  | failedDropped : Moves (some .failed) none

/-- The identifier was loaded and was not dropped since. -/
def History.Loaded (h : History X) (id : ModuleId) : Prop :=
  ∃ before c after, h = before ++ .called c id :: after ∧ .invalidated id true ∉ after

namespace Loads

def subject? (s : Loads X) : LoadStep X → Option ModuleId
  | .load id | .invalidate id => some id
  | .loadSpecifier specifier base => (ModuleId.resolve specifier base).toOption
  | .begin t | .suspend t | .endFetch t _ | .endEvaluation t _ => (s.task? t).map (·.id)
  | .giveUp _ | .resume | .abort _ => none

theorem subject_of_target {s : Loads X} {a : LoadStep X} {id : ModuleId}
    (h : a.target? = some id) : s.subject? a = some id := by
  cases a <;> simp_all [LoadStep.target?, subject?]

/-! ## Changes of one record -/

/-- What a turn can make of the record of an identifier. -/
inductive Change (a : LoadStep X) (id : ModuleId) :
    Option (Record X CallId) → Option (Record X CallId) → Prop
  | same (record : Option (Record X CallId)) : Change a id record record
  | made (c : CallId) : Change a id none (some (.pending [c]))
  | joined (record : Record X CallId) (c : CallId) (ho : record.outcome? = none) :
      Change a id (some record) (some (record.join c))
  | begun (waiters : List CallId) :
      Change a id (some (.pending waiters)) (some (.loading waiters))
  | settled (waiters : List CallId) (outcome : LoadResult X) :
      Change a id (some (.loading waiters)) (some (.ofOutcome outcome))
  | dropped (outcome : LoadResult X) (ha : a = .invalidate id) :
      Change a id (some (.ofOutcome outcome)) none

/-- A turn changes at most the record of the identifier it is about. -/
theorem turn_frame {s s' : Loads X} {a : LoadStep X} (ht : Turn s a s') {id : ModuleId}
    (h : s.subject? a ≠ some id) : s'.registry.find? id = s.registry.find? id := by
  have hput : ∀ (other : ModuleId) (record : Record X CallId), s.subject? a = some other →
      (s.registry.put other record).find? id = s.registry.find? id := by
    intro other record hs
    have hne : id ≠ other := fun he => h (by rw [hs, he])
    rw [Registry.find_put, if_neg hne]
  cases ht with
  | first _ other ha hr => exact hput other _ (subject_of_target ha)
  | joined _ other record ha hr ho => exact hput other _ (subject_of_target ha)
  | dropped other outcome hr =>
    have hne : id ≠ other := fun he => h (by rw [he]; rfl)
    exact (Registry.find_remove ..).trans (if_neg hne)
  | began t other waiters hk hr => exact hput other _ (by simp [subject?, hk])
  | failed t other waiters failure hk hr => exact hput other _ (by simp [subject?, hk])
  | evaluated t other waiters result hk hr => exact hput other _ (by simp [subject?, hk])
  | answered | refused | kept | gaveUp | paused | fetched | resumed | skipped | aborted => rfl

theorem turn_change {s s' : Loads X} {a : LoadStep X} (ht : Turn s a s') (id : ModuleId) :
    Change a id (s.registry.find? id) (s'.registry.find? id) := by
  by_cases hs : s.subject? a = some id
  · have hput : ∀ (other : ModuleId) (record : Record X CallId), s.subject? a = some other →
        other = id ∧ (s.registry.put other record).find? id = some record := by
      intro other record ho
      obtain rfl : other = id := Option.some.inj (ho.symm.trans hs)
      exact ⟨rfl, (Registry.find_put ..).trans (if_pos rfl)⟩
    cases ht with
    | first _ other ha hr =>
      obtain ⟨rfl, hf⟩ := hput other (.pending [s.issued]) (subject_of_target ha)
      simpa only [spawn, attach, hf, hr] using Change.made s.issued
    | joined _ other record ha hr ho =>
      obtain ⟨rfl, hf⟩ := hput other (record.join s.issued) (subject_of_target ha)
      simpa only [attach, hf, hr] using Change.joined record s.issued ho
    | dropped other outcome hr =>
      obtain rfl : other = id := Option.some.inj hs
      have hf : (s.registry.remove other).find? other = none :=
        (Registry.find_remove ..).trans (if_pos rfl)
      simpa only [note, hf, hr] using Change.dropped outcome rfl
    | began t other waiters hk hr =>
      obtain ⟨rfl, hf⟩ := hput other (.loading waiters) (by simp [subject?, hk])
      simpa only [note, hf, hr] using Change.begun waiters
    | failed t other waiters failure hk hr =>
      obtain ⟨rfl, hf⟩ := hput other (.ofOutcome (.error failure)) (by simp [subject?, hk])
      simpa only [settled, hf, hr] using Change.settled waiters (.error failure)
    | evaluated t other waiters result hk hr =>
      obtain ⟨rfl, hf⟩ := hput other (.ofOutcome (outcomeOf result)) (by simp [subject?, hk])
      simpa only [settled, hf, hr] using Change.settled waiters (outcomeOf result)
    | answered | refused | kept | gaveUp | paused | fetched | resumed | skipped | aborted =>
      exact .same _
  · rw [turn_frame ht hs]
    exact .same _

theorem Change.moves {a : LoadStep X} {id : ModuleId} {old new : Option (Record X CallId)}
    (h : Change a id old new) : new.map Record.state = old.map Record.state ∨
      RecordState.Moves (old.map Record.state) (new.map Record.state) := by
  cases h with
  | same => exact .inl rfl
  | made => exact .inr .made
  | joined record c ho => cases record <;> exact .inl rfl
  | begun => exact .inr .begun
  | settled waiters outcome =>
    cases outcome with
    | ok value => exact .inr .readied
    | error failure => exact .inr .failed
  | dropped outcome =>
    cases outcome with
    | ok value => exact .inr .readyDropped
    | error failure => exact .inr .failedDropped

theorem Change.kept {a : LoadStep X} {id : ModuleId} {record : Record X CallId}
    {new : Option (Record X CallId)} (h : Change a id (some record) new)
    (hr : record.isSettled = true) : new = some record ∨ a = .invalidate id ∧ new = none := by
  cases h with
  | same => exact .inl rfl
  | joined _ c ho => simp [Record.isSettled, ho] at hr
  | begun waiters => simp [Record.isSettled, Record.outcome?] at hr
  | settled waiters other => simp [Record.isSettled, Record.outcome?] at hr
  | dropped other ha => exact .inr ⟨ha, rfl⟩

/-! ## The last turn of a task -/

theorem settled_found {s : Loads X} {n : CallId} {id : ModuleId} {phase : Phase}
    {waiters : List CallId} (event : LoadEvent X) (outcome : LoadResult X)
    (hk : s.task? n = some ⟨id, phase⟩) (hr : s.registry.find? id = some (.loading waiters))
    {t : CallId} {task : LoadTask} (h : s.task? t = some task)
    (hn : (s.settled n id waiters event outcome).task? t = none) :
    (∃ waiters, s.registry.find? task.id = some (.loading waiters)) ∧
      (s.settled n id waiters event outcome).registry.find? task.id =
        some (.ofOutcome outcome) := by
  have hl : (s.settled n id waiters event outcome).task? t =
      if t = n then none else s.task? t := Association.lookup_removed n t s.tasks
  by_cases ht : t = n
  · obtain rfl : task = ⟨id, phase⟩ := Option.some.inj (h.symm.trans (ht ▸ hk))
    exact ⟨⟨waiters, hr⟩, (Registry.find_put ..).trans (if_pos rfl)⟩
  · rw [hl, if_neg ht, h] at hn
    simp at hn

theorem turn_settles {s s' : Loads X} {a : LoadStep X} (ht : Turn s a s') {t : CallId}
    {task : LoadTask} (h : s.task? t = some task) (hn : s'.task? t = none) :
    (∃ waiters, s.registry.find? task.id = some (.loading waiters)) ∧
      ∃ outcome, s'.registry.find? task.id = some (.ofOutcome outcome) := by
  have hentered : ∀ phase n, (enterPhase phase n s.tasks).lookup t ≠ none := by
    intro phase n he
    have hl : s.tasks.lookup t = some task := h
    rw [enterPhase_lookup, hl] at he
    simp at he
  cases ht with
  | failed n id waiters failure hk hr =>
    obtain ⟨hloading, hsettled⟩ := settled_found _ _ hk hr h hn
    exact ⟨hloading, _, hsettled⟩
  | evaluated n id waiters result hk hr =>
    obtain ⟨hloading, hsettled⟩ := settled_found _ _ hk hr h hn
    exact ⟨hloading, _, hsettled⟩
  | began n id waiters hk hr => exact absurd hn (hentered _ _)
  | fetched n id waiters source hk hr => exact absurd hn (hentered _ _)
  | first a id ha hr =>
    have ho : s.tasks.lookup t = some task := h
    have hl : (s.tasks ++ [(s.issued, (⟨id, .spawned⟩ : LoadTask))]).lookup t = none := hn
    rw [List.lookup_append, ho] at hl
    simp at hl
  | joined | answered | refused | dropped | kept | gaveUp | paused | resumed | skipped | aborted =>
    have hl : s.task? t = none := hn
    simp [h] at hl

/-! ## Drops -/

theorem turn_invalidated {s s' : Loads X} {id : ModuleId} (ht : Turn s (.invalidate id) s') :
    ∃ isDropped, s'.history = s.history ++ [.invalidated id isDropped] ∧
      (isDropped = true ↔ ∃ record, s.registry.find? id = some record ∧ record.isSettled) ∧
      (isDropped = false → s' = s.note [.invalidated id false]) := by
  cases ht with
  | dropped _ outcome hr =>
    refine ⟨true, rfl, ?_, by simp⟩
    simp [hr, Record.isSettled, Registry.outcome_ofOutcome]
  | kept _ hr =>
    refine ⟨false, rfl, ?_, fun _ => rfl⟩
    cases hf : s.registry.find? id with
    | none => simp
    | some record =>
      have ho : record.outcome? = none := by simpa [hf] using hr
      simp [Record.isSettled, ho]
  | first _ other ha => simp [LoadStep.target?] at ha
  | joined _ other record ha => simp [LoadStep.target?] at ha
  | answered _ other outcome ha => simp [LoadStep.target?] at ha

/-! ## The identifiers of a registry -/

theorem loaded_snoc (h : History X) (e : LoadEvent X) (id : ModuleId) :
    History.Loaded (h ++ [e]) id ↔
      (∃ c, e = .called c id) ∨ (e ≠ .invalidated id true ∧ h.Loaded id) := by
  constructor
  · rintro ⟨before, c, after, hh, hn⟩
    rcases List.eq_nil_or_concat after with rfl | ⟨after, last, rfl⟩
    · obtain ⟨-, he⟩ := List.append_inj' hh rfl
      exact .inl ⟨c, List.head_eq_of_cons_eq he⟩
    · have hh : h ++ [e] = (before ++ .called c id :: after) ++ [last] := by simpa using hh
      obtain ⟨rfl, he⟩ := List.append_inj' hh rfl
      obtain rfl : e = last := List.head_eq_of_cons_eq he
      simp only [List.concat_eq_append, List.mem_append, List.mem_singleton, not_or] at hn
      exact .inr ⟨fun he => hn.2 he.symm, before, c, after, rfl, hn.1⟩
  · rintro (⟨c, rfl⟩ | ⟨hne, before, c, after, rfl, hn⟩)
    · exact ⟨h, c, [], rfl, by simp⟩
    · exact ⟨before, c, after ++ [e], by simp, by simp [hn, hne.symm]⟩

theorem loaded_append (h rest : History X) (id : ModuleId)
    (hr : ∀ e ∈ rest, (∀ c, e ≠ .called c id) ∧ e ≠ .invalidated id true) :
    History.Loaded (h ++ rest) id ↔ h.Loaded id := by
  induction rest generalizing h with
  | nil => simp
  | cons e rest ih =>
    obtain ⟨hc, hi⟩ := hr e (by simp)
    rw [List.append_cons, ih _ fun e' hm => hr e' (by simp [hm]), loaded_snoc]
    simp [hc, hi]

theorem loaded_called (h rest : History X) (c : CallId) (id other : ModuleId)
    (hr : ∀ e ∈ rest, (∀ c, e ≠ .called c other) ∧ e ≠ .invalidated other true) :
    History.Loaded (h ++ .called c id :: rest) other ↔ other = id ∨ h.Loaded other := by
  rw [List.append_cons, loaded_append _ _ _ hr, loaded_snoc]
  simp [eq_comm]

theorem mem_ids_put (r : Registry X CallId) (id other : ModuleId) (record : Record X CallId) :
    other ∈ (r.put id record).ids ↔ other = id ∨ other ∈ r.ids := by
  rw [Registry.put_ids]
  by_cases hm : id ∈ r.ids
  · rw [if_pos hm]
    exact ⟨.inr, fun h => h.elim (fun he => he ▸ hm) fun h => h⟩
  · simp [hm, or_comm]

theorem mem_ids {r : Registry X CallId} {id : ModuleId} {record : Record X CallId}
    (h : r.find? id = some record) : id ∈ r.ids :=
  (r.mem_ids_iff id).mpr ⟨record, h⟩

theorem turn_loaded {s s' : Loads X} {a : LoadStep X} (ht : Turn s a s') (id : ModuleId)
    (h : id ∈ s.registry.ids ↔ s.history.Loaded id) :
    id ∈ s'.registry.ids ↔ s'.history.Loaded id := by
  have hin : ∀ other record, s.registry.find? other = some record →
      (id = other ∨ id ∈ s.registry.ids ↔ id ∈ s.registry.ids) := by
    intro other record hr
    exact ⟨fun hor => hor.elim (fun he => he ▸ mem_ids hr) fun hm => hm, .inr⟩
  have hsent : ∀ (c : CallId) (other : ModuleId) (outcome : LoadResult X),
      (∀ n, LoadEvent.sent c other outcome ≠ .called n id) ∧
        LoadEvent.sent c other outcome ≠ .invalidated id true := by simp
  cases ht with
  | first _ other ha hr | joined _ other record ha hr ho =>
    simp only [spawn, attach, mem_ids_put]
    rw [loaded_called _ _ _ _ _ (by simp), h]
  | answered _ other outcome ha hr =>
    simp only
    rw [loaded_called _ _ _ _ _ (by simp), ← h, hin other _ hr]
  | dropped other outcome hr =>
    have hne : id ≠ other ↔ LoadEvent.invalidated (X := X) other true ≠ .invalidated id true := by
      simp [eq_comm]
    simp [note, Registry.remove_ids, loaded_snoc, h, hne, and_comm]
  | began t other waiters hk hr =>
    simp only [note, mem_ids_put]
    rw [loaded_append _ _ _ (by simp), hin other _ hr, h]
  | failed t other waiters failure hk hr | evaluated t other waiters result hk hr =>
    simp only [settled, mem_ids_put]
    rw [loaded_append _ _ _ (by simp), hin other _ hr, h]
  | paused => exact h
  | skipped => exact h
  | refused | kept | gaveUp | fetched | resumed | aborted =>
    simp only [note, removeCall]
    rw [loaded_append _ _ _ (by simp), h]

theorem Reachable.loaded {s : Loads X} (h : Reachable s) (id : ModuleId) :
    id ∈ s.registry.ids ↔ s.history.Loaded id := by
  have hstart : id ∈ (start : Loads X).registry.ids ↔ (start : Loads X).history.Loaded id := by
    simp [start, Registry.empty, Registry.ids, History.Loaded]
  exact h.induct (P := fun s => id ∈ s.registry.ids ↔ s.history.Loaded id) hstart
    fun _ _ _ hr hp hs => turn_loaded (hr.turn hs) id hp

/-- A turn after any run moves the record of each identifier by at most one step of its life,
and only that of the identifier the turn is about. -/
theorem record_life_cycle (steps : List (LoadStep X)) (s s' : Loads X) (a : LoadStep X)
    (h : start.run steps = some s) (ha : s.step a = some s') :
    (∀ id, s'.registry.state? id = s.registry.state? id ∨
      RecordState.Moves (s.registry.state? id) (s'.registry.state? id)) ∧
    (∀ id record, s.registry.find? id = some record → record.isSettled →
      s'.registry.find? id = some record ∨
        a = .invalidate id ∧ s'.registry.find? id = none) ∧
    (∀ t task, s.task? t = some task → s'.task? t = none →
      (∃ waiters, s.registry.find? task.id = some (.loading waiters)) ∧
        ∃ outcome, s'.registry.find? task.id = some (.ofOutcome outcome)) ∧
    (∀ id, a = .invalidate id →
      ∃ isDropped, s'.history = s.history ++ [.invalidated id isDropped] ∧
        (isDropped = true ↔ ∃ record, s.registry.find? id = some record ∧ record.isSettled) ∧
        (isDropped = false → s' = s.note [.invalidated id false])) ∧
    (∀ specifier base failure, a = .loadSpecifier specifier base →
      ModuleId.resolve specifier base = .error failure →
      s' = s.note [.refused specifier failure]) ∧
    (∀ id, s.subject? a ≠ some id → s'.registry.find? id = s.registry.find? id) ∧
    s.registry.ids.Nodup ∧ s.registry.size = s.registry.ids.length ∧
    ∀ id, id ∈ s.registry.ids ↔ s.history.Loaded id := by
  have hs : Reachable s := ⟨steps, h⟩
  have ht := hs.turn ha
  refine ⟨fun id => (turn_change ht id).moves, ?_, fun t task => turn_settles ht, ?_, ?_,
    fun id => turn_frame ht, hs.valid.ids, ?_, hs.loaded⟩
  · intro id record hr hs
    have hc := turn_change ht id
    rw [hr] at hc
    exact hc.kept hs
  · rintro id rfl
    exact turn_invalidated ht
  · rintro specifier base failure rfl hf
    have hs : s.loadSpecifier specifier base = s' := Option.some.inj ha
    simpa [loadSpecifier, hf] using hs.symm
  · simp [Registry.size, Registry.ids]

/-- A settled record that is dropped, while another load is on its way. -/
theorem dropped_beside_loading :
    let a : ModuleId := ⟨⟨['m'], none, .rooted [['a']], none⟩⟩
    let b : ModuleId := ⟨⟨['m'], none, .rooted [['b']], none⟩⟩
    ∃ s s' : Loads Nat,
      start.run [.load a, .load b, .begin 0, .begin 1, .endFetch 0 (.ok "text"),
        .endEvaluation 0 (.ok 7)] = some s ∧
      s.step (.invalidate a) = some s' ∧
      RecordState.Moves (s.registry.state? a) (s'.registry.state? a) ∧
      s'.registry.find? b = s.registry.find? b ∧ s.history.Loaded a := by
  intro a b
  have hrun : (start.run [.load a, .load b, .begin 0, .begin 1, .endFetch 0 (.ok "text"),
      .endEvaluation 0 (.ok 7)] : Option (Loads Nat)).map (fun s =>
        (s.registry.state? a, (s.invalidate a).registry.state? a, s.registry.ids)) =
      some (some .ready, none, [a, b]) := by decide +kernel
  obtain ⟨s, hs, hm⟩ := Option.map_eq_some_iff.mp hrun
  simp only [Prod.mk.injEq] at hm
  obtain ⟨hmoves, -, -, -, -, hframe, -, -, hloaded⟩ :=
    record_life_cycle _ s (s.invalidate a) (.invalidate a) hs rfl
  refine ⟨s, s.invalidate a, hs, rfl, ?_, hframe b ?_, (hloaded a).mp ?_⟩
  · exact (hmoves a).resolve_left (by rw [hm.1, hm.2.1]; decide)
  · simp only [subject?]
    decide
  · rw [hm.2.2]
    exact List.mem_cons_self

end Loads

end ScriptHost
