import ScriptHost.Proofs.Registry.Coupling

/-!
# Turns

What a turn of loads can be, with the record it finds and everything it changes.
In a valid state a task finds the record in the form in which it was left, so
the last turn of a task always replaces a loading record.
-/

set_option autoImplicit false

namespace ScriptHost

variable {X : Type}

def LoadStep.target? : LoadStep X → Option ModuleId
  | .load id => some id
  | .loadSpecifier specifier base => (ModuleId.resolve specifier base).toOption
  | _ => none

namespace Loads

def settled (s : Loads X) (t : CallId) (id : ModuleId) (waiters : List CallId)
    (event : LoadEvent X) (outcome : LoadResult X) : Loads X :=
  { s with
    registry := s.registry.put id (.ofOutcome outcome)
    tasks := s.tasks.filter (·.1 ≠ t)
    calls := deliver outcome waiters s.calls
    queue := s.queue ++ waiters.filter fun c => (s.call? c).isSome
    history := s.history ++ event :: waiters.map (.sent · id outcome) }

inductive Turn (s : Loads X) : LoadStep X → Loads X → Prop
  | first (a : LoadStep X) (id : ModuleId) (ha : a.target? = some id)
      (hr : s.registry.find? id = none) :
      Turn s a ((s.attach (s.registry.put id (.pending [s.issued])) id).spawn s.issued id)
  | joined (a : LoadStep X) (id : ModuleId) (record : Record X CallId)
      (ha : a.target? = some id) (hr : s.registry.find? id = some record)
      (ho : record.outcome? = none) :
      Turn s a (s.attach (s.registry.put id (record.join s.issued)) id)
  | answered (a : LoadStep X) (id : ModuleId) (outcome : LoadResult X)
      (ha : a.target? = some id) (hr : s.registry.find? id = some (.ofOutcome outcome)) :
      Turn s a { s with
        issued := s.issued + 1
        history := s.history ++ [.called s.issued id, .returned s.issued outcome] }
  | refused (specifier : String) (base : ModuleId) (failure : LoadFailure)
      (hf : ModuleId.resolve specifier base = .error failure) :
      Turn s (.loadSpecifier specifier base) (s.note [.refused specifier failure])
  | dropped (id : ModuleId) (outcome : LoadResult X)
      (hr : s.registry.find? id = some (.ofOutcome outcome)) :
      Turn s (.invalidate id)
        ({ s with registry := s.registry.remove id }.note [.invalidated id true])
  | kept (id : ModuleId) (hr : (s.registry.find? id).bind Record.outcome? = none) :
      Turn s (.invalidate id) (s.note [.invalidated id false])
  | gaveUp (c : CallId) (call : Call X) (hc : s.call? c = some call) :
      Turn s (.giveUp c) ((s.removeCall c).note [.givenUp c])
  | began (t : CallId) (id : ModuleId) (waiters : List CallId)
      (ht : s.task? t = some ⟨id, .spawned⟩)
      (hr : s.registry.find? id = some (.pending waiters)) :
      Turn s (.begin t) ({ s with
        registry := s.registry.put id (.loading waiters)
        tasks := enterPhase .fetching t s.tasks }.note [.fetchStarted id])
  | paused (t : CallId) : Turn s (.suspend t) s
  | fetched (t : CallId) (id : ModuleId) (waiters : List CallId) (source : String)
      (ht : s.task? t = some ⟨id, .fetching⟩)
      (hr : s.registry.find? id = some (.loading waiters)) :
      Turn s (.endFetch t (.ok source))
        ({ s with tasks := enterPhase .evaluating t s.tasks }.note
          [.fetchEnded id (.ok source), .evaluationStarted id source])
  | failed (t : CallId) (id : ModuleId) (waiters : List CallId) (failure : LoadFailure)
      (ht : s.task? t = some ⟨id, .fetching⟩)
      (hr : s.registry.find? id = some (.loading waiters)) :
      Turn s (.endFetch t (.error failure))
        (s.settled t id waiters (.fetchEnded id (.error failure)) (.error failure))
  | evaluated (t : CallId) (id : ModuleId) (waiters : List CallId)
      (result : Except EngineFailure X) (ht : s.task? t = some ⟨id, .evaluating⟩)
      (hr : s.registry.find? id = some (.loading waiters)) :
      Turn s (.endEvaluation t result)
        (s.settled t id waiters (.evaluationEnded id result) (outcomeOf result))
  | resumed (c : CallId) (queue : List CallId) (id : ModuleId) (outcome : LoadResult X)
      (hq : s.queue = c :: queue) (hc : s.call? c = some ⟨id, some outcome⟩) :
      Turn s .resume (({ s with queue }.removeCall c).note [.returned c outcome])
  | skipped (c : CallId) (queue : List CallId) (hq : s.queue = c :: queue)
      (hc : ∀ id outcome, s.call? c ≠ some ⟨id, some outcome⟩) :
      Turn s .resume { s with queue }
  | aborted (c : CallId) (id : ModuleId) (hc : s.call? c = some ⟨id, none⟩)
      (hw : s.isAwaited c = false) :
      Turn s (.abort c) ((s.removeCall c).note
        [.aborted c, .returned c (.error (.evaluation (abortedText id)))])

/-- The record that a task finds, by how far it came. -/
inductive Coupled.Found (g : Generation X) : Phase → Option (Record X CallId) → Prop
  | spawned (hg : Open g 0 []) : Found g .spawned (some (.pending g.attached))
  | fetching (hg : Open g 1 []) : Found g .fetching (some (.loading g.attached))
  | evaluating (source : String) (hg : Open g 1 [.ok source]) :
      Found g .evaluating (some (.loading g.attached))

theorem Coupled.of_task {id : ModuleId} {record : Option (Record X CallId)} {t : CallId}
    {task : LoadTask} {g : Generation X} (h : Coupled id record [(t, task)] g) :
    Coupled.Found g task.phase record := by
  cases h with
  | pending t g hg => exact .spawned hg
  | fetching t g hg => exact .fetching hg
  | evaluating t g source hg => exact .evaluating source hg

theorem task_found {s : Loads X} (hv : Valid s) {t : CallId} {task : LoadTask}
    (h : s.task? t = some task) :
    Coupled.Found (s.history.life task.id).current task.phase (s.registry.find? task.id) := by
  have hc : Coupled task.id _ (s.tasksOf task.id) _ := (hv.sound task.id).current
  rw [tasksOf_task hv h] at hc
  exact hc.of_task

theorem settle_settled {s : Loads X} {id : ModuleId} {waiters : List CallId} (t : CallId)
    (event : LoadEvent X) (outcome : LoadResult X)
    (h : s.registry.find? id = some (.loading waiters)) :
    (s.note [event]).settle t id outcome = s.settled t id waiters event outcome := by
  simp [settle, settled, note, Registry.settle, h, Record.waiters, call?]

theorem turn_of_load (s : Loads X) (a : LoadStep X) (id : ModuleId) (ha : a.target? = some id) :
    Turn s a (s.load id) := by
  cases hr : s.registry.find? id with
  | none => simpa [load, Registry.load, hr] using Turn.first a id ha hr
  | some record =>
    cases ho : record.outcome? with
    | none => simpa [load, Registry.load, hr, ho] using Turn.joined a id record ha hr ho
    | some outcome =>
      rw [Registry.eq_ofOutcome ho] at hr
      simpa [load, Registry.load, hr, Registry.outcome_ofOutcome]
        using Turn.answered a id outcome ha hr

theorem turn_of_invalidate (s : Loads X) (id : ModuleId) :
    Turn s (.invalidate id) (s.invalidate id) := by
  cases ho : (s.registry.find? id).bind Record.outcome? with
  | none =>
    simpa [invalidate, Registry.invalidate_kept ho] using Turn.kept id ho
  | some outcome =>
    obtain ⟨record, hr, ho⟩ := Option.bind_eq_some_iff.mp ho
    have hd := Turn.dropped id outcome (Registry.eq_ofOutcome ho ▸ hr)
    simpa [invalidate, Registry.invalidate_settled hr ho] using hd

theorem turn_of_begin {s s' : Loads X} (hv : Valid s) {t : CallId}
    (h : s.begin t = some s') : Turn s (.begin t) s' := by
  unfold begin at h
  split at h
  · next id ht =>
    generalize hr : s.registry.find? id = record
    have hf := task_found hv ht
    simp only [hr] at hf
    cases hf with
    | spawned =>
      obtain rfl := Option.some.inj h
      simpa [Registry.begin, hr] using Turn.began t id _ ht hr
  · simp at h

theorem found_loading {s : Loads X} (hv : Valid s) {t : CallId} {task : LoadTask}
    (h : s.task? t = some task) (hp : task.phase ≠ .spawned) :
    ∃ waiters, s.registry.find? task.id = some (.loading waiters) := by
  generalize hr : s.registry.find? task.id = record
  have hf := task_found hv h
  rw [hr] at hf
  generalize task.phase = phase at hf hp
  cases hf with
  | spawned => exact absurd rfl hp
  | fetching => exact ⟨_, rfl⟩
  | evaluating => exact ⟨_, rfl⟩

theorem turn_of_endFetch {s s' : Loads X} (hv : Valid s) {t : CallId}
    {result : LoadResult String} (h : s.endFetch t result = some s') :
    Turn s (.endFetch t result) s' := by
  unfold endFetch at h
  split at h
  · next id ht =>
    obtain ⟨waiters, hr⟩ := found_loading hv ht (by simp)
    cases result with
    | error failure =>
      obtain rfl := Option.some.inj h
      rw [settle_settled t _ _ hr]
      exact Turn.failed t id waiters failure ht hr
    | ok source =>
      obtain rfl := Option.some.inj h
      exact Turn.fetched t id waiters source ht hr
  · simp at h

theorem turn_of_endEvaluation {s s' : Loads X} (hv : Valid s) {t : CallId}
    {result : Except EngineFailure X} (h : s.endEvaluation t result = some s') :
    Turn s (.endEvaluation t result) s' := by
  unfold endEvaluation at h
  split at h
  · next id ht =>
    obtain ⟨waiters, hr⟩ := found_loading hv ht (by simp)
    obtain rfl := Option.some.inj h
    rw [settle_settled t _ _ hr]
    exact Turn.evaluated t id waiters result ht hr
  · simp at h

theorem turn_of_resume {s s' : Loads X} (h : s.resume = some s') : Turn s .resume s' := by
  unfold resume at h
  split at h
  · simp at h
  · next c queue hq =>
    split at h
    · next id outcome hc =>
      obtain rfl := Option.some.inj h
      exact Turn.resumed c queue id outcome hq hc
    · next hc =>
      obtain rfl := Option.some.inj h
      exact Turn.skipped c queue hq hc

theorem turn_of_abort {s s' : Loads X} {c : CallId} (h : s.abort c = some s') :
    Turn s (.abort c) s' := by
  unfold abort at h
  split at h
  · next id hc =>
    split at h
    · simp at h
    · next hw =>
      obtain rfl := Option.some.inj h
      exact Turn.aborted c id hc (by simpa using hw)
  · simp at h

theorem turn_of_step {s s' : Loads X} (hv : Valid s) {a : LoadStep X}
    (h : s.step a = some s') : Turn s a s' := by
  cases a with
  | load id =>
    obtain rfl := Option.some.inj h
    exact turn_of_load s _ id rfl
  | loadSpecifier specifier base =>
    obtain rfl := Option.some.inj h
    cases hf : ModuleId.resolve specifier base with
    | error failure => simpa [loadSpecifier, hf] using Turn.refused specifier base failure hf
    | ok id =>
      simpa [loadSpecifier, hf] using turn_of_load s (.loadSpecifier specifier base) id
        (by simp [LoadStep.target?, hf, Except.toOption])
  | invalidate id =>
    obtain rfl := Option.some.inj h
    exact turn_of_invalidate s id
  | giveUp c =>
    simp only [step, giveUp] at h
    split at h
    · next call hc =>
      obtain rfl := Option.some.inj h
      exact Turn.gaveUp c call hc
    · simp at h
  | begin t => exact turn_of_begin hv h
  | suspend t =>
    have hs : s = s' := by
      simp only [step, suspend] at h
      split at h <;> simp_all
    exact hs ▸ Turn.paused t
  | endFetch t result => exact turn_of_endFetch hv h
  | endEvaluation t result => exact turn_of_endEvaluation hv h
  | resume => exact turn_of_resume h
  | abort c => exact turn_of_abort h

end Loads

end ScriptHost
