import ScriptHost.Proofs.Registry.Records
import ScriptHost.Registry.History

/-!
# Records and their tasks

For each identifier the record, the tasks under way and the current generation
fit together: a pending record has one task, which has not begun, a loading one
has one task, which has, and a record that is absent or settled has none. No
turn upsets this, whichever turns come between the two halves of a task, and a
turn about one identifier leaves the others as they are.
-/

set_option autoImplicit false

namespace ScriptHost.Loads
open ScriptHost.Association

variable {X : Type}

/-- What a state shows of one identifier. -/
structure View (X : Type) where
  record : Option (Record X CallId)
  tasks : List (CallId × LoadTask)
  life : Life X

def view (s : Loads X) (id : ModuleId) : View X :=
  ⟨s.registry.find? id, s.tasksOf id, s.history.life id⟩

/-- A generation whose outcome is there and was sent to all that were attached. -/
structure Closed (g : Generation X) (outcome : LoadResult X) : Prop where
  started : g.started = 1
  settled : g.outcome? = some outcome
  sent : g.sent = g.attached.map (·, outcome)

/-- A generation that waits: nothing was evaluated and nothing was sent. -/
structure Open (g : Generation X) (started : Nat) (fetched : List (LoadResult String)) :
    Prop where
  started : g.started = started
  fetched : g.fetched = fetched
  evaluated : g.evaluated = []
  sent : g.sent = []

inductive Coupled (id : ModuleId) :
    Option (Record X CallId) → List (CallId × LoadTask) → Generation X → Prop
  | absent : Coupled id none [] .empty
  | pending (t : CallId) (g : Generation X) (hg : Open g 0 []) :
      Coupled id (some (.pending g.attached)) [(t, ⟨id, .spawned⟩)] g
  | fetching (t : CallId) (g : Generation X) (hg : Open g 1 []) :
      Coupled id (some (.loading g.attached)) [(t, ⟨id, .fetching⟩)] g
  | evaluating (t : CallId) (g : Generation X) (source : String) (hg : Open g 1 [.ok source]) :
      Coupled id (some (.loading g.attached)) [(t, ⟨id, .evaluating⟩)] g
  | settled (g : Generation X) (outcome : LoadResult X) (hg : Closed g outcome) :
      Coupled id (some (.ofOutcome outcome)) [] g

structure Sound (id : ModuleId) (v : View X) : Prop where
  past : ∀ g ∈ v.life.past, ∃ outcome, Closed g outcome
  current : Coupled id v.record v.tasks v.life.current

structure Valid (s : Loads X) : Prop where
  ids : s.registry.ids.Nodup
  keys : (s.tasks.map (·.1)).Nodup
  old : ∀ task ∈ s.tasks, task.1 < s.issued
  sound : ∀ id, Sound id (s.view id)

theorem life_append (h rest : History X) (id : ModuleId) :
    History.life (h ++ rest) id = rest.foldl (Life.note id) (h.life id) :=
  List.foldl_append

theorem life_other (h rest : History X) (id : ModuleId)
    (hr : ∀ e ∈ rest, e.subject? ≠ some id) : History.life (h ++ rest) id = h.life id := by
  rw [life_append]
  induction rest with
  | nil => rfl
  | cons e rest ih =>
    have he : Life.note id (h.life id) e = h.life id := by simp [Life.note, hr e (by simp)]
    rw [List.foldl_cons, he]
    exact ih fun e' h' => hr e' (by simp [h'])

section Collect

variable {A : Type} (f : Generation X → List A) (q : LoadEvent X → Option A)

theorem collected_note (hempty : f .empty = [])
    (hnote : ∀ g e, f (g.note e) = f g ++ (q e).toList) (id : ModuleId) (l : Life X)
    (e : LoadEvent X) :
    (Life.note id l e).generations.flatMap f =
      l.generations.flatMap f ++ (if e.subject? = some id then q e else none).toList := by
  by_cases hs : e.subject? = some id
  · simp only [Life.note, hs, if_pos]
    split
    · next other =>
      have hq := hnote .empty (.invalidated other true)
      simp only [Generation.note, hempty] at hq
      simp [Life.generations, hempty, Option.toList_eq_nil_iff.mp hq.symm]
    · simp [Life.generations, hnote]
  · simp [Life.note, hs]

theorem collected_life (hempty : f .empty = [])
    (hnote : ∀ g e, f (g.note e) = f g ++ (q e).toList) (id : ModuleId) (h : History X) :
    (h.generations id).flatMap f =
      h.filterMap fun e => if e.subject? = some id then q e else none := by
  suffices H : ∀ l : Life X, (h.foldl (Life.note id) l).generations.flatMap f =
      l.generations.flatMap f ++ h.filterMap fun e => if e.subject? = some id then q e else none by
    have hstart : (Life.start : Life X).generations.flatMap f = [] := by
      simp [Life.start, Life.generations, hempty]
    rw [History.generations, History.life, H, hstart, List.nil_append]
  intro l
  induction h generalizing l with
  | nil => simp
  | cons e h ih =>
    rw [List.foldl_cons, ih, collected_note f q hempty hnote, List.append_assoc]
    congr 1
    rw [List.filterMap_cons]
    cases (if e.subject? = some id then q e else none) <;> rfl

end Collect

/-- Nothing about an identifier changed if its record and its tasks did not and no event was
about it. -/
theorem view_other {s s' : Loads X} {id : ModuleId} (rest : History X)
    (hh : s'.history = s.history ++ rest) (hr : s'.registry.find? id = s.registry.find? id)
    (ht : s'.tasksOf id = s.tasksOf id) (he : ∀ e ∈ rest, e.subject? ≠ some id) :
    s'.view id = s.view id := by
  simp only [view, hr, ht, hh, life_other _ _ _ he]

theorem task_mem {s : Loads X} {t : CallId} {task : LoadTask} (h : s.task? t = some task) :
    (t, task) ∈ s.tasksOf task.id := by
  simp [tasksOf, mem_of_lookup h]

theorem Coupled.tasks_length {id : ModuleId} {record : Option (Record X CallId)}
    {tasks : List (CallId × LoadTask)} {g : Generation X} (hc : Coupled id record tasks g) :
    tasks.length ≤ 1 := by
  cases hc <;> simp

theorem tasksOf_task {s : Loads X} (hv : Valid s) {t : CallId} {task : LoadTask}
    (h : s.task? t = some task) : s.tasksOf task.id = [(t, task)] := by
  have hm := task_mem h
  have hl : (s.tasksOf task.id).length ≤ 1 := (hv.sound task.id).current.tasks_length
  match hs : s.tasksOf task.id with
  | [] => simp [hs] at hm
  | [pair] => rw [hs, List.mem_singleton] at hm; rw [hm]
  | _ :: _ :: _ => simp [hs] at hl

theorem other_task_ne {s : Loads X} (hv : Valid s) {t : CallId} {task : LoadTask}
    (h : s.task? t = some task) {other : ModuleId} (ho : other ≠ task.id) :
    ∀ pair ∈ s.tasksOf other, pair.1 ≠ t := by
  intro pair hp he
  obtain ⟨hmem, hid⟩ := List.mem_filter.mp hp
  have hl : s.task? pair.1 = some pair.2 := lookup_of_mem hv.keys hmem
  rw [he, h, Option.some.injEq] at hl
  have hid : pair.2.id = other := by simpa using hid
  exact ho (by rw [hl, hid])

theorem enterPhase_keys (phase : Phase) (t : CallId) (tasks : List (CallId × LoadTask)) :
    (enterPhase phase t tasks).map (·.1) = tasks.map (·.1) := by
  simp only [enterPhase, List.map_map]
  apply List.map_congr_left
  intro pair _
  by_cases hp : pair.1 = t <;> simp [hp]

theorem enterPhase_filter (phase : Phase) (t : CallId) (id : ModuleId)
    (tasks : List (CallId × LoadTask)) :
    (enterPhase phase t tasks).filter (·.2.id = id) =
      enterPhase phase t (tasks.filter (·.2.id = id)) := by
  rw [enterPhase, List.filter_map, enterPhase]
  congr 1
  apply List.filter_congr
  intro pair _
  by_cases hp : pair.1 = t <;> simp [hp]

theorem enterPhase_absent (phase : Phase) (t : CallId) (tasks : List (CallId × LoadTask))
    (h : ∀ pair ∈ tasks, pair.1 ≠ t) : enterPhase phase t tasks = tasks := by
  rw [enterPhase]
  conv => rhs; rw [← List.map_id tasks]
  apply List.map_congr_left
  intro pair hp
  simp [h pair hp]

theorem enterPhase_lookup (phase : Phase) (n t : CallId) (tasks : List (CallId × LoadTask)) :
    (enterPhase phase n tasks).lookup t =
      (tasks.lookup t).map fun task => if t = n then { task with phase } else task := by
  rw [← lookup_changed (fun key (task : LoadTask) => if key = n then { task with phase } else task)]
  congr 1
  apply List.map_congr_left
  intro pair _
  by_cases hp : pair.1 = n <;> simp [hp]

theorem tasksOf_removed (s : Loads X) (t : CallId) (id : ModuleId) :
    (s.tasks.filter (·.1 ≠ t)).filter (·.2.id = id) = (s.tasksOf id).filter (·.1 ≠ t) := by
  simp only [tasksOf, List.filter_filter]
  apply List.filter_congr
  intro pair _
  exact Bool.and_comm _ _

theorem Coupled.of_none {id : ModuleId} {tasks : List (CallId × LoadTask)} {g : Generation X}
    (h : Coupled id none tasks g) : tasks = [] ∧ g = .empty := by
  cases h
  exact ⟨rfl, rfl⟩

theorem Coupled.of_pending {id : ModuleId} {tasks : List (CallId × LoadTask)}
    {g : Generation X} {waiters : List CallId}
    (h : Coupled id (some (.pending waiters)) tasks g) :
    ∃ t, tasks = [(t, ⟨id, .spawned⟩)] ∧ g.attached = waiters ∧ Open g 0 [] := by
  generalize hr : some (Record.pending waiters) = record at h
  cases h with
  | absent => simp at hr
  | pending t g hg => exact ⟨t, rfl, by simpa using hr.symm, hg⟩
  | fetching t g hg => simp at hr
  | evaluating t g source hg => simp at hr
  | settled g outcome hg => cases outcome <;> simp [Record.ofOutcome] at hr

theorem Coupled.of_loading {id : ModuleId} {tasks : List (CallId × LoadTask)}
    {g : Generation X} {waiters : List CallId}
    (h : Coupled id (some (.loading waiters)) tasks g) :
    g.attached = waiters ∧ ((∃ t, tasks = [(t, ⟨id, .fetching⟩)] ∧ Open g 1 []) ∨
      ∃ t source, tasks = [(t, ⟨id, .evaluating⟩)] ∧ Open g 1 [.ok source]) := by
  generalize hr : some (Record.loading waiters) = record at h
  cases h with
  | absent => simp at hr
  | pending t g hg => simp at hr
  | fetching t g hg => exact ⟨by simpa using hr.symm, .inl ⟨t, rfl, hg⟩⟩
  | evaluating t g source hg => exact ⟨by simpa using hr.symm, .inr ⟨t, source, rfl, hg⟩⟩
  | settled g outcome hg => cases outcome <;> simp [Record.ofOutcome] at hr

theorem Coupled.of_settled {id : ModuleId} {tasks : List (CallId × LoadTask)}
    {g : Generation X} {outcome : LoadResult X}
    (h : Coupled id (some (.ofOutcome outcome)) tasks g) : tasks = [] ∧ Closed g outcome := by
  generalize hr : some (Record.ofOutcome outcome) = record at h
  cases h with
  | absent => simp at hr
  | pending t g hg => cases outcome <;> simp [Record.ofOutcome] at hr
  | fetching t g hg => cases outcome <;> simp [Record.ofOutcome] at hr
  | evaluating t g source hg => cases outcome <;> simp [Record.ofOutcome] at hr
  | settled g other hg =>
    have ho : some outcome = some other := by
      rw [← Registry.outcome_ofOutcome (W := CallId) outcome, Option.some.inj hr,
        Registry.outcome_ofOutcome]
    cases ho
    exact ⟨rfl, hg⟩

end ScriptHost.Loads
