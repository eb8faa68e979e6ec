import ScriptHost.Proofs.Engine.Loop

/-!
# States that runs reach

Around the steps of its code a run begins phases, keeps mains, moves the record
of its module and says what escaped. Errors of failed imports are numbered as
they are made, so that in any state that runs reach an error tells its import.
-/

set_option autoImplicit false

namespace ScriptHost.Engine

inductive RunStep (s : State) : State → Prop
  | turn {s' : State} (h : Step s s') : RunStep s s'
  | begun (module : ModuleId) (isMain : Bool) :
      RunStep s { s with failure := none, trail := s.trail ++ [.begun module isMain] }
  | escaped (value : Value) :
      RunStep s { s with failure := none, trail := s.trail ++ [.escaped value] }
  | mainKept (id : ModuleId) (f : Callable) :
      RunStep s { s with mains := (id, f) :: s.mains.filter (·.1 ≠ id) }
  | recordChanged (registry : Registry ModuleId Unit) (entries : List Entry) :
      RunStep s { s with registry, log := s.log ++ entries }

section Walks

theorem walks_turns {α : Type} {code : Run α} (h : Turns code) : WalksBy RunStep code :=
  fun s => Relation.ReflTransGen.mono (fun _ _ => RunStep.turn) _ _ (h s)

/-- The kinds of steps of runs: those of the loop, and all between its phases that leave modules as
they are. -/
class Conducts (R : State → State → Prop) : Prop extends Loops R where
  between {s s' : State} (h : RunStep s s') (hm : SameModules s s') : R s s'

instance : Conducts RunStep where
  quiet h _ := .turn (.code h)
  ended _ _ _ := walks_turns (turns_code walks_endThread)
  loads _ _ _ := walks_turns (turns_code walks_loadInstance)
  turn h _ := .turn h
  between h _ := h

variable {R : State → State → Prop} [Conducts R]

theorem walks_setOut {module : ModuleId} {isMain : Bool} : WalksBy R (setOut module isMain) :=
  fun _ => .single (Conducts.between (.begun module isMain) ⟨rfl, rfl⟩)

theorem walks_describe {value : Value} : WalksBy R (describe value) :=
  fun _ => .single (Conducts.between (.escaped value) ⟨rfl, rfl⟩)

theorem walks_keepMain {id : ModuleId} (main? : Option Callable) :
    WalksBy R (main?.forM (keepMain id)) := by
  cases main? with
  | none => exact walks_pure ()
  | some f => exact walks_modify fun _ => Conducts.between (.mainKept id f) ⟨rfl, rfl⟩

theorem walks_settleRecord {id : ModuleId} (outcome : Option (LoadResult ModuleId)) :
    WalksBy R (outcome.forM (settleRecord id)) := by
  cases outcome with
  | none => exact walks_pure ()
  | some result =>
    intro s
    have h := RunStep.recordChanged (s := s) (s.registry.settle id result).1 []
    rw [List.append_nil] at h
    exact .single (Conducts.between h ⟨rfl, rfl⟩)

theorem walks_callMain {id : ModuleId} {f : Callable} {argument : EntryArgument} {limit : Nat} :
    WalksBy R (callMain id f argument limit) := by
  refine walks_bind walks_setOut fun _ => walks_bind turns_awaitMain ?_
  intro outcome
  split
  · exact walks_pure _
  · exact turns_finish
  · exact walks_bind walks_describe fun _ => walks_pure _

theorem walks_runLoaded {view : HostView} {id : ModuleId} {limit : Nat}
    {loaded : LoadResult ModuleId} : WalksBy R (runLoaded view id limit loaded) := by
  refine walks_get fun s => ?_
  split
  · exact walks_from_pure _
  · exact walks_callMain s

omit [Conducts R]

theorem walks_evaluateSource {id : ModuleId} {source : String} {limit : Nat} :
    WalksBy RunStep (evaluateSource id source limit) := by
  refine walks_bind walks_setOut fun _ => walks_bind (walks_turns turns_evaluateEntry) ?_
  intro outcome
  split
  · exact walks_pure _
  · exact walks_bind (walks_keepMain _) fun _ => walks_pure _
  · exact walks_bind walks_describe fun _ => walks_pure _

theorem walks_outcomeOf {id : ModuleId} {source : LoadResult String} {limit : Nat} :
    WalksBy RunStep (outcomeOf id source limit) := by
  cases source with
  | error failure => exact walks_pure _
  | ok source => exact walks_evaluateSource

theorem walks_loadEntry {id : ModuleId} {limit : Nat} :
    WalksBy RunStep (loadEntry id limit) := by
  refine walks_get fun s => ?_
  split
  · exact walks_from_pure _
  · exact walks_from_pure _
  · refine walks_from_set (.recordChanged _ _) ?_
    exact walks_bind walks_outcomeOf
      (fun _ => walks_bind (walks_settleRecord _) fun _ => walks_pure _) _

theorem walks_runEntry {view : HostView} {limit : Nat} :
    WalksBy RunStep (runEntry view limit) := by
  refine walks_get fun s => ?_
  split
  · exact walks_bind (walks_turns (turns_code walks_writeText)) (fun _ => walks_pure _) s
  · exact walks_from_pure _
  · refine walks_bind walks_loadEntry (fun outcome => ?_) s
    split
    · exact walks_pure _
    · exact walks_runLoaded

end Walks

/-- A run within a duration is the code of its entry with a new host. -/
def entryRun (duration : Nat) (s : State) (view : HostView) :
    EStateM.Result Value State (Option RunResult) :=
  (runEntry view ((fresh s view).host.schedule.now + duration)).run (fresh s view)

theorem runWithin_left (duration : Nat) (s : State) (view : HostView) :
    (runWithin duration s view).1 = left (entryRun duration s view) := by
  unfold runWithin entryRun
  dsimp only
  split <;> rename_i h <;> rw [h] <;> rfl

theorem runWithin_result {duration : Nat} {s s' : State} {view : HostView}
    {result : Option RunResult} (h : entryRun duration s view = .ok result s') :
    (runWithin duration s view).2.result = result := by
  unfold runWithin
  unfold entryRun at h
  dsimp only
  rw [h]

theorem runWithin_failed {duration : Nat} {s s' : State} {view : HostView} {value : Value}
    (h : entryRun duration s view = .error value s') :
    (runWithin duration s view).2.result = none := by
  unfold runWithin
  unfold entryRun at h
  dsimp only
  rw [h]

/-- What an engine comes to in runs one after the other. -/
inductive Reached : State → Prop
  | start (system : SystemStart) (config : Config) (sources : Sources) (view : HostView) :
      Reached (startIn system config sources view)
  | ran {s : State} (duration : Nat) (view : HostView) (h : Reached s) :
      Reached (runWithin duration s view).1

/-- Every import that failed has an error of its own, which names it. -/
structure Numbered (s : State) : Prop where
  made : ∀ i v, .importFailed i v ∈ s.trail → ∃ ref complaint,
    ref ≤ s.issued ∧ v = importError ref complaint i.failure ∧ Names complaint i.name
  unique : ∀ i j v, .importFailed i v ∈ s.trail → .importFailed j v ∈ s.trail → j = i

section Numbers

variable {s s' : State}

theorem Numbered.of_same (h : Numbered s) (hi : s.issued ≤ s'.issued)
    (ht : ∀ i v, .importFailed i v ∈ s'.trail → .importFailed i v ∈ s.trail) : Numbered s' where
  made i v hv := by
    obtain ⟨ref, complaint, hr, hm⟩ := h.made i v (ht i v hv)
    exact ⟨ref, complaint, Nat.le_trans hr hi, hm⟩
  unique i j v hv hw := h.unique i j v (ht i v hv) (ht j v hw)

theorem Numbered.next_new (h : Numbered s) (i : ImportFailure) (complaint : String)
    (failure : LoadFailure) :
    .importFailed i (importError (s.issued + 1) complaint failure) ∉ s.trail := by
  intro hv
  obtain ⟨ref, text, hr, he, -⟩ := h.made _ _ hv
  simp only [importError, Value.error.injEq] at he
  omega

theorem numbered_failedImport (h : Numbered s) {name complaint : String} (failure : LoadFailure)
    (hc : Names complaint name) :
    Numbered (s.afterFailedImport name complaint failure) := by
  constructor
  · intro i v hv
    obtain hv | hv := List.mem_append.mp hv
    · obtain ⟨ref, text, hr, hm⟩ := h.made i v hv
      exact ⟨ref, text, Nat.le_succ_of_le hr, hm⟩
    · rw [List.mem_singleton, Milestone.importFailed.injEq] at hv
      obtain ⟨rfl, rfl⟩ := hv
      exact ⟨s.issued + 1, complaint, Nat.le_refl _, rfl, hc⟩
  · intro i j v hv hw
    obtain hv | hv := List.mem_append.mp hv
    · obtain hw | hw := List.mem_append.mp hw
      · exact h.unique i j v hv hw
      · rw [List.mem_singleton, Milestone.importFailed.injEq] at hw
        exact absurd (hw.2 ▸ hv) (h.next_new _ _ _)
    · rw [List.mem_singleton, Milestone.importFailed.injEq] at hv
      obtain hw | hw := List.mem_append.mp hw
      · exact absurd (hv.2 ▸ hw) (h.next_new _ _ _)
      · rw [List.mem_singleton, Milestone.importFailed.injEq] at hw
        rw [hv.1, hw.1]

theorem codeStep_issued (h : CodeStep s s') : s.issued ≤ s'.issued := by
  cases h with
  | inner cells issued instances threads jobs hi => exact hi
  | importFailed name complaint failure hc => exact Nat.le_succ _
  | accepted host f ht => exact Nat.le_succ _
  | settled host f answer ht => exact Nat.le_succ _
  | _ => exact Nat.le_refl _

theorem step_issued (h : Step s s') : s.issued ≤ s'.issued := by
  cases h with
  | code h => exact codeStep_issued h
  | _ => exact Nat.le_refl _

theorem codeStep_numbered (h : CodeStep s s') (hn : Numbered s) : Numbered s' := by
  have hi : s.issued ≤ s'.issued := codeStep_issued h
  cases h with
  | importFailed name complaint failure hc => exact numbered_failedImport hn failure hc
  | _ => exact hn.of_same hi fun _ _ hv => hv

theorem step_numbered (h : Step s s') (hn : Numbered s) : Numbered s' := by
  have hi : s.issued ≤ s'.issued := step_issued h
  cases h with
  | code h => exact codeStep_numbered h hn
  | _ => exact hn.of_same hi fun _ _ hv => hv

theorem runStep_numbered (h : RunStep s s') (hn : Numbered s) : Numbered s' := by
  cases h with
  | turn h => exact step_numbered h hn
  | begun module isMain => exact hn.of_same (Nat.le_refl _) fun _ _ hv => by simpa using hv
  | escaped value => exact hn.of_same (Nat.le_refl _) fun _ _ hv => by simpa using hv
  | _ => exact hn.of_same (Nat.le_refl _) fun _ _ hv => hv

theorem run_numbered (hn : Numbered s) (duration : Nat) (view : HostView) :
    Numbered (runWithin duration s view).1 := by
  have hf : Numbered (fresh s view) := hn.of_same (Nat.le_refl _) fun _ _ hv => hv
  rw [runWithin_left]
  exact walks_keep (fun h => runStep_numbered h) walks_runEntry hf

theorem reached_numbered (h : Reached s) : Numbered s := by
  induction h with
  | start system config sources view => constructor <;> simp [startIn]
  | ran duration view _ ih => exact run_numbered ih duration view

end Numbers

end ScriptHost.Engine
