import ScriptHost.Proofs.Registry.LifeCycle
import ScriptHost.Proofs.Registry.OneGeneration

/-!
# Schedules

Calls may come in any order, tasks may take their turns in any order and be
suspended any number of times. As long as a source and an engine say the same of
an identifier each time, what is left when every call has returned depends on
nothing but the identifiers that were asked for: each has the outcome that its
source and the engine determine, after one fetch.
-/

set_option autoImplicit false

namespace ScriptHost.Loads

variable {X : Type}

/-! ## The calls of a run -/

theorem callers_append (h rest : History X) :
    callers (h ++ rest) = callers h ++ callers rest := List.filterMap_append

theorem callers_sent (id : ModuleId) (outcome : LoadResult X) (waiters : List CallId) :
    callers (waiters.map (LoadEvent.sent · id outcome)) = [] := by
  simp [callers, List.filterMap_map, Function.comp_def]

def requests (h : History X) : List ModuleId := (callers h).map (·.2)

theorem requests_append (h rest : History X) :
    requests (h ++ rest) = requests h ++ requests rest := by
  rw [requests, callers_append, List.map_append]
  rfl

theorem mem_requests {h : History X} {id : ModuleId} :
    id ∈ requests h ↔ ∃ c, .called c id ∈ h := by
  simp [requests, ← mem_callers]

variable {s s' : Loads X} {a : LoadStep X} {steps steps' : List (LoadStep X)}

theorem turn_requests (ht : Turn s a s') :
    requests s'.history = requests s.history ++ a.target?.toList := by
  have hsettled : ∀ (waiters : List CallId) (id : ModuleId) (event : LoadEvent X)
      (outcome : LoadResult X), requests [event] = [] →
      requests (s.history ++ event :: waiters.map (.sent · id outcome)) = requests s.history := by
    intro waiters id event outcome he
    rw [requests_append, ← List.singleton_append, requests_append, he, requests, requests,
      callers_sent]
    exact List.append_nil _
  cases ht with
  | first _ id ha hr | joined _ id record ha hr ho | answered _ id outcome ha hr =>
    rw [ha]
    exact requests_append _ _
  | refused specifier base failure hf =>
    rw [LoadStep.target?, hf]
    exact requests_append _ _
  | failed t id waiters failure hk hr =>
    exact (hsettled waiters id _ _ rfl).trans (List.append_nil _).symm
  | evaluated t id waiters result hk hr =>
    exact (hsettled waiters id _ _ rfl).trans (List.append_nil _).symm
  | paused | skipped => exact (List.append_nil _).symm
  | dropped | kept | gaveUp | began | fetched | resumed | aborted => exact requests_append _ _

theorem run_requests (hr : start.run steps = some s) :
    requests s.history = steps.filterMap LoadStep.target? := by
  refine runsBy.induct (P := fun steps s => requests s.history = steps.filterMap LoadStep.target?)
    rfl ?_ hr
  intro steps s a s' hs hp ha
  rw [turn_requests (Reachable.turn ⟨steps, hs⟩ ha), hp, List.filterMap_append]
  cases ht : a.target? <;> simp [ht]

/-! ## What a schedule leaves -/

variable {source : ModuleId → LoadResult String} {engine : ModuleId → Except EngineFailure X}
  {id : ModuleId}

/-- A run without drops until every call has returned, in which fetches and evaluations bring
what a source and an engine say of their identifiers. -/
structure Schedule (source : ModuleId → LoadResult String)
    (engine : ModuleId → Except EngineFailure X) (steps : List (LoadStep X)) (s : Loads X) :
    Prop where
  run : start.run steps = some s
  kept : ∀ id, .invalidate id ∉ steps
  fetched : ∀ id result, .fetchEnded id result ∈ s.history → result = source id
  evaluated : ∀ id result, .evaluationEnded id result ∈ s.history → result = engine id
  returned : ∀ c ∈ s.history.called, c ∈ s.history.returned

/-- What a load of the identifier comes to. -/
def determined (source : ModuleId → LoadResult String)
    (engine : ModuleId → Except EngineFailure X) (id : ModuleId) : LoadResult X :=
  match source id with
  | .error failure => .error failure
  | .ok _ => outcomeOf (engine id)

theorem Closed.determined {g : Generation X} {outcome : LoadResult X} (hg : Closed g outcome)
    (hf : ∀ result ∈ g.fetched, result = source id)
    (he : ∀ result ∈ g.evaluated, result = engine id) :
    outcome = determined source engine id ∧ g.fetched = [source id] := by
  have hs := hg.settled
  unfold Generation.outcome? at hs
  split at hs
  · next failure hfetched _ =>
    have hsource : .error failure = source id := hf _ (by simp [hfetched])
    obtain rfl := Option.some.inj hs
    exact ⟨by rw [Loads.determined, ← hsource], by rw [hfetched, hsource]⟩
  · next text value hfetched hevaluated =>
    have hsource : .ok text = source id := hf _ (by simp [hfetched])
    have hengine : .ok value = engine id := he _ (by simp [hevaluated])
    obtain rfl := Option.some.inj hs
    exact ⟨by rw [Loads.determined, ← hsource, ← hengine]; rfl, by rw [hfetched, hsource]⟩
  · next text failure hfetched hevaluated =>
    have hsource : .ok text = source id := hf _ (by simp [hfetched])
    have hengine : .error failure = engine id := he _ (by simp [hevaluated])
    obtain rfl := Option.some.inj hs
    refine ⟨?_, by rw [hfetched, hsource]⟩
    rw [Loads.determined, ← hsource, ← hengine]
    exact (outcomeOf_error failure).symm
  · simp at hs

namespace Schedule

theorem reachable (h : Schedule source engine steps s) : Reachable s := ⟨steps, h.run⟩

theorem drops (h : Schedule source engine steps s) (id : ModuleId) : s.history.drops id = 0 :=
  run_drops h.run h.kept id

theorem evaluations_eq (h : Schedule source engine steps s) (id : ModuleId) :
    s.history.evaluations id =
      (s.history.life id).current.fetched.filterMap Except.toOption := by
  rw [h.reachable.evaluations, History.sources_eq, current_fetched (h.drops id)]

theorem returns (h : Schedule source engine steps s) {c : CallId} (hc : .called c id ∈ s.history) :
    ∃ outcome, .returned c outcome ∈ s.history := by
  obtain ⟨e, he, hr⟩ := List.mem_filterMap.mp (h.returned c (List.mem_filterMap.mpr ⟨_, hc, rfl⟩))
  cases e with
  | returned other outcome => exact ⟨outcome, Option.some.inj hr ▸ he⟩
  | _ => cases hr

/-- An identifier that was loaded has its outcome, after one fetch and the evaluation of what
this brought. -/
theorem of_loaded (h : Schedule source engine steps s) {c : CallId}
    (hc : .called c id ∈ s.history) :
    s.registry.find? id = some (.ofOutcome (determined source engine id)) ∧
      s.history.fetches id = 1 ∧ s.history.evaluations id = (source id).toOption.toList := by
  obtain ⟨outcome, ho⟩ := h.returns hc
  have hd := h.drops id
  have hf := returned_current h.reachable hd hc ho
  have hcoupled := (h.reachable.valid.sound id).current
  simp only [view, hf] at hcoupled
  obtain ⟨-, hclosed⟩ := hcoupled.of_settled
  have hfetched : ∀ result ∈ (s.history.life id).current.fetched, result = source id := by
    rw [current_fetched hd]
    exact fun result hm => h.fetched id result (History.mem_fetched.mp hm)
  have hevaluated : ∀ result ∈ (s.history.life id).current.evaluated, result = engine id := by
    rw [current_evaluated hd]
    exact fun result hm => h.evaluated id result (History.mem_evaluated.mp hm)
  obtain ⟨houtcome, hone⟩ := hclosed.determined hfetched hevaluated
  refine ⟨by rw [hf, houtcome], ?_, ?_⟩
  · rw [fetches_eq h.reachable.valid, hd, hclosed.started]
  · rw [h.evaluations_eq, hone]
    cases source id <;> rfl

theorem of_not_loaded (h : Schedule source engine steps s)
    (hc : ∀ c, .called c id ∉ s.history) :
    s.registry.find? id = none ∧ s.history.fetches id = 0 ∧ s.history.evaluations id = [] := by
  have hf : s.registry.find? id = none := by
    rw [Registry.find_none_iff, h.reachable.loaded]
    rintro ⟨before, c, after, hh, -⟩
    exact hc c (by simp [hh])
  have hcoupled := (h.reachable.valid.sound id).current
  simp only [view, hf] at hcoupled
  obtain ⟨-, hg⟩ := hcoupled.of_none
  refine ⟨hf, ?_, ?_⟩
  · rw [fetches_eq h.reachable.valid, h.drops id, hg]
    rfl
  · rw [h.evaluations_eq, hg]
    rfl

theorem returned_eq (h : Schedule source engine steps s) {c : CallId} {outcome : LoadResult X}
    (hc : .called c id ∈ s.history) (ho : .returned c outcome ∈ s.history) :
    outcome = determined source engine id := by
  have hf := returned_current h.reachable (h.drops id) hc ho
  rw [(h.of_loaded hc).1] at hf
  have hout := congrArg (Option.bind · Record.outcome?) hf
  simpa [Registry.outcome_ofOutcome, eq_comm] using hout

end Schedule

/-- Two schedules of the same calls, whatever their order and whatever turns come between them,
give every call of an identifier the same result, and leave the same records after the same
fetches and evaluations. -/
theorem schedules_agree (h : Schedule source engine steps s)
    (h' : Schedule source engine steps' s')
    (hp : (steps.filterMap LoadStep.target?).Perm (steps'.filterMap LoadStep.target?)) :
    (∀ c c' id outcome outcome', .called c id ∈ s.history → .called c' id ∈ s'.history →
      .returned c outcome ∈ s.history → .returned c' outcome' ∈ s'.history →
      outcome = outcome') ∧
    ∀ id, s.registry.find? id = s'.registry.find? id ∧
      (∀ record, s.registry.find? id = some record → ∃ outcome, record = .ofOutcome outcome) ∧
      s.history.fetches id = s'.history.fetches id ∧
      s.history.evaluations id = s'.history.evaluations id := by
  refine ⟨?_, ?_⟩
  · intro c c' id outcome outcome' hc hc' ho ho'
    rw [h.returned_eq hc ho, h'.returned_eq hc' ho']
  · intro id
    have hcalls : (∃ c, .called c id ∈ s.history) ↔ ∃ c, .called c id ∈ s'.history := by
      rw [← mem_requests, ← mem_requests, run_requests h.run, run_requests h'.run]
      exact hp.mem_iff
    by_cases hm : ∃ c, .called c id ∈ s.history
    · obtain ⟨c', hc'⟩ := hcalls.mp hm
      obtain ⟨c, hc⟩ := hm
      obtain ⟨hf, hfetches, hevaluations⟩ := h.of_loaded hc
      obtain ⟨hf', hfetches', hevaluations'⟩ := h'.of_loaded hc'
      refine ⟨hf.trans hf'.symm, ?_, hfetches.trans hfetches'.symm,
        hevaluations.trans hevaluations'.symm⟩
      intro record hr
      exact ⟨_, Option.some.inj (hr.symm.trans hf)⟩
    · obtain ⟨hf, hfetches, hevaluations⟩ := h.of_not_loaded (not_exists.mp hm)
      obtain ⟨hf', hfetches', hevaluations'⟩ :=
        h'.of_not_loaded (not_exists.mp fun hm' => hm (hcalls.mpr hm'))
      refine ⟨hf.trans hf'.symm, ?_, hfetches.trans hfetches'.symm,
        hevaluations.trans hevaluations'.symm⟩
      intro record hr
      rw [hf] at hr
      cases hr

def presentId : ModuleId := ⟨⟨['m'], none, .rooted [['a']], none⟩⟩

def missingId : ModuleId := ⟨⟨['m'], none, .rooted [['b']], none⟩⟩

def missing : LoadFailure := .notFound "b"

def lonely (id : ModuleId) : LoadResult String := if id = presentId then .ok "text" else .error missing

def overlappingLoads : List (LoadStep Nat) :=
  [.load presentId, .load missingId, .load presentId, .begin 0, .suspend 0, .begin 1,
    .endFetch 1 (.error missing), .endFetch 0 (.ok "text"), .resume, .endEvaluation 0 (.ok 7),
    .resume, .resume]

def separateLoads : List (LoadStep Nat) :=
  [.load missingId, .begin 0, .endFetch 0 (.error missing), .resume, .load presentId, .begin 1,
    .endFetch 1 (.ok "text"), .endEvaluation 1 (.ok 7), .resume, .load presentId]

theorem overlapping_schedule :
    ∃ s, Schedule lonely (fun _ => .ok 7) overlappingLoads s := by
  have hrun : (start.run overlappingLoads).map (·.history) = some [.called 0 presentId,
      .attached 0 presentId, .called 1 missingId, .attached 1 missingId, .called 2 presentId,
      .attached 2 presentId, .fetchStarted presentId, .fetchStarted missingId,
      .fetchEnded missingId (.error missing), .sent 1 missingId (.error missing),
      .fetchEnded presentId (.ok "text"), .evaluationStarted presentId "text",
      .returned 1 (.error missing), .evaluationEnded presentId (.ok 7),
      .sent 0 presentId (.ok 7), .sent 2 presentId (.ok 7), .returned 0 (.ok 7),
      .returned 2 (.ok 7)] := rfl
  obtain ⟨s, hs, hh⟩ := Option.map_eq_some_iff.mp hrun
  refine ⟨s, hs, ?_, ?_, ?_, ?_⟩
  · simp [overlappingLoads]
  · intro id result hm
    have hm : id = missingId ∧ result = .error missing ∨ id = presentId ∧ result = .ok "text" := by
      simpa [hh] using hm
    rcases hm with ⟨rfl, rfl⟩ | ⟨rfl, rfl⟩ <;> decide
  · simp [hh]
  · simp [hh, History.called, History.returned]

theorem separate_schedule : ∃ s, Schedule lonely (fun _ => .ok 7) separateLoads s := by
  have hrun : (start.run separateLoads).map (·.history) = some [.called 0 missingId,
      .attached 0 missingId, .fetchStarted missingId, .fetchEnded missingId (.error missing),
      .sent 0 missingId (.error missing), .returned 0 (.error missing), .called 1 presentId,
      .attached 1 presentId, .fetchStarted presentId, .fetchEnded presentId (.ok "text"),
      .evaluationStarted presentId "text", .evaluationEnded presentId (.ok 7),
      .sent 1 presentId (.ok 7), .returned 1 (.ok 7), .called 2 presentId,
      .returned 2 (.ok 7)] := rfl
  obtain ⟨s, hs, hh⟩ := Option.map_eq_some_iff.mp hrun
  refine ⟨s, hs, ?_, ?_, ?_, ?_⟩
  · simp [separateLoads]
  · intro id result hm
    have hm : id = missingId ∧ result = .error missing ∨ id = presentId ∧ result = .ok "text" := by
      simpa [hh] using hm
    rcases hm with ⟨rfl, rfl⟩ | ⟨rfl, rfl⟩ <;> decide
  · simp [hh]
  · simp [hh, History.called, History.returned]

theorem overlapping_loads_agree : ∃ s s',
    Schedule lonely (fun _ => .ok 7) overlappingLoads s ∧
    Schedule lonely (fun _ => .ok 7) separateLoads s' ∧
    s.registry.find? presentId = s'.registry.find? presentId ∧
    s.history.fetches missingId = s'.history.fetches missingId := by
  obtain ⟨s, h⟩ := overlapping_schedule
  obtain ⟨s', h'⟩ := separate_schedule
  have hp : (overlappingLoads.filterMap LoadStep.target?).Perm
      (separateLoads.filterMap LoadStep.target?) := by decide
  obtain ⟨-, hids⟩ := schedules_agree h h' hp
  exact ⟨s, s', h, h', (hids presentId).1, (hids missingId).2.2.1⟩

end ScriptHost.Loads
