import ScriptHost.Proofs.Registry.AtMostOnce
import ScriptHost.Proofs.Registry.Outcomes

/-!
# Loads without drops

An identifier that was never dropped has one generation. Its calls share one
fetch and one outcome, whoever made them and whenever.
-/

set_option autoImplicit false

namespace ScriptHost

variable {X : Type}

namespace History

def fetched (h : History X) (id : ModuleId) : List (LoadResult String) :=
  h.filterMap fun
    | .fetchEnded other result => if other = id then some result else none
    | _ => none

def evaluated (h : History X) (id : ModuleId) : List (Except EngineFailure X) :=
  h.filterMap fun
    | .evaluationEnded other result => if other = id then some result else none
    | _ => none

theorem mem_fetched {h : History X} {id : ModuleId} {result : LoadResult String} :
    result ∈ h.fetched id ↔ .fetchEnded id result ∈ h := by
  simp only [fetched, List.mem_filterMap]
  constructor
  · rintro ⟨e, he, hr⟩
    cases e <;> simp_all
  · exact fun he => ⟨_, he, if_pos rfl⟩

theorem mem_evaluated {h : History X} {id : ModuleId} {result : Except EngineFailure X} :
    result ∈ h.evaluated id ↔ .evaluationEnded id result ∈ h := by
  simp only [evaluated, List.mem_filterMap]
  constructor
  · rintro ⟨e, he, hr⟩
    cases e <;> simp_all
  · exact fun he => ⟨_, he, if_pos rfl⟩

theorem sources_eq (h : History X) (id : ModuleId) :
    h.sources id = (h.fetched id).filterMap Except.toOption := by
  rw [sources, fetched, List.filterMap_filterMap]
  congr 1
  funext e
  cases e with
  | fetchEnded other result =>
    cases result <;> by_cases ho : other = id <;> simp [ho, Except.toOption]
  | _ => rfl

end History

namespace Loads

variable {s s' : Loads X} {h : History X} {id : ModuleId}

/-! ## What generations collect -/

theorem life_fetched (h : History X) (id : ModuleId) :
    (h.generations id).flatMap Generation.fetched = h.fetched id := by
  rw [collected_life Generation.fetched
    (fun | .fetchEnded _ result => some result | _ => none) rfl]
  · congr 1
    funext e
    cases e <;> simp [LoadEvent.subject?]
  · intro g e
    cases e <;> simp [Generation.note]

theorem life_evaluated (h : History X) (id : ModuleId) :
    (h.generations id).flatMap Generation.evaluated = h.evaluated id := by
  rw [collected_life Generation.evaluated
    (fun | .evaluationEnded _ result => some result | _ => none) rfl]
  · congr 1
    funext e
    cases e <;> simp [LoadEvent.subject?]
  · intro g e
    cases e <;> simp [Generation.note]

/-! ## The one generation -/

theorem generations_of_kept (hd : h.drops id = 0) :
    h.generations id = [(h.life id).current] := by
  have hp : (h.life id).past = [] := List.length_eq_zero_iff.mp ((past_length h id).trans hd)
  rw [History.generations, Life.generations, hp, List.nil_append]

theorem current_fetched (hd : h.drops id = 0) : (h.life id).current.fetched = h.fetched id := by
  rw [← life_fetched, generations_of_kept hd, List.flatMap_singleton]

theorem current_evaluated (hd : h.drops id = 0) :
    (h.life id).current.evaluated = h.evaluated id := by
  rw [← life_evaluated, generations_of_kept hd, List.flatMap_singleton]

theorem Closed.fetched_length {g : Generation X} {outcome : LoadResult X}
    (hg : Closed g outcome) : g.fetched.length = 1 := by
  have hs := hg.settled
  unfold Generation.outcome? at hs
  split at hs
  · next hf _ => simp [hf]
  · next hf _ => simp [hf]
  · next hf _ => simp [hf]
  · simp at hs

theorem Coupled.fetched_length {record : Option (Record X CallId)}
    {tasks : List (CallId × LoadTask)} {g : Generation X} (hc : Coupled id record tasks g) :
    g.fetched.length ≤ 1 := by
  cases hc with
  | absent => exact Nat.zero_le 1
  | pending t g hg => simp [hg.fetched]
  | fetching t g hg => simp [hg.fetched]
  | evaluating t g source hg => simp [hg.fetched]
  | settled g outcome hg => simp [hg.fetched_length]

theorem fetches_le_one (hv : Valid s) (hd : s.history.drops id = 0) :
    s.history.fetches id ≤ 1 := by
  rw [fetches_eq hv, hd, Nat.zero_add]
  exact (hv.sound id).current.started_le

theorem evaluations_le_one (hr : Reachable s) (hd : s.history.drops id = 0) :
    (s.history.evaluations id).length ≤ 1 := by
  have hf : (s.history.fetched id).length ≤ 1 := by
    rw [← current_fetched hd]
    exact (hr.valid.sound id).current.fetched_length
  rw [hr.evaluations, History.sources_eq]
  exact Nat.le_trans (List.length_filterMap_le _ _) hf

/-- A call that returned has the outcome of its record, if this was never dropped. -/
theorem returned_current (hr : Reachable s) (hd : s.history.drops id = 0) {c : CallId}
    {outcome : LoadResult X} (hc : .called c id ∈ s.history)
    (ho : .returned c outcome ∈ s.history) :
    s.registry.find? id = some (.ofOutcome outcome) := by
  obtain ⟨g, hg, hcalls⟩ := mem_calls.mpr hc
  have hagrees : g.outcome? = some outcome := hr.agrees (.inr ho) id g hg hcalls
  rw [generations_of_kept hd, List.mem_singleton] at hg
  rw [hg, current_outcome hr.valid] at hagrees
  obtain ⟨record, hf, hrecord⟩ := Option.bind_eq_some_iff.mp hagrees
  rw [hf, Registry.eq_ofOutcome hrecord]

theorem same_outcome (hr : Reachable s) (hd : s.history.drops id = 0) {c c' : CallId}
    {outcome outcome' : LoadResult X} (hc : .called c id ∈ s.history)
    (hc' : .called c' id ∈ s.history) (ho : .returned c outcome ∈ s.history)
    (ho' : .returned c' outcome' ∈ s.history) : outcome = outcome' := by
  have hsame := (returned_current hr hd hc ho).symm.trans (returned_current hr hd hc' ho')
  have hout := congrArg (Option.bind · Record.outcome?) hsame
  simpa [Registry.outcome_ofOutcome] using hout

/-! ## Runs without drops -/

theorem drops_append (h rest : History X) (id : ModuleId) :
    History.drops (h ++ rest) id = h.drops id + History.drops rest id := List.countP_append

theorem turn_drops {a : LoadStep X} (ht : Turn s a s') (ha : ∀ other, a ≠ .invalidate other)
    (id : ModuleId) : s'.history.drops id = s.history.drops id := by
  have hsent : ∀ (waiters : List CallId) (other : ModuleId) (outcome : LoadResult X),
      History.drops (waiters.map (LoadEvent.sent · other outcome)) id = 0 := by
    intro waiters other outcome
    simp [History.drops, List.countP_map, Function.comp_def]
  cases ht with
  | dropped other => exact absurd rfl (ha other)
  | kept other => exact absurd rfl (ha other)
  | failed t other waiters failure hk hr =>
    rw [settled, drops_append, ← List.singleton_append, drops_append, hsent]
    rfl
  | evaluated t other waiters result hk hr =>
    rw [settled, drops_append, ← List.singleton_append, drops_append, hsent]
    rfl
  | paused => rfl
  | skipped => rfl
  | first | joined | answered | refused | gaveUp | began | fetched | resumed | aborted =>
    exact drops_append _ _ id

theorem run_drops {steps : List (LoadStep X)} (hr : start.run steps = some s)
    (hk : ∀ id, .invalidate id ∉ steps) (id : ModuleId) : s.history.drops id = 0 := by
  have hkeep : ∀ (t : Loads X) a t', a ∈ steps → Reachable t ∧ t.history.drops id = 0 →
      t.step a = some t' → Reachable t' ∧ t'.history.drops id = 0 := by
    rintro t a t' hm ⟨ht, hd⟩ hs
    have hne : ∀ other, a ≠ .invalidate other := fun other he => hk other (he ▸ hm)
    exact ⟨ht.step hs, (turn_drops (ht.turn hs) hne id).trans hd⟩
  exact (runsBy.keeps hkeep hr ⟨⟨[], rfl⟩, rfl⟩).2

end Loads

end ScriptHost
