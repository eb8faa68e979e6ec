import Mathlib.Algebra.GroupWithZero.Nat
import ScriptHost.Proofs.Registry.Invariant

/-!
# Loading at most once

Every generation of an identifier has at most one fetch, so there is at most one
more than there were drops. What a fetch brings is evaluated once, and a fetch
with its evaluation is over before the next one of the identifier starts.
-/

set_option autoImplicit false

namespace ScriptHost.Loads

variable {X : Type}

/-! ## Counting over generations -/

def total (f : Generation X → Nat) (l : Life X) : Nat := (l.generations.map f).sum

theorem total_eq (f : Generation X → Nat) (l : Life X) :
    total f l = (l.generations.flatMap fun g => List.replicate (f g) ()).length := by
  simp [total, List.length_flatMap]

theorem total_life (f : Generation X → Nat) (q : LoadEvent X → Bool) (hempty : f .empty = 0)
    (hnote : ∀ g e, f (g.note e) = f g + if q e then 1 else 0) (id : ModuleId) (h : History X) :
    total f (h.life id) = h.countP fun e => e.subject? = some id ∧ q e := by
  have hmarks : ∀ (g : Generation X) e, List.replicate (f (g.note e)) () =
      List.replicate (f g) () ++ (if q e then some () else none).toList := by
    intro g e
    rw [hnote, ← List.replicate_append_replicate]
    cases q e <;> rfl
  have hall := collected_life (fun g => List.replicate (f g) ()) _ (by rw [hempty]; rfl) hmarks id h
  rw [total_eq, ← History.generations, hall, List.length_filterMap_eq_countP]
  apply List.countP_congr
  intro e _
  by_cases hs : e.subject? = some id <;> cases hq : q e <;> simp [hs]

def startsFetch : LoadEvent X → Bool
  | .fetchStarted _ => true
  | _ => false

/-- Events that end a fetch, or the evaluation that followed it. -/
def endsFetch : LoadEvent X → Bool
  | .fetchEnded _ (.error _) | .evaluationEnded .. => true
  | _ => false

theorem total_started (h : History X) (id : ModuleId) :
    total Generation.started (h.life id) = h.fetches id := by
  rw [total_life Generation.started startsFetch rfl]
  · apply List.countP_congr
    intro e _
    cases e <;> simp [LoadEvent.subject?, startsFetch]
  · intro g e
    cases e <;> rfl

def ended (g : Generation X) : Nat :=
  (g.fetched.countP fun
    | .error _ => true
    | .ok _ => false) + g.evaluated.length

theorem total_ended (h : History X) (id : ModuleId) :
    total ended (h.life id) = h.settlements id := by
  rw [total_life ended endsFetch rfl]
  · apply List.countP_congr
    intro e _
    cases e with
    | fetchEnded other result => cases result <;> simp [LoadEvent.subject?, endsFetch]
    | _ => simp [LoadEvent.subject?, endsFetch]
  · intro g e
    cases e with
    | fetchEnded other result =>
      cases result with
      | ok source => simp [Generation.note, ended, endsFetch]
      | error failure => simp [Generation.note, ended, endsFetch, Nat.add_right_comm]
    | evaluationEnded other result => simp [Generation.note, ended, endsFetch, Nat.add_assoc]
    | _ => rfl

theorem past_length (h : History X) (id : ModuleId) : (h.life id).past.length = h.drops id := by
  suffices H : ∀ l : Life X, (h.foldl (Life.note id) l).past.length =
      l.past.length + h.drops id by simp [History.life, H, Life.start]
  intro l
  induction h generalizing l with
  | nil => rfl
  | cons e h ih =>
    have he : (Life.note id l e).past.length = l.past.length + History.drops [e] id := by
      cases e with
      | invalidated other isDropped =>
        cases isDropped <;> by_cases ho : other = id <;>
          simp [Life.note, LoadEvent.subject?, History.drops, ho]
      | called _ other | attached _ other | fetchStarted other | fetchEnded other
      | evaluationStarted other | evaluationEnded other | sent _ other =>
        by_cases ho : other = id <;> simp [Life.note, LoadEvent.subject?, History.drops, ho]
      | refused | returned | aborted | givenUp => rfl
    rw [List.foldl_cons, ih, he, Nat.add_assoc]
    simp only [History.drops, ← List.countP_append, List.singleton_append]

/-! ## Fetches under way -/

/-- How many fetches of an identifier are under way, with the evaluations that follow them. -/
def working (s : Loads X) (id : ModuleId) : Nat := (s.tasksOf id).countP (·.2.phase ≠ .spawned)

theorem Closed.ended_eq {g : Generation X} {outcome : LoadResult X} (hg : Closed g outcome) :
    ended g = 1 := by
  have hs := hg.settled
  unfold Generation.outcome? at hs
  split at hs
  · next hf he => simp [ended, hf, he]
  · next hf he => simp [ended, hf, he]
  · next hf he => simp [ended, hf, he]
  · simp at hs

theorem Coupled.started_eq {id : ModuleId} {record : Option (Record X CallId)}
    {tasks : List (CallId × LoadTask)} {g : Generation X} (hc : Coupled id record tasks g) :
    g.started = ended g + tasks.countP (·.2.phase ≠ .spawned) := by
  cases hc with
  | absent => rfl
  | pending t g hg => simp [ended, hg.started, hg.fetched, hg.evaluated]
  | fetching t g hg => simp [ended, hg.started, hg.fetched, hg.evaluated]
  | evaluating t g source hg => simp [ended, hg.started, hg.fetched, hg.evaluated]
  | settled g outcome hg => simp [hg.started, hg.ended_eq]

theorem Coupled.started_le {id : ModuleId} {record : Option (Record X CallId)}
    {tasks : List (CallId × LoadTask)} {g : Generation X} (hc : Coupled id record tasks g) :
    g.started ≤ 1 := by
  cases hc with
  | absent => exact Nat.zero_le 1
  | pending t g hg => simp [hg.started]
  | fetching t g hg => simp [hg.started]
  | evaluating t g source hg => simp [hg.started]
  | settled g outcome hg => simp [hg.started]

theorem sum_ones (f : Generation X → Nat) (gs : List (Generation X)) (h : ∀ g ∈ gs, f g = 1) :
    (gs.map f).sum = gs.length := by
  induction gs with
  | nil => rfl
  | cons g gs ih =>
    rw [List.map_cons, List.sum_cons, h g (by simp), ih fun g' hm => h g' (by simp [hm]),
      List.length_cons, Nat.add_comm]

/-- What is one for every closed generation counts the drops. -/
theorem past_sum {s : Loads X} (hv : Valid s) (id : ModuleId) (f : Generation X → Nat)
    (hf : ∀ g outcome, Closed g outcome → f g = 1) :
    ((s.history.life id).past.map f).sum = s.history.drops id := by
  rw [← past_length]
  apply sum_ones
  intro g hg
  obtain ⟨outcome, hc⟩ := (hv.sound id).past g hg
  exact hf g outcome hc

theorem fetches_eq {s : Loads X} (hv : Valid s) (id : ModuleId) :
    s.history.fetches id = s.history.drops id + (s.history.life id).current.started := by
  have hp := past_sum hv id Generation.started fun _ _ hg => hg.started
  rw [← total_started]
  simp [total, Life.generations, hp]

/-- The fetches that were started are those that ended and those that are under way. -/
theorem fetches_settlements {s : Loads X} (hv : Valid s) (id : ModuleId) :
    s.history.fetches id = s.history.settlements id + s.working id := by
  have hp := past_sum hv id ended fun _ _ hg => hg.ended_eq
  have hc : (s.history.life id).current.started = ended (s.history.life id).current +
      s.working id := (hv.sound id).current.started_eq
  rw [fetches_eq hv, hc, ← total_ended]
  simp [total, Life.generations, hp, Nat.add_assoc]

theorem working_le {s : Loads X} (hv : Valid s) (id : ModuleId) : s.working id ≤ 1 :=
  Nat.le_trans List.countP_le_length (hv.sound id).current.tasks_length

/-! ## Evaluations -/

theorem turn_evaluations {s s' : Loads X} {a : LoadStep X} (ht : Turn s a s') (id : ModuleId)
    (h : s.history.evaluations id = s.history.sources id) :
    s'.history.evaluations id = s'.history.sources id := by
  simp only [History.evaluations, History.sources] at h ⊢
  cases ht with
  | fetched t other waiters source hf hr =>
    by_cases ho : other = id <;> simp [note, List.filterMap_append, h, ho]
  | failed t other waiters failure hf hr | evaluated t other waiters result hf hr =>
    simp [settled, List.filterMap_append, List.filterMap_map, Function.comp_def, h]
  | paused => exact h
  | skipped => exact h
  | first | joined | answered | refused | dropped | kept | gaveUp | began | resumed | aborted =>
    simp [note, attach, spawn, removeCall, List.filterMap_append, h]

theorem Reachable.evaluations {s : Loads X} (h : Reachable s) (id : ModuleId) :
    s.history.evaluations id = s.history.sources id :=
  h.induct (P := fun s => s.history.evaluations id = s.history.sources id) rfl
    fun _ _ _ hr hp hs => turn_evaluations (hr.turn hs) id hp

/-- At every moment of every run the fetches of an identifier are at most one more than its
drops, what they brought was evaluated once, and at most one of them is not over. -/
theorem fetches_at_most_once (steps : List (LoadStep X)) (s : Loads X)
    (h : start.run steps = some s) (id : ModuleId) :
    s.history.fetches id ≤ 1 + s.history.drops id ∧
    s.history.evaluations id = s.history.sources id ∧
    s.history.fetches id = s.history.settlements id + s.working id ∧ s.working id ≤ 1 ∧
    ∀ specifier base, ModuleId.resolve specifier base = .ok id →
      s.step (.loadSpecifier specifier base) = s.step (.load id) := by
  have hr : Reachable s := ⟨steps, h⟩
  have hv := hr.valid
  refine ⟨?_, hr.evaluations id, fetches_settlements hv id, working_le hv id, ?_⟩
  · rw [fetches_eq hv, Nat.add_comm]
    exact Nat.add_le_add_right (hv.sound id).current.started_le _
  · intro specifier base hr
    simp [step, loadSpecifier, hr]

/-- A module that two specifiers name, loaded twice, dropped and loaded again. -/
theorem dropped_fetched_twice :
    let base : ModuleId := ⟨⟨['m'], none, .rooted [['a']], none⟩⟩
    let id : ModuleId := ⟨⟨['m'], none, .rooted [['b']], none⟩⟩
    ∃ s : Loads Nat, start.run [.loadSpecifier "b" base, .loadSpecifier "./b" base, .begin 0,
        .suspend 0, .endFetch 0 (.ok "text"), .endEvaluation 0 (.ok 7), .invalidate id, .load id,
        .begin 2] = some s ∧
      s.history.fetches id = 2 ∧
      s.history.fetches id ≤ 1 + s.history.drops id ∧
      s.history.evaluations id = s.history.sources id ∧
      s.history.fetches id = s.history.settlements id + s.working id ∧ s.working id ≤ 1 ∧
      s.step (.loadSpecifier "b" base) = s.step (.load id) := by
  intro base id
  have hrun : (start.run [.loadSpecifier "b" base, .loadSpecifier "./b" base, .begin 0,
      .suspend 0, .endFetch 0 (.ok "text"), .endEvaluation 0 (.ok 7), .invalidate id, .load id,
      .begin 2] : Option (Loads Nat)).map (·.history.fetches id) = some 2 := by decide +kernel
  obtain ⟨s, hs, hf⟩ := Option.map_eq_some_iff.mp hrun
  obtain ⟨hfetches, hevaluations, hover, hworking, hsame⟩ := fetches_at_most_once _ s hs id
  exact ⟨s, hs, hf, hfetches, hevaluations, hover, hworking, hsame "b" base rfl⟩

end ScriptHost.Loads
