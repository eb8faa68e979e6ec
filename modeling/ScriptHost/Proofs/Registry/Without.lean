import ScriptHost.Proofs.Registry.Outcomes

/-!
# Loads without some of their calls

Leaving some calls out of sight, with their places in the queue and their ends,
changes nothing about what a step does to the rest: no step looks at a call but
those that are about it, and a record keeps its waiters, whether they are still
there or not.
-/

set_option autoImplicit false

namespace ScriptHost.Loads

variable {X : Type} (gone : CallId → Bool) {s s' t t' : Loads X}

def endsGone : LoadEvent X → Bool
  | .returned c _ | .givenUp c => gone c
  | _ => false

/-- Loads with some calls left out. -/
def without (s : Loads X) : Loads X :=
  { s with
    calls := s.calls.filter (!gone ·.1)
    queue := s.queue.filter (!gone ·)
    history := s.history.filter (!endsGone gone ·) }

theorem without_call (s : Loads X) (c : CallId) :
    (s.without gone).call? c = if gone c then none else s.call? c := by
  rw [call?, without, Association.lookup_filter (fun c => !gone c)]
  cases gone c <;> rfl

theorem without_call_kept {c : CallId} (hc : gone c = false) :
    (s.without gone).call? c = s.call? c := by
  rw [without_call, hc]
  rfl

theorem without_twice (s : Loads X) : (s.without gone).without gone = s.without gone := by
  simp [without, List.filter_filter]

theorem without_note (s : Loads X) (events : History X) :
    (s.note events).without gone =
      (s.without gone).note (events.filter (!endsGone gone ·)) := by
  simp [without, note, List.filter_append]

theorem without_note_kept {events : History X}
    (he : ∀ e ∈ events, endsGone gone e = false) :
    (s.note events).without gone = (s.without gone).note events := by
  rw [without_note, List.filter_eq_self.mpr (by simpa using he)]

theorem without_removeCall (s : Loads X) (c : CallId) :
    (s.removeCall c).without gone = (s.without gone).removeCall c := by
  simp only [removeCall, without, List.filter_filter, Bool.and_comm]

/-! ## Steps about the rest -/

theorem load_without (s : Loads X) (id : ModuleId) :
    ((s.without gone).load id).without gone = (s.load id).without gone := by
  have hr : (s.without gone).registry.load id (s.without gone).issued =
      s.registry.load id s.issued := rfl
  rw [load, load, hr]
  split <;> simp [without, attach, spawn, List.filter_append, List.filter_filter]

theorem loadSpecifier_without (s : Loads X) (specifier : String) (base : ModuleId) :
    ((s.without gone).loadSpecifier specifier base).without gone =
      (s.loadSpecifier specifier base).without gone := by
  unfold loadSpecifier
  split
  · rw [without_note, without_note, without_twice]
  · exact load_without gone s _

theorem invalidate_without (s : Loads X) (id : ModuleId) :
    ((s.without gone).invalidate id).without gone = (s.invalidate id).without gone := by
  simp [invalidate, without, note, List.filter_append, List.filter_filter]

theorem giveUp_without (s : Loads X) {c : CallId} (hc : gone c = false) :
    ((s.without gone).giveUp c).map (without gone) = (s.giveUp c).map (without gone) := by
  rw [giveUp, giveUp, without_call_kept gone hc]
  cases s.call? c with
  | none => rfl
  | some call =>
    simp only [Option.map_some, without_note, without_removeCall, without_twice]

theorem begin_without (s : Loads X) (n : CallId) :
    ((s.without gone).begin n).map (without gone) = (s.begin n).map (without gone) := by
  have ht : (s.without gone).task? n = s.task? n := rfl
  rw [begin, begin, ht]
  split
  · simp [without, note, List.filter_append, List.filter_filter]
  · rfl

theorem suspend_without (s : Loads X) (n : CallId) :
    ((s.without gone).suspend n).map (without gone) = (s.suspend n).map (without gone) := by
  have ht : (s.without gone).task? n = s.task? n := rfl
  rw [suspend, suspend, ht]
  split
  · simp only [Option.map_some, without_twice]
  · simp only [Option.map_some, without_twice]
  · rfl

theorem deliver_filter (keep : CallId → Bool) (outcome : LoadResult X) (waiters : List CallId)
    (calls : List (CallId × Call X)) :
    (deliver outcome waiters calls).filter (keep ·.1) =
      deliver outcome waiters (calls.filter (keep ·.1)) := by
  rw [deliver, List.filter_map, deliver]
  congr 1
  apply List.filter_congr
  intro pair _
  by_cases hp : pair.1 ∈ waiters <;> simp [hp]

theorem settle_without (s : Loads X) (n : CallId) (id : ModuleId) (outcome : LoadResult X) :
    ((s.without gone).settle n id outcome).without gone =
      (s.settle n id outcome).without gone := by
  -- The record still lists the waiters that are left out, so only one of the two sides wakes
  -- them. They are taken out of the queues afterwards, not before.
  have hqueue : ∀ waiters : List CallId,
      (waiters.filter fun c => ((s.without gone).call? c).isSome).filter (!gone ·) =
        (waiters.filter fun c => (s.call? c).isSome).filter (!gone ·) := by
    intro waiters
    rw [List.filter_filter, List.filter_filter]
    apply List.filter_congr
    intro c _
    cases hc : gone c <;> simp [without_call, hc]
  have hcalls : ∀ waiters : List CallId,
      (deliver outcome waiters (s.without gone).calls).filter (!gone ·.1) =
        (deliver outcome waiters s.calls).filter (!gone ·.1) := by
    intro waiters
    rw [deliver_filter (fun c => !gone c), deliver_filter (fun c => !gone c), without,
      List.filter_filter]
    simp only [Bool.and_self]
  simp only [settle, note, without] at hqueue hcalls ⊢
  simp only [List.filter_append, hqueue, hcalls, List.filter_filter, Bool.and_self]

theorem endFetch_without (s : Loads X) (n : CallId) (result : LoadResult String) :
    ((s.without gone).endFetch n result).map (without gone) =
      (s.endFetch n result).map (without gone) := by
  have ht : (s.without gone).task? n = s.task? n := rfl
  rw [endFetch, endFetch, ht]
  split
  · next id _ =>
    cases result with
    | error failure =>
      have hn : (s.without gone).note [.fetchEnded id (.error failure)] =
          (s.note [.fetchEnded id (.error failure)]).without gone :=
        (without_note_kept gone (by simp [endsGone])).symm
      simp only [hn, Option.map_some, settle_without]
    | ok source => simp [without, note, List.filter_append, List.filter_filter]
  · rfl

theorem endEvaluation_without (s : Loads X) (n : CallId) (result : Except EngineFailure X) :
    ((s.without gone).endEvaluation n result).map (without gone) =
      (s.endEvaluation n result).map (without gone) := by
  have ht : (s.without gone).task? n = s.task? n := rfl
  rw [endEvaluation, endEvaluation, ht]
  split
  · next id _ =>
    have hn : (s.without gone).note [.evaluationEnded id result] =
        (s.note [.evaluationEnded id result]).without gone :=
      (without_note_kept gone (by simp [endsGone])).symm
    simp only [hn, Option.map_some, settle_without]
  · rfl

theorem resume_without {c : CallId} (hq : s.queue.head? = some c) (hc : gone c = false) :
    ((s.without gone).resume).map (without gone) = (s.resume).map (without gone) := by
  obtain ⟨rest, hrest⟩ := List.head?_eq_some_iff.mp hq
  have hw : (s.without gone).queue = c :: rest.filter (!gone ·) := by
    simp [without, hrest, hc]
  rw [resume, resume, hrest, hw]
  simp only [without_call_kept gone hc]
  split <;> simp [without, note, removeCall, List.filter_append, List.filter_filter, Bool.and_comm]

/-- The step is about the calls that stay: it drops none of the others, and is no turn of one of
them in the queue. Nobody is told that a load was aborted, so such a step never comes. -/
def Stays (s : Loads X) : LoadStep X → Prop
  | .giveUp c => gone c = false
  | .resume => ∃ c, s.queue.head? = some c ∧ gone c = false
  | .abort _ => False
  | _ => True

theorem step_without {a : LoadStep X} (h : Stays gone s a) :
    ((s.without gone).step a).map (without gone) = (s.step a).map (without gone) := by
  cases a with
  | load id => exact congrArg some (load_without gone s id)
  | loadSpecifier specifier base =>
    exact congrArg some (loadSpecifier_without gone s specifier base)
  | invalidate id => exact congrArg some (invalidate_without gone s id)
  | giveUp c => exact giveUp_without gone s h
  | begin n => exact begin_without gone s n
  | suspend n => exact suspend_without gone s n
  | endFetch n result => exact endFetch_without gone s n result
  | endEvaluation n result => exact endEvaluation_without gone s n result
  | resume =>
    obtain ⟨c, hq, hc⟩ := h
    exact resume_without gone hq hc
  | abort c => exact h.elim

/-- A step about the calls that stay can be taken on both of two sides that are alike but for the
others, or on none, and leaves them alike. -/
theorem step_alike (h : s.without gone = s'.without gone) {a : LoadStep X}
    (hs : Stays gone s a) (hs' : Stays gone s' a) :
    (s.step a).map (without gone) = (s'.step a).map (without gone) := by
  rw [← step_without gone hs, ← step_without gone hs', h]

/-! ## Steps about calls that are left out -/

theorem removeCall_gone (s : Loads X) {c : CallId} (hc : gone c = true) :
    (s.removeCall c).without gone = s.without gone := by
  have hcalls : (s.calls.filter (·.1 ≠ c)).filter (!gone ·.1) = s.calls.filter (!gone ·.1) := by
    rw [List.filter_filter]
    apply List.filter_congr
    intro pair _
    by_cases hp : pair.1 = c <;> simp [hp, hc]
  simp only [without, removeCall, hcalls]

theorem note_gone (s : Loads X) {e : LoadEvent X} (he : endsGone gone e = true) :
    (s.note [e]).without gone = s.without gone := by
  rw [without_note, List.filter_cons_of_neg (by simp [he]), List.filter_nil]
  simp [note]

theorem giveUp_gone {c : CallId} (hc : gone c = true) (h : s.giveUp c = some t) :
    t.without gone = s.without gone := by
  unfold giveUp at h
  split at h
  · obtain rfl := Option.some.inj h
    rw [note_gone gone _ (by simp [endsGone, hc]), removeCall_gone gone s hc]
  · cases h

theorem resume_gone {c : CallId} (hq : s.queue.head? = some c) (hc : gone c = true)
    (h : s.resume = some t) : t.without gone = s.without gone := by
  obtain ⟨rest, hrest⟩ := List.head?_eq_some_iff.mp hq
  have hqueue : { s with queue := rest }.without gone = s.without gone := by
    simp [without, hrest, hc]
  rw [resume, hrest] at h
  simp only at h
  split at h
  · obtain rfl := Option.some.inj h
    rw [note_gone gone _ (by simp [endsGone, hc]), removeCall_gone gone _ hc, hqueue]
  · obtain rfl := Option.some.inj h
    exact hqueue

theorem resume_isSome {c : CallId} (hq : s.queue.head? = some c) : ∃ t, s.resume = some t := by
  obtain ⟨rest, hrest⟩ := List.head?_eq_some_iff.mp hq
  rw [resume, hrest]
  simp only
  split <;> exact ⟨_, rfl⟩

/-! ## What is still seen -/

def answers (h : History X) : List (CallId × LoadResult X) :=
  h.filterMap fun
    | .returned c outcome => if gone c then none else some (c, outcome)
    | _ => none

/-- What the ends of the calls left out do not show is seen as before. -/
theorem seen_without {α : Type} {seen : LoadEvent X → Option α}
    (h : ∀ e, endsGone gone e = true → seen e = none) (s : Loads X) :
    (s.without gone).history.filterMap seen = s.history.filterMap seen := by
  rw [without, List.filterMap_filter]
  congr 1
  funext e
  cases he : endsGone gone e
  · rfl
  · exact (h e he).symm

theorem answers_without (s : Loads X) :
    answers gone (s.without gone).history = answers gone s.history := by
  refine seen_without gone (fun e he => ?_) s
  cases e with
  | returned c outcome => exact if_pos he
  | _ => rfl

theorem fetches_without (s : Loads X) (id : ModuleId) :
    (s.without gone).history.fetches id = s.history.fetches id := by
  rw [History.fetches, without, List.countP_filter]
  apply List.countP_congr
  intro e _
  cases e <;> simp [endsGone]

theorem evaluations_without (s : Loads X) (id : ModuleId) :
    (s.without gone).history.evaluations id = s.history.evaluations id := by
  refine seen_without gone (fun e he => ?_) s
  cases e with
  | returned | givenUp => rfl
  | _ => cases he

end ScriptHost.Loads
