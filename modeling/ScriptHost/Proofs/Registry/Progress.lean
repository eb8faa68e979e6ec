import ScriptHost.Proofs.Registry.Delivery
import ScriptHost.Proofs.Registry.LifeCycle

/-!
# Every call returns

A run goes on for ever, perhaps doing nothing. It is fair if no task stays in its
phase and nobody stays at the front of the queue for ever: tasks are begun,
fetches and evaluations return, and the queue moves. In a fair run every call
that is not given up returns the outcome of its generation.
-/

set_option autoImplicit false

namespace ScriptHost.Loads

variable {X : Type}

structure Run (X : Type) where
  state : Nat → Loads X
  first : state 0 = start
  next : ∀ n, state (n + 1) = state n ∨ ∃ a, (state n).step a = some (state (n + 1))

structure Fair (r : Run X) : Prop where
  tasks : ∀ n t task, (r.state n).task? t = some task →
    ∃ m, n ≤ m ∧ (r.state m).task? t ≠ some task
  queue : ∀ n c, (r.state n).queue.head? = some c →
    ∃ m, n ≤ m ∧ (r.state m).queue.head? ≠ some c

namespace Run

theorem reachable (r : Run X) (n : Nat) : Reachable (r.state n) := by
  induction n with
  | zero => exact r.first ▸ ⟨[], rfl⟩
  | succ n ih =>
    rcases r.next n with he | ⟨a, ha⟩
    · exact he ▸ ih
    · exact ih.step ha

/-- What a turn cannot undo still holds later. -/
theorem stable (r : Run X) {P : Loads X → Prop}
    (hturn : ∀ s a s', Reachable s → P s → Turn s a s' → P s') {n m : Nat} (hnm : n ≤ m)
    (hp : P (r.state n)) : P (r.state m) := by
  induction hnm with
  | refl => exact hp
  | @step m _ ih =>
    rcases r.next m with he | ⟨a, ha⟩
    · exact he ▸ ih
    · exact hturn _ a _ (r.reachable m) ih ((r.reachable m).turn ha)

/-- What only gives way to something else, and does not hold for ever, gives way to it. -/
theorem leads (r : Run X) {P Q : Loads X → Prop}
    (hturn : ∀ s a s', Reachable s → Reachable s' → P s → Turn s a s' → P s' ∨ Q s') {n : Nat}
    (hp : P (r.state n)) (hend : ∃ m, n ≤ m ∧ ¬ P (r.state m)) :
    ∃ m, n ≤ m ∧ Q (r.state m) := by
  apply Classical.byContradiction
  intro hq
  obtain ⟨m, hnm, hnp⟩ := hend
  apply hnp
  induction hnm with
  | refl => exact hp
  | @step m hnm ih =>
    have hpm : P (r.state m) := Classical.byContradiction fun h => h (ih h)
    rcases r.next m with he | ⟨a, ha⟩
    · exact he ▸ hpm
    · have ht := (r.reachable m).turn ha
      refine (hturn _ a _ (r.reachable m) (r.reachable (m + 1)) hpm ht).resolve_right ?_
      exact fun h => hq ⟨m + 1, Nat.le_succ_of_le hnm, h⟩

end Run

/-! ## Waiting ends -/

/-- How many phases a task has before it. -/
def left : Phase → Nat
  | .spawned => 2
  | .fetching => 1
  | .evaluating => 0

theorem turn_task {s s' : Loads X} {a : LoadStep X} (ht : Turn s a s') {t : CallId}
    {id : ModuleId} {phase : Phase} (h : s.task? t = some ⟨id, phase⟩) :
    s'.task? t = some ⟨id, phase⟩ ∨ s'.task? t = none ∨
      ∃ next, s'.task? t = some ⟨id, next⟩ ∧ left next < left phase := by
  have hentered : ∀ n other old next, s.task? n = some ⟨other, old⟩ → left next < left old →
      (enterPhase next n s.tasks).lookup t = some ⟨id, phase⟩ ∨
        (enterPhase next n s.tasks).lookup t = some ⟨id, next⟩ ∧ left next < left phase := by
    intro n other old next hn hl
    have hs : s.tasks.lookup t = some ⟨id, phase⟩ := h
    rw [enterPhase_lookup, hs]
    by_cases he : t = n
    · obtain ⟨-, rfl⟩ := LoadTask.mk.inj (Option.some.inj (h.symm.trans (he ▸ hn)))
      exact .inr ⟨by simp [he], hl⟩
    · exact .inl (by simp [he])
  have hremoved : ∀ n, (s.tasks.filter (·.1 ≠ n)).lookup t = some ⟨id, phase⟩ ∨
      (s.tasks.filter (·.1 ≠ n)).lookup t = none := by
    intro n
    rw [Association.lookup_removed]
    by_cases he : t = n
    · exact .inr (if_pos he)
    · exact .inl ((if_neg he).trans h)
  cases ht with
  | first _ other ha hr =>
    have hl : (s.tasks ++ [(s.issued, (⟨other, .spawned⟩ : LoadTask))]).lookup t =
        some ⟨id, phase⟩ := by
      have hs : s.tasks.lookup t = some ⟨id, phase⟩ := h
      rw [List.lookup_append, hs, Option.some_or]
    exact .inl hl
  | began n other waiters hk hr =>
    rcases hentered n other .spawned .fetching hk (by decide) with hs | ⟨hs, hl⟩
    · exact .inl hs
    · exact .inr (.inr ⟨_, hs, hl⟩)
  | fetched n other waiters source hk hr =>
    rcases hentered n other .fetching .evaluating hk (by decide) with hs | ⟨hs, hl⟩
    · exact .inl hs
    · exact .inr (.inr ⟨_, hs, hl⟩)
  | failed n other waiters failure hk hr => exact (hremoved n).imp_right .inl
  | evaluated n other waiters result hk hr => exact (hremoved n).imp_right .inl
  | joined | answered | refused | dropped | kept | gaveUp | paused | resumed | skipped | aborted =>
    exact .inl h

theorem record_task {s : Loads X} (hr : Reachable s) {id : ModuleId} {record : Record X CallId}
    (hf : s.registry.find? id = some record) (ho : record.outcome? = none) :
    ∃ t phase, s.task? t = some ⟨id, phase⟩ := by
  have hcoupled := (hr.valid.sound id).current
  simp only [view, hf] at hcoupled
  have hfound : ∀ t phase, s.tasksOf id = [(t, ⟨id, phase⟩)] → s.task? t = some ⟨id, phase⟩ := by
    intro t phase ht
    have hmem : (t, (⟨id, phase⟩ : LoadTask)) ∈ s.tasksOf id := by simp [ht]
    exact Association.lookup_of_mem hr.valid.keys (List.mem_filter.mp hmem).1
  cases record with
  | pending waiters =>
    obtain ⟨t, ht, -⟩ := hcoupled.of_pending
    exact ⟨t, _, hfound t _ ht⟩
  | loading waiters =>
    obtain ⟨-, ⟨t, ht, -⟩ | ⟨t, source, ht, -⟩⟩ := hcoupled.of_loading
    · exact ⟨t, _, hfound t _ ht⟩
    · exact ⟨t, _, hfound t _ ht⟩
  | ready value => cases ho
  | failed failure => cases ho

/-- There is a task for every call without an outcome. -/
theorem waiting_task {s : Loads X} (hr : Reachable s) {c : CallId} {id : ModuleId}
    (hc : s.call? c = some ⟨id, none⟩) : ∃ t phase, s.task? t = some ⟨id, phase⟩ := by
  obtain ⟨record, hf, hm⟩ := hr.awaited c id hc
  apply record_task hr hf
  cases record with
  | pending | loading => rfl
  | ready | failed => simp [Record.waiters] at hm

def Delivered (s : Loads X) (c : CallId) : Prop :=
  ∃ id outcome, s.call? c = some ⟨id, some outcome⟩

/-- A call waits for a task until it has its outcome, is over, or the task is in a later
phase. -/
theorem turn_waiting {s s' : Loads X} {a : LoadStep X} (hs : Reachable s')
    (ht : Turn s a s') {c t : CallId} {id : ModuleId} {phase : Phase}
    (hc : s.call? c = some ⟨id, none⟩) (hk : s.task? t = some ⟨id, phase⟩) :
    (s'.call? c = some ⟨id, none⟩ ∧ s'.task? t = some ⟨id, phase⟩) ∨
      Delivered s' c ∨ Over s' c ∨ ∃ next, s'.call? c = some ⟨id, none⟩ ∧
        s'.task? t = some ⟨id, next⟩ ∧ left next < left phase := by
  rcases turn_call ht hc with ⟨⟨other, delivered⟩, hc', hid, -⟩ | hover
  · obtain rfl : other = id := hid
    cases delivered with
    | some outcome => exact .inr (.inl ⟨other, outcome, hc'⟩)
    | none =>
      rcases turn_task ht hk with hk' | hnone | ⟨next, hk', hl⟩
      · exact .inl ⟨hc', hk'⟩
      · -- A task that is over has settled the record, and nobody waits there any more.
        obtain ⟨-, outcome, hsettled⟩ := turn_settles ht hk hnone
        obtain ⟨record, hf, hm⟩ := hs.awaited c other hc'
        obtain rfl := Option.some.inj (hf.symm.trans hsettled)
        simp [ofOutcome_waiters] at hm
      · exact .inr (.inr (.inr ⟨next, hc', hk', hl⟩))
  · exact .inr (.inr (.inl hover))

theorem task_leads (r : Run X) (hf : Fair r) {t : CallId} {id : ModuleId} {P Q : Loads X → Prop}
    (hturn : ∀ s a s' phase, Reachable s' → Turn s a s' → P s → s.task? t = some ⟨id, phase⟩ →
      (P s' ∧ s'.task? t = some ⟨id, phase⟩) ∨ Q s' ∨
        ∃ next, P s' ∧ s'.task? t = some ⟨id, next⟩ ∧ left next < left phase)
    {n : Nat} {phase : Phase} (hp : P (r.state n)) (ht : (r.state n).task? t = some ⟨id, phase⟩) :
    ∃ m, n ≤ m ∧ Q (r.state m) := by
  -- Each phase of the task comes to its end, and there are only so many left.
  induction hk : left phase using Nat.strongRecOn generalizing n phase with
  | ind k ih =>
    obtain ⟨m, hnm, hend⟩ := hf.tasks n t _ ht
    obtain ⟨m, hnm, hq | ⟨next, hp', ht', hl⟩⟩ := r.leads
      (P := fun s => P s ∧ s.task? t = some ⟨id, phase⟩)
      (fun _ _ _ _ hs h hstep => hturn _ _ _ phase hs hstep h.1 h.2) ⟨hp, ht⟩
      ⟨m, hnm, fun h => hend h.2⟩
    · exact ⟨m, hnm, hq⟩
    · obtain ⟨l, hml, hq⟩ := ih (left next) (hk ▸ hl) hp' ht' rfl
      exact ⟨l, Nat.le_trans hnm hml, hq⟩

theorem waiting_ends (r : Run X) (hf : Fair r) {n : Nat} {c t : CallId} {id : ModuleId}
    {phase : Phase} (hc : (r.state n).call? c = some ⟨id, none⟩)
    (ht : (r.state n).task? t = some ⟨id, phase⟩) :
    ∃ m, n ≤ m ∧ (Delivered (r.state m) c ∨ Over (r.state m) c) :=
  task_leads r hf (P := fun s => s.call? c = some ⟨id, none⟩)
    (Q := fun s => Delivered s c ∨ Over s c)
    (fun _ _ _ _ hs hturn hc hk => (turn_waiting hs hturn hc hk).imp_right or_assoc.mpr) hc ht

/-! ## The queue moves -/

theorem turn_queue {s s' : Loads X} {a : LoadStep X} (ht : Turn s a s') :
    (∃ rest, s'.queue = s.queue ++ rest) ∨
      ∃ c, s.queue = c :: s'.queue ∧ (Delivered s c → Over s' c) := by
  cases ht with
  | failed t id waiters failure hk hr => exact .inl ⟨_, rfl⟩
  | evaluated t id waiters result hk hr => exact .inl ⟨_, rfl⟩
  | resumed c queue id outcome hq hc =>
    exact .inr ⟨c, hq, fun _ => .inr ⟨outcome, by simp [note]⟩⟩
  | skipped c queue hq hc =>
    refine .inr ⟨c, hq, fun hd => ?_⟩
    obtain ⟨id, outcome, h⟩ := hd
    exact absurd h (hc id outcome)
  | first | joined | answered | refused | dropped | kept | gaveUp | began | paused | fetched
  | aborted => exact .inl ⟨[], (List.append_nil _).symm⟩

theorem turn_delivered {s s' : Loads X} {a : LoadStep X} (ht : Turn s a s') {c : CallId}
    (h : Delivered s c) : Delivered s' c ∨ Over s' c := by
  obtain ⟨id, outcome, hc⟩ := h
  rcases turn_call ht hc with ⟨⟨other, delivered⟩, hc', -, hd⟩ | hover
  · obtain ⟨o, rfl⟩ := Option.isSome_iff_exists.mp (hd rfl)
    exact .inl ⟨other, o, hc'⟩
  · exact .inr hover

theorem turn_front {s s' : Loads X} {a : LoadStep X} (ht : Turn s a s') {c : CallId}
    (hd : Delivered s c) (hq : ∃ after, s.queue = c :: after) :
    (Delivered s' c ∧ ∃ after, s'.queue = c :: after) ∨ Over s' c := by
  obtain ⟨after, hq⟩ := hq
  rcases turn_delivered ht hd with hd' | hover
  · rcases turn_queue ht with ⟨rest, hq'⟩ | ⟨head, hq', hover⟩
    · exact .inl ⟨hd', after ++ rest, by rw [hq', hq, List.cons_append]⟩
    · obtain ⟨rfl, -⟩ := List.cons.inj (hq.symm.trans hq')
      exact .inr (hover hd)
  · exact .inr hover

theorem turn_behind {s s' : Loads X} {a : LoadStep X} (ht : Turn s a s') {b c : CallId}
    {before : List CallId} (hd : Delivered s c)
    (hq : ∃ after, s.queue = b :: before ++ c :: after) :
    (Delivered s' c ∧ ∃ after, s'.queue = b :: before ++ c :: after) ∨
      Over s' c ∨ Delivered s' c ∧ ∃ after, s'.queue = before ++ c :: after := by
  obtain ⟨after, hq⟩ := hq
  rcases turn_delivered ht hd with hd' | hover
  · rcases turn_queue ht with ⟨rest, hq'⟩ | ⟨head, hq', -⟩
    · exact .inl ⟨hd', after ++ rest, by rw [hq', hq]; simp⟩
    · obtain ⟨-, hqueue⟩ := List.cons.inj (hq.symm.trans hq')
      exact .inr (.inr ⟨hd', after, hqueue.symm⟩)
  · exact .inr (.inl hover)

theorem queue_ends (r : Run X) (hf : Fair r) {c : CallId} (before : List CallId) :
    ∀ n, Delivered (r.state n) c → (∃ after, (r.state n).queue = before ++ c :: after) →
      ∃ m, n ≤ m ∧ Over (r.state m) c := by
  induction before with
  | nil =>
    intro n hd ⟨after, hq⟩
    obtain ⟨m, hnm, hend⟩ := hf.queue n c (by simp [hq])
    exact r.leads (P := fun s => Delivered s c ∧ ∃ after, s.queue = c :: after)
      (Q := fun s => Over s c) (fun _ _ _ _ _ hp ht => turn_front ht hp.1 hp.2) ⟨hd, after, hq⟩
      ⟨m, hnm, fun ⟨_, after, h⟩ => hend (by simp [h])⟩
  | cons b before ih =>
    intro n hd ⟨after, hq⟩
    obtain ⟨m, hnm, hend⟩ := hf.queue n b (by simp [hq])
    obtain ⟨m, hnm, hover | ⟨hd', hq'⟩⟩ := r.leads
      (P := fun s => Delivered s c ∧ ∃ after, s.queue = b :: before ++ c :: after)
      (fun _ _ _ _ _ hp ht => turn_behind ht hp.1 hp.2) ⟨hd, after, hq⟩
      ⟨m, hnm, fun ⟨_, after, h⟩ => hend (by simp [h])⟩
    · exact ⟨m, hnm, hover⟩
    · obtain ⟨l, hml, hover⟩ := ih m hd' hq'
      exact ⟨l, Nat.le_trans hnm hml, hover⟩

/-- In a fair run every call comes to its end. -/
theorem eventually_over (r : Run X) (hf : Fair r) {n : Nat} {c : CallId}
    (hc : c ∈ (r.state n).history.called) : ∃ m, n ≤ m ∧ Over (r.state m) c := by
  have hqueue : ∀ m, n ≤ m → Delivered (r.state m) c → ∃ l, n ≤ l ∧ Over (r.state l) c := by
    intro m hnm ⟨id, outcome, hl⟩
    obtain ⟨before, after, hq⟩ := List.append_of_mem ((r.reachable m).queued c id outcome hl)
    obtain ⟨l, hml, hover⟩ := queue_ends r hf before m ⟨id, outcome, hl⟩ ⟨after, hq⟩
    exact ⟨l, Nat.le_trans hnm hml, hover⟩
  rcases (r.reachable n).present hc with ⟨⟨id, delivered⟩, hl⟩ | hover
  · cases delivered with
    | some outcome => exact hqueue n (Nat.le_refl n) ⟨id, outcome, hl⟩
    | none =>
      obtain ⟨t, phase, ht⟩ := waiting_task (r.reachable n) hl
      obtain ⟨m, hnm, hd | hover⟩ := waiting_ends r hf hl ht
      · exact hqueue m hnm hd
      · exact ⟨m, hnm, hover⟩
  · exact ⟨n, Nat.le_refl n, hover⟩

theorem sent_returned_eq (r : Run X) {n m : Nat} (hnm : n ≤ m) {c : CallId} {id : ModuleId}
    {outcome other : LoadResult X} (hc : (r.state n).call? c = some ⟨id, some outcome⟩)
    (hm : .returned c other ∈ (r.state m).history) : other = outcome := by
  have hn := r.reachable n
  have hholds : Holds (r.state n) c outcome := .inl ⟨id, hc⟩
  obtain ⟨hcalled, hagrees⟩ := r.stable
    (P := fun s => c ∈ s.history.called ∧ Agrees s c outcome)
    (fun _ _ _ hr hp ht => ⟨called_mono ht hp.1, turn_agrees hr ht hp.1 hp.2⟩) hnm
    ⟨holds_called hn hholds, hn.agrees hholds⟩
  obtain ⟨id', g, hg, hcg⟩ := called_generation hcalled
  have hsame := (r.reachable m).agrees (.inr hm) id' g hg hcg
  rw [hagrees id' g hg hcg] at hsame
  exact (Option.some.inj hsame).symm

/-- All calls of a generation get its one outcome. Those that were attached are sent it once, in
the order in which they came, and resume in this order; nobody is told that a load was aborted,
and in a fair run everybody who is not given up returns. -/
theorem one_outcome_for_all (r : Run X) :
    (∀ n id, ∀ g ∈ (r.state n).history.generations id,
      (∀ c ∈ g.calls, ∀ outcome, .returned c outcome ∈ (r.state n).history →
        g.outcome? = some outcome) ∧
      g.attached.Nodup ∧
      g.sent = (match g.outcome? with
        | some outcome => g.attached.map (·, outcome)
        | none => []) ∧
      ((r.state n).history.returned.filter (· ∈ g.attached)).Sublist g.attached) ∧
    (∀ n m c id outcome other, n ≤ m → (r.state n).call? c = some ⟨id, some outcome⟩ →
      .returned c other ∈ (r.state m).history → other = outcome) ∧
    (∀ n c, (r.state n).abort c = none ∧ .aborted c ∉ (r.state n).history) ∧
    (Fair r → ∀ n id, ∀ g ∈ (r.state n).history.generations id, ∀ c ∈ g.calls,
      ∃ m, n ≤ m ∧ (.givenUp c ∈ (r.state m).history ∨
        ∃ outcome, .returned c outcome ∈ (r.state m).history)) := by
  refine ⟨?_, ?_, ?_, ?_⟩
  · intro n id g hg
    have hr := r.reachable n
    refine ⟨?_, (hr.attached_sublist hg).nodup (calls_nodup hr.called_nodup hg),
      hr.valid.served hg, hr.resumed_in_order hg⟩
    intro c hc outcome hm
    exact hr.agrees (.inr hm) id g hg hc
  · intro n m c id outcome other hnm hc hm
    exact sent_returned_eq r hnm hc hm
  · intro n c
    exact ⟨(r.reachable n).no_abort c, (r.reachable n).not_aborted c⟩
  · intro hf n id g hg c hc
    exact eventually_over r hf (calls_called hg hc)

/-- The run that takes the steps one after the other and then rests. A step that cannot be taken
is left out. -/
def Run.ofSteps (steps : List (LoadStep X)) : Run X where
  state n := (steps.take n).foldl (fun s a => (s.step a).getD s) start
  first := rfl
  next := by
    intro n
    rw [List.take_add_one, List.foldl_append]
    generalize (steps.take n).foldl (fun s a => (s.step a).getD s) start = s
    cases steps[n]? with
    | none => exact .inl rfl
    | some a =>
      cases hs : s.step a with
      | none => exact .inl (by simp [hs])
      | some s' => exact .inr ⟨a, by simp [hs]⟩

theorem Run.ofSteps_fair (steps : List (LoadStep X))
    (ht : ((ofSteps steps).state steps.length).tasks = [])
    (hq : ((ofSteps steps).state steps.length).queue = []) : Fair (ofSteps steps) := by
  have hrest : ∀ n, steps.length ≤ n →
      (ofSteps steps).state n = (ofSteps steps).state steps.length := by
    intro n hn
    simp only [ofSteps, List.take_of_length_le hn, List.take_length]
  constructor
  · intro n t task _
    refine ⟨max n steps.length, Nat.le_max_left _ _, ?_⟩
    rw [hrest _ (Nat.le_max_right _ _), task?, ht]
    simp
  · intro n c _
    refine ⟨max n steps.length, Nat.le_max_left _ _, ?_⟩
    rw [hrest _ (Nat.le_max_right _ _), hq]
    simp

/-- Three callers, of whom one goes away, and a drop before anybody resumes. -/
theorem outcome_after_drop :
    let id : ModuleId := ⟨⟨['m'], none, .rooted [['a']], none⟩⟩
    let r : Run Nat := .ofSteps [.load id, .load id, .load id, .begin 0, .giveUp 1,
      .endFetch 0 (.ok "text"), .endEvaluation 0 (.error ⟨"text", none⟩), .invalidate id, .resume,
      .resume, .resume]
    Fair r ∧ (r.state 11).history.returned = [0, 2] ∧ (r.state 8).abort 2 = none ∧
      ∃ m, 3 ≤ m ∧ (.givenUp 2 ∈ (r.state m).history ∨
        ∃ outcome, .returned 2 outcome ∈ (r.state m).history) := by
  intro id r
  have hfair : Fair r := Run.ofSteps_fair _ (by decide +kernel) (by decide +kernel)
  have hcaller : (2, id) ∈ callers (r.state 3).history := by decide +kernel
  obtain ⟨g, hg, hc⟩ := mem_calls.mpr (mem_callers.mp hcaller)
  obtain ⟨-, -, hnone, hends⟩ := one_outcome_for_all r
  exact ⟨hfair, by decide +kernel, (hnone 8 2).1, hends hfair 3 id g hg 2 hc⟩

end ScriptHost.Loads
