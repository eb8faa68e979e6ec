import ScriptHost.Proofs.Registry.Progress
import ScriptHost.Proofs.Registry.Without

/-!
# Giving up

Two runs stand beside each other that take the same steps, except that in one of
them some callers give up and in the other these stay, so that they have turns
in the queue of their own. All else is the same after every step: records and
tasks, fetches and evaluations, and what everybody else gets and when. A record
that nobody waits for is settled all the same, and later loads find it so.
-/

set_option autoImplicit false

namespace ScriptHost.Loads

variable {X : Type} {gone : CallId → Bool} {steps steps' : List (LoadStep X)}
  {s s' t t' : Loads X}

/-! ## Runs beside each other -/

/-- A run, and one with the same steps in which some callers do not give up. The turns of these
callers in the queue are the only steps that one side takes without the other. -/
inductive Beside (gone : CallId → Bool) :
    List (LoadStep X) → Loads X → List (LoadStep X) → Loads X → Prop
  | start : Beside gone [] start [] start
  | both {steps steps' : List (LoadStep X)} {s t s' t' : Loads X} (a : LoadStep X)
      (h : Beside gone steps s steps' s') (hs : Stays gone s a) (hs' : Stays gone s' a)
      (ha : s.step a = some t) (ha' : s'.step a = some t') :
      Beside gone (steps ++ [a]) t (steps' ++ [a]) t'
  | gaveUp {steps steps' : List (LoadStep X)} {s t s' : Loads X} (c : CallId)
      (h : Beside gone steps s steps' s') (hc : gone c = true)
      (ha : s.step (.giveUp c) = some t) : Beside gone (steps ++ [.giveUp c]) t steps' s'
  | passed {steps steps' : List (LoadStep X)} {s t s' : Loads X} (c : CallId)
      (h : Beside gone steps s steps' s') (hc : gone c = true) (hq : s.queue.head? = some c)
      (ha : s.step .resume = some t) : Beside gone (steps ++ [.resume]) t steps' s'
  | stayed {steps steps' : List (LoadStep X)} {s s' t' : Loads X} (c : CallId)
      (h : Beside gone steps s steps' s') (hc : gone c = true) (hq : s'.queue.head? = some c)
      (ha : s'.step .resume = some t') : Beside gone steps s (steps' ++ [.resume]) t'

/-- The steps of a run without those by which the two sides may differ. -/
def common (gone : CallId → Bool) (steps : List (LoadStep X)) : List (LoadStep X) :=
  steps.filter fun
    | .giveUp c => !gone c
    | .resume => false
    | _ => true

theorem common_append (gone : CallId → Bool) (steps rest : List (LoadStep X)) :
    common gone (steps ++ rest) = common gone steps ++ common gone rest := List.filter_append ..

theorem common_gaveUp {c : CallId} (hc : gone c = true) :
    common gone [(.giveUp c : LoadStep X)] = [] := by
  simp [common, hc]

theorem common_resume : common gone [(.resume : LoadStep X)] = [] := rfl

namespace Beside

theorem left (h : Beside gone steps s steps' s') : Loads.start.run steps = some s := by
  induction h with
  | start => rfl
  | both a h hs hs' ha ha' ih => exact run_snoc ih ha
  | gaveUp c h hc ha ih => exact run_snoc ih ha
  | passed c h hc hq ha ih => exact run_snoc ih ha
  | stayed c h hc hq ha ih => exact ih

theorem right (h : Beside gone steps s steps' s') : Loads.start.run steps' = some s' := by
  induction h with
  | start => rfl
  | both a h hs hs' ha ha' ih => exact run_snoc ih ha'
  | gaveUp c h hc ha ih => exact ih
  | passed c h hc hq ha ih => exact ih
  | stayed c h hc hq ha ih => exact run_snoc ih ha

theorem alike (h : Beside gone steps s steps' s') : s.without gone = s'.without gone := by
  induction h with
  | start => rfl
  | both a h hs hs' ha ha' ih =>
    have hstep := step_alike gone ih hs hs'
    rw [ha, ha'] at hstep
    exact Option.some.inj hstep
  | gaveUp c h hc ha ih => exact (giveUp_gone gone hc ha).trans ih
  | passed c h hc hq ha ih => exact (resume_gone gone hq hc ha).trans ih
  | stayed c h hc hq ha ih => exact ih.trans (resume_gone gone hq hc ha).symm

theorem common_eq (h : Beside gone steps s steps' s') : common gone steps = common gone steps' := by
  induction h with
  | start => rfl
  | both a h hs hs' ha ha' ih => rw [common_append, common_append, ih]
  | gaveUp c h hc ha ih => rw [common_append, common_gaveUp hc, List.append_nil, ih]
  | passed c h hc hq ha ih => rw [common_append, common_resume, List.append_nil, ih]
  | stayed c h hc hq ha ih => rw [common_append, common_resume, List.append_nil, ih]

theorem no_drops (h : Beside gone steps s steps' s') {c : CallId} (hc : gone c = true) :
    .giveUp c ∉ steps' := by
  induction h with
  | start => simp
  | both a h hs hs' ha ha' ih =>
    rw [List.mem_append, List.mem_singleton, not_or]
    refine ⟨ih, ?_⟩
    rintro rfl
    exact absurd hc (Bool.eq_false_iff.mp hs)
  | gaveUp c h hc ha ih => exact ih
  | passed c h hc hq ha ih => exact ih
  | stayed c h hc hq ha ih => simpa using ih

/-! ## One more step -/

theorem reach_front (h : Beside gone steps s steps' s') {before after : List CallId} {c : CallId}
    (hq : s'.queue = before ++ c :: after) (hb : ∀ other ∈ before, gone other = true) :
    ∃ turns t', Beside gone steps s (steps' ++ turns) t' ∧ t'.queue.head? = some c := by
  induction before generalizing steps' s' with
  | nil => exact ⟨[], s', by rwa [List.append_nil], by rw [hq]; rfl⟩
  | cons first before ih =>
    have hfirst : s'.queue.head? = some first := by rw [hq]; rfl
    obtain ⟨t, ha⟩ := resume_isSome hfirst
    have hqueue : t.queue = before ++ c :: after := by
      rw [resume, hq] at ha
      simp only [List.cons_append] at ha
      split at ha <;> exact Option.some.inj ha ▸ rfl
    obtain ⟨turns, t', hbeside, hfront⟩ := ih (h.stayed first (hb first (by simp)) hfirst ha)
      hqueue fun other hm => hb other (List.mem_cons_of_mem _ hm)
    exact ⟨.resume :: turns, t', by rwa [List.append_cons], hfront⟩

theorem both_of_stays (h : Beside gone steps s steps' s') {a : LoadStep X}
    (hs : Stays gone s a) (hs' : Stays gone s' a) (ha : s.step a = some t) :
    ∃ t', Beside gone (steps ++ [a]) t (steps' ++ [a]) t' := by
  have hstep := step_alike gone h.alike hs hs'
  rw [ha, Option.map_some] at hstep
  obtain ⟨t', ha', -⟩ := Option.map_eq_some_iff.mp hstep.symm
  exact ⟨t', h.both a hs hs' ha ha'⟩

/-- A caller at the front of the queue who is to stay has before it on the other side only some
of those by which the sides differ. -/
theorem front_after (h : Beside gone steps s steps' s') {c : CallId}
    (hq : s.queue.head? = some c) (hc : gone c = false) :
    ∃ before after, s'.queue = before ++ c :: after ∧ ∀ other ∈ before, gone other = true := by
  obtain ⟨rest, hrest⟩ := List.head?_eq_some_iff.mp hq
  have hqueue : s'.queue.filter (!gone ·) = c :: rest.filter (!gone ·) := by
    have hsame : s.queue.filter (!gone ·) = s'.queue.filter (!gone ·) :=
      congrArg Loads.queue h.alike
    rw [← hsame, hrest]
    simp [hc]
  obtain ⟨before, after, hcut, hbefore, -, -⟩ := List.filter_eq_cons_iff.mp hqueue
  exact ⟨before, after, hcut, fun other hm => by simpa using hbefore other hm⟩

theorem extend (h : Beside gone steps s steps' s') {a : LoadStep X} (ha : s.step a = some t) :
    ∃ turns t', Beside gone (steps ++ [a]) t (steps' ++ turns) t' := by
  have hboth : Stays gone s a → Stays gone s' a →
      ∃ turns t', Beside gone (steps ++ [a]) t (steps' ++ turns) t' := by
    intro hs hs'
    obtain ⟨t', hbeside⟩ := h.both_of_stays hs hs' ha
    exact ⟨[a], t', hbeside⟩
  have hskipped : Beside gone (steps ++ [a]) t steps' s' →
      ∃ turns t', Beside gone (steps ++ [a]) t (steps' ++ turns) t' :=
    fun hbeside => ⟨[], s', by rwa [List.append_nil]⟩
  -- A step about those who stay is taken on both sides. One of a caller who gives up is left
  -- out on the other side, which may be further on in the queue.
  cases a with
  | giveUp c =>
    cases hc : gone c with
    | true => exact hskipped (h.gaveUp c hc ha)
    | false => exact hboth hc hc
  | resume =>
    cases hq : s.queue.head? with
    | none =>
      have hnil : s.queue = [] := by simpa using hq
      simp [step, resume, hnil] at ha
    | some c =>
      cases hc : gone c with
      | true => exact hskipped (h.passed c hc hq ha)
      | false =>
        -- On the other side those who stay may stand first, and have their turns before.
        obtain ⟨before, after, hcut, hbefore⟩ := h.front_after hq hc
        obtain ⟨turns, u', hbeside, hfront⟩ := h.reach_front hcut hbefore
        obtain ⟨t', hlast⟩ :=
          hbeside.both_of_stays (a := .resume) ⟨c, hq, hc⟩ ⟨c, hfront, hc⟩ ha
        exact ⟨turns ++ [.resume], t', by rwa [← List.append_assoc]⟩
  | abort c =>
    have hr : Reachable s := ⟨steps, h.left⟩
    rw [step, hr.no_abort c] at ha
    cases ha
  | load | loadSpecifier | invalidate | begin | suspend | endFetch | endEvaluation =>
    exact hboth trivial trivial

end Beside

theorem exists_beside (gone : CallId → Bool) (hr : start.run steps = some s) :
    ∃ steps' s', Beside gone steps s steps' s' := by
  refine runsBy.induct (P := fun steps s => ∃ steps' s', Beside gone steps s steps' s')
    ⟨[], start, .start⟩ ?_ hr
  intro steps s a t _ hp ha
  obtain ⟨steps', s', h⟩ := hp
  obtain ⟨turns, t', hnext⟩ := h.extend ha
  exact ⟨steps' ++ turns, t', hnext⟩

/-! ## Records that nobody waits for -/

theorem task_settles (r : Run X) (hf : Fair r) {n : Nat} {t : CallId} {id : ModuleId}
    {phase : Phase} (ht : (r.state n).task? t = some ⟨id, phase⟩) :
    ∃ m, n ≤ m ∧ ∃ outcome, (r.state m).registry.find? id = some (.ofOutcome outcome) := by
  refine task_leads r hf (P := fun _ => True)
    (Q := fun s => ∃ outcome, s.registry.find? id = some (.ofOutcome outcome)) ?_ trivial ht
  intro s a s' phase _ hturn _ hk
  rcases turn_task hturn hk with hsame | hnone | ⟨next, hnext, hl⟩
  · exact .inl ⟨trivial, hsame⟩
  · exact .inr (.inl (turn_settles hturn hk hnone).2)
  · exact .inr (.inr ⟨next, trivial, hnext, hl⟩)

theorem record_settles (r : Run X) (hf : Fair r) {n : Nat} {id : ModuleId}
    {record : Record X CallId} (h : (r.state n).registry.find? id = some record) :
    ∃ m, n ≤ m ∧ ∃ outcome, (r.state m).registry.find? id = some (.ofOutcome outcome) := by
  cases ho : record.outcome? with
  | some outcome => exact ⟨n, Nat.le_refl n, outcome, by rw [h, Registry.eq_ofOutcome ho]⟩
  | none =>
    obtain ⟨t, phase, ht⟩ := record_task (r.reachable n) h ho
    exact task_settles r hf ht

/-- Nothing is fetched or evaluated for an identifier whose record is settled. -/
theorem turn_quiet {a : LoadStep X} (ht : Turn s a s') {id : ModuleId} {outcome : LoadResult X}
    (hf : s.registry.find? id = some (.ofOutcome outcome)) :
    s'.history.fetches id = s.history.fetches id ∧
      s'.history.evaluations id = s.history.evaluations id := by
  -- every turn that fetches or evaluates is about a record that is still loading
  have hne : ∀ other record, s.registry.find? other = some record → record.outcome? = none →
      other ≠ id := by
    rintro other record hr ho rfl
    obtain rfl := Option.some.inj (hr.symm.trans hf)
    rw [Registry.outcome_ofOutcome] at ho
    cases ho
  have hrest : ∀ rest : History X, History.fetches rest id = 0 → History.evaluations rest id = [] →
      History.fetches (s.history ++ rest) id = s.history.fetches id ∧
        History.evaluations (s.history ++ rest) id = s.history.evaluations id := by
    intro rest hfetches hevaluations
    refine ⟨?_, ?_⟩
    · rw [History.fetches, List.countP_append]
      exact (congrArg _ hfetches).trans (Nat.add_zero _)
    · rw [History.evaluations, List.filterMap_append]
      exact (congrArg _ hevaluations).trans (List.append_nil _)
  cases ht with
  | began t other waiters hk hr =>
    have ho := hne other _ hr rfl
    exact hrest _ (by simp [History.fetches, ho]) rfl
  | fetched t other waiters source hk hr =>
    have ho := hne other _ hr rfl
    exact hrest _ rfl (by simp [History.evaluations, ho])
  | failed t other waiters failure hk hr =>
    exact hrest _ (by simp [History.fetches, List.countP_map, Function.comp_def])
      (by simp [History.evaluations, List.filterMap_map, Function.comp_def])
  | evaluated t other waiters result hk hr =>
    exact hrest _ (by simp [History.fetches, List.countP_map, Function.comp_def])
      (by simp [History.evaluations, List.filterMap_map, Function.comp_def])
  | paused | skipped => exact ⟨rfl, rfl⟩
  | first | joined | answered | refused | dropped | kept | gaveUp | resumed | aborted =>
    exact hrest _ rfl rfl

/-- A settled record serves all loads to come until it is dropped, without another fetch. -/
theorem run_settled {rest : List (LoadStep X)} {id : ModuleId} {outcome : LoadResult X}
    (hs : Reachable s) (hf : s.registry.find? id = some (.ofOutcome outcome))
    (hk : .invalidate id ∉ rest) (hr : s.run rest = some t) :
    t.registry.find? id = some (.ofOutcome outcome) ∧
      t.history.fetches id = s.history.fetches id ∧
      t.history.evaluations id = s.history.evaluations id := by
  refine (runsBy.keeps (P := fun t => Reachable t ∧
    t.registry.find? id = some (.ofOutcome outcome) ∧
    t.history.fetches id = s.history.fetches id ∧
    t.history.evaluations id = s.history.evaluations id) ?_ hr ⟨hs, hf, rfl, rfl⟩).2
  intro t a next hm ⟨ht, hf, hfetches, hevaluations⟩ ha
  have hturn := ht.turn ha
  have hchange := turn_change hturn id
  rw [hf] at hchange
  have hkept : next.registry.find? id = some (.ofOutcome outcome) := by
    rcases hchange.kept (by simp [Record.isSettled, Registry.outcome_ofOutcome]) with he | ⟨he, -⟩
    · exact he
    · exact absurd (he ▸ hm) hk
  obtain ⟨hfetches', hevaluations'⟩ := turn_quiet hturn hf
  exact ⟨ht.step ha, hkept, hfetches'.trans hfetches, hevaluations'.trans hevaluations⟩

theorem step_target {a : LoadStep X} {id : ModuleId} (ha : a.target? = some id) :
    s.step a = some (s.load id) := by
  cases a with
  | load other => rw [Option.some.inj ha]; rfl
  | loadSpecifier specifier base =>
    cases hr : ModuleId.resolve specifier base with
    | error failure => simp [LoadStep.target?, hr, Except.toOption] at ha
    | ok other =>
      have ho : other = id := by simpa [LoadStep.target?, hr, Except.toOption] using ha
      simp [step, loadSpecifier, hr, ho]
  | _ => cases ha

theorem load_settled {id : ModuleId} {outcome : LoadResult X}
    (hf : s.registry.find? id = some (.ofOutcome outcome)) :
    s.load id = { s with
      issued := s.issued + 1
      history := s.history ++ [.called s.issued id, .returned s.issued outcome] } := by
  simp [load, Registry.load, hf, Registry.outcome_ofOutcome]

/-! ## Nobody is disturbed -/

/-- Beside every run there is one in which some callers do not give up, and it goes on with
whatever the run does next. After each step the two have the same records and tasks and the same
fetches and evaluations, and all other callers have got the same in the same order. A record is
settled even if everybody gave up, and serves later loads without another fetch. -/
theorem giving_up_disturbs_nobody (gone : CallId → Bool) :
    (∀ (steps : List (LoadStep X)) s, start.run steps = some s →
      ∃ steps' s', Beside gone steps s steps' s') ∧
    (∀ (steps : List (LoadStep X)) s steps' s', Beside gone steps s steps' s' →
      start.run steps = some s ∧ start.run steps' = some s' ∧
      common gone steps = common gone steps' ∧ (∀ c, gone c → .giveUp c ∉ steps') ∧
      s.registry = s'.registry ∧ s.tasks = s'.tasks ∧
      (∀ id, s.history.fetches id = s'.history.fetches id ∧
        s.history.evaluations id = s'.history.evaluations id) ∧
      answers gone s.history = answers gone s'.history ∧
      ∀ a t, s.step a = some t →
        ∃ turns t', Beside gone (steps ++ [a]) t (steps' ++ turns) t') ∧
    (∀ r : Run X, Fair r → ∀ n id record, (r.state n).registry.find? id = some record →
      ∃ m, n ≤ m ∧ ∃ outcome, (r.state m).registry.find? id = some (.ofOutcome outcome)) ∧
    ∀ (steps : List (LoadStep X)) s, start.run steps = some s →
      ∀ id outcome, s.registry.find? id = some (.ofOutcome outcome) →
      ∀ rest t, .invalidate id ∉ rest → s.run rest = some t →
        t.history.fetches id = s.history.fetches id ∧
        t.history.evaluations id = s.history.evaluations id ∧
        ∀ a, a.target? = some id → t.step a = some { t with
          issued := t.issued + 1
          history := t.history ++ [.called t.issued id, .returned t.issued outcome] } := by
  refine ⟨fun steps s => exists_beside gone, ?_, fun r hf n id record => record_settles r hf, ?_⟩
  · intro steps s steps' s' h
    have halike := h.alike
    have hregistry : (s.without gone).registry = (s'.without gone).registry := by rw [halike]
    have htasks : (s.without gone).tasks = (s'.without gone).tasks := by rw [halike]
    refine ⟨h.left, h.right, h.common_eq, fun c => h.no_drops, hregistry, htasks, ?_, ?_,
      fun a t => h.extend⟩
    · intro id
      rw [← fetches_without gone, ← evaluations_without gone, halike, fetches_without,
        evaluations_without]
      exact ⟨rfl, rfl⟩
    · rw [← answers_without gone, halike, answers_without]
  · intro steps s hs id outcome hf rest t hk hr
    obtain ⟨hf', hfetches, hevaluations⟩ := run_settled ⟨steps, hs⟩ hf hk hr
    refine ⟨hfetches, hevaluations, ?_⟩
    intro a ha
    rw [step_target ha, load_settled hf']

def leftId : ModuleId := ⟨⟨['m'], none, .rooted [['a']], none⟩⟩

/-- Of three callers the first gives up while the module is fetched and the second when its
outcome is there. -/
def leaving : List (LoadStep Nat) :=
  [.load leftId, .load leftId, .load leftId, .begin 0, .giveUp 0, .endFetch 0 (.ok "text"),
    .endEvaluation 0 (.ok 7), .giveUp 1, .resume, .resume]

theorem leaving_disturbs_nobody : ∃ s steps' s',
    start.run leaving = some s ∧ start.run steps' = some s' ∧ .giveUp 0 ∉ steps' ∧
    .giveUp 1 ∉ steps' ∧ answers (· < 2) s'.history = [(2, .ok 7)] ∧
    s'.history.fetches leftId = 1 ∧
    (∃ m, 5 ≤ m ∧ ∃ outcome,
      ((Run.ofSteps leaving).state m).registry.find? leftId = some (.ofOutcome outcome)) ∧
    s.step (.load leftId) = some { s with
      issued := s.issued + 1
      history := s.history ++ [.called s.issued leftId, .returned s.issued (.ok 7)] } := by
  have hrun : (start.run leaving).map (fun s => (answers (· < 2) s.history,
      s.history.fetches leftId)) = some ([(2, .ok 7)], 1) := by decide +kernel
  obtain ⟨s, hs, hseen⟩ := Option.map_eq_some_iff.mp hrun
  have hrecord : (start.run leaving).bind (·.registry.find? leftId) = some (.ofOutcome (.ok 7)) :=
    rfl
  rw [hs, Option.bind_some] at hrecord
  have hloading : ((Run.ofSteps leaving).state 5).registry.find? leftId =
      some (.loading [0, 1, 2]) := rfl
  have hfair : Fair (Run.ofSteps leaving) :=
    Run.ofSteps_fair _ (by decide +kernel) (by decide +kernel)
  obtain ⟨hexists, hbeside, hsettles, hserves⟩ :=
    giving_up_disturbs_nobody (X := Nat) (· < 2)
  obtain ⟨steps', s', h⟩ := hexists leaving s hs
  obtain ⟨-, hs', -, hkept, -, -, hcounts, hanswers, -⟩ := hbeside leaving s steps' s' h
  refine ⟨s, steps', s', hs, hs', hkept 0 rfl, hkept 1 rfl, ?_, ?_,
    hsettles _ hfair 5 leftId _ hloading, ?_⟩
  · rw [← hanswers]
    exact congrArg Prod.fst hseen
  · rw [← (hcounts leftId).1]
    exact congrArg Prod.snd hseen
  · exact (hserves leaving s hs leftId (.ok 7) hrecord [] s (by simp) rfl).2.2 _ rfl

end ScriptHost.Loads
