import ScriptHost.Proofs.Dispatch.Told

/-!
# The outcome of a run

A run does exactly one of five things. As long as its module loads its call waits
in the loads; from then on it can go on whatever the engine answers, and none of
its further turns changes the loads. Only a run without a target writes.
-/

set_option autoImplicit false

namespace ScriptHost.Dispatcher

variable {X M : Type} {d d' : Dispatcher X M} {loads : Loads X} {n : RunId} {r : EntryRun X}
  {view host : HostView}

/-- The calls of runs that load wait in the loads, one for each. -/
structure Waits (d : Dispatcher X M) : Prop where
  present : ∀ n r call, (n, r) ∈ d.runs → r.phase = .loading call →
    ∃ delivered, d.loads.call? call = some ⟨r.id, delivered⟩
  apart : ∀ n r n' r' call, (n, r) ∈ d.runs → (n', r') ∈ d.runs → r.phase = .loading call →
    r'.phase = .loading call → n = n'

namespace Waits

theorem fewer (h : Waits d) (hl : d'.loads = d.loads)
    (hr : ∀ n r call, (n, r) ∈ d'.runs → r.phase = .loading call → (n, r) ∈ d.runs) :
    Waits d' where
  present := by
    intro n r call hm hp
    rw [hl]
    exact h.present n r call (hr n r call hm hp) hp
  apart := by
    intro n r n' r' call hm hm' hp hp'
    exact h.apart n r n' r' call (hr n r call hm hp) (hr n' r' call hm' hp') hp hp'

/-- The loads go on, and each call of a run that loads returns or waits on. -/
theorem follow (hw : ∀ n r call, (n, r) ∈ d.runs → r.phase = .loading call →
      (∃ outcome, newReturn? d.loads loads = some (call, outcome)) ∨
        ∃ delivered, loads.call? call = some ⟨r.id, delivered⟩)
    (ha : ∀ n r n' r' call, (n, r) ∈ d.runs → (n', r') ∈ d.runs → r.phase = .loading call →
      r'.phase = .loading call → n = n') : Waits (d.follow loads) := by
  unfold Dispatcher.follow
  split
  · next hn =>
    refine ⟨?_, ha⟩
    intro n r call hm hp
    rcases hw n r call hm hp with ⟨outcome, ho⟩ | hc
    · rw [hn] at ho
      cases ho
    · exact hc
  · next call outcome hn =>
    have hold : ∀ n r other, (n, r) ∈ (Dispatcher.hand { d with loads } call outcome).runs →
        r.phase = .loading other → (n, r) ∈ d.runs ∧ other ≠ call := by
      intro n r other hm hp
      obtain ⟨⟨m, old⟩, ho, he⟩ := List.mem_map.mp hm
      obtain ⟨rfl, rfl⟩ : m = n ∧ receive call outcome old = r := by simpa using he
      by_cases hk : awaits call old
      · rw [receive, if_pos hk] at hp
        cases hp
      · rw [receive, if_neg hk] at hp ⊢
        refine ⟨ho, fun he => hk (awaits_iff.mpr ?_)⟩
        rw [hp, he]
    constructor
    · intro n r other hm hp
      obtain ⟨ho, hne⟩ := hold n r other hm hp
      rcases hw n r other ho hp with ⟨outcome', he⟩ | hc
      · rw [hn] at he
        cases he
        exact absurd rfl hne
      · exact hc
    · intro n r n' r' other hm hm' hp hp'
      exact ha n r n' r' other (hold n r other hm hp).1 (hold n' r' other hm' hp').1 hp hp'

theorem start (config : Config) : Waits (start config : Dispatcher X M) := by
  constructor <;> simp [Dispatcher.start]

theorem lt_issued (h : Waits d) (hl : d.loads.Reachable) {call : CallId} (hm : (n, r) ∈ d.runs)
    (hp : r.phase = .loading call) : call < d.loads.issued := by
  obtain ⟨delivered, hc⟩ := h.present n r call hm hp
  exact hl.called_lt call (hl.known.calls call (Loads.call_key hc))

theorem begin (h : Waits d) (hl : d.loads.Reachable) (view host : HostView) :
    Waits (d.begin view host) := by
  unfold Dispatcher.begin
  dsimp only
  split
  · exact h.fewer rfl fun n r call hm hp => hm
  · exact h.fewer rfl fun n r call hm hp => hm
  · next id _ =>
    have hnew : ∀ m r call, (m, r) ∈ d.runs ++
        [(d.issued, EntryRun.mk view host id (.loading d.loads.issued))] →
        r.phase = .loading call → (m, r) ∈ d.runs ∧ call < d.loads.issued ∨
          m = d.issued ∧ r.id = id ∧ call = d.loads.issued := by
      intro m r call hm hp
      rcases List.mem_append.mp hm with hm | hm
      · exact .inl ⟨hm, h.lt_issued hl hm hp⟩
      · cases List.mem_singleton.mp hm
        cases hp
        exact .inr ⟨rfl, rfl, rfl⟩
    unfold ask
    apply follow
    · intro m r call hm hp
      rcases hnew m r call hm hp with ⟨hm, -⟩ | ⟨rfl, rfl, rfl⟩
      · obtain ⟨delivered, hc⟩ := h.present m r call hm hp
        exact turn_waits (Loads.turn_of_load d.loads (.load id) id rfl) hc (by simp)
      · exact (load_waits hl r.id).2
    · intro m r m' r' call hm hm' hp hp'
      rcases hnew m r call hm hp with ⟨hm, hlt⟩ | ⟨rfl, -, he⟩ <;>
        rcases hnew m' r' call hm' hp' with ⟨hm', hlt'⟩ | ⟨rfl, -, he'⟩
      · exact h.apart m r m' r' call hm hm' hp hp'
      · exact absurd he' (Nat.ne_of_lt hlt)
      · exact absurd he (Nat.ne_of_lt hlt')
      · rfl

theorem load (h : Waits d) (hl : d.loads.Reachable) {a : LoadStep X}
    (hs : d.loads.step a = some loads) (ho : d.isOwn a = false) : Waits (d.follow loads) := by
  apply follow
  · intro n r call hm hp
    obtain ⟨delivered, hc⟩ := h.present n r call hm hp
    apply turn_waits (hl.turn hs) hc
    rintro rfl
    have hany : d.runs.any (awaits call ·.2) := List.any_eq_true.mpr ⟨(n, r), hm, awaits_iff.mpr hp⟩
    rw [isOwn, hany] at ho
    cases ho
  · exact h.apart

theorem goOn (h : Waits d) (outcome : LoadResult X) (main? : X → Option M) :
    Waits (d.goOn n r outcome main?) := by
  apply h.fewer (goOn_loads ..)
  intro m other call hm hp
  unfold Dispatcher.goOn at hm
  dsimp only at hm
  split at hm
  · exact (List.mem_filter.mp hm).1
  · obtain ⟨⟨k, old⟩, ho, he⟩ := List.mem_map.mp hm
    obtain ⟨rfl, rfl⟩ := Prod.mk.inj he
    by_cases hk : k = n
    · simp [hk] at hp
    · simpa [hk] using ho

theorem giveUp (h : Waits d) (hm : (n, r) ∈ d.runs) :
    Waits (d.giveUp n r) := by
  have hleft : ∀ m other, (m, other) ∈ (d.giveUp n r).runs → (m, other) ∈ d.runs ∧ m ≠ n :=
    fun m other ho => ⟨(List.mem_filter.mp ho).1, of_decide_eq_true (List.mem_filter.mp ho).2⟩
  constructor
  · intro m other call ho hp
    obtain ⟨ho, hne⟩ := hleft m other ho
    obtain ⟨delivered, hc⟩ := h.present m other call ho hp
    refine ⟨delivered, ?_⟩
    rw [giveUp_loads]
    cases hr : r.phase with
    | loading given =>
      have hcall : call ≠ given := fun he => hne (h.apart m other n r call ho hm hp (he ▸ hr))
      show ((d.loads.giveUp given).getD d.loads).call? call = _
      unfold Loads.giveUp
      split
      · show (d.loads.removeCall given).call? call = _
        rw [Loads.removeCall_lookup, if_neg hcall, hc]
      · exact hc
    | loaded outcome => exact hc
    | calling => exact hc
  · intro m other m' other' call ho ho' hp hp'
    exact h.apart m other m' other' call (hleft m other ho).1 (hleft m' other' ho').1 hp hp'

end Waits

theorem start_told (config : Config) (loads : Loads X) :
    Told (start config : Dispatcher X M) loads := by
  constructor <;> simp [start]

theorem step_told {a : Step X M} (h : Told d d.loads) (hl : d.loads.Reachable)
    (hs : d.step a = some d') : Told d' d'.loads := by
  cases a with
  | begin view host =>
    obtain rfl := Option.some.inj hs
    exact h.begin hl view host
  | load b =>
    obtain ⟨loads, -, hb, rfl⟩ := step_load hs
    obtain ⟨rest, hh⟩ := Loads.turn_history (hl.turn hb)
    have hmono : Told d loads := h.mono fun event hm => hh ▸ List.mem_append_left _ hm
    rw [follow_loads]
    exact hmono.follow fun call outcome => newReturn_mem
  | goOn n main? =>
    obtain ⟨r, outcome, hr, hp, rfl⟩ := step_goOn hs
    rw [goOn_loads]
    exact h.goOn hr hp main?
  | endMain n ended =>
    obtain ⟨r, hr, hp, rfl⟩ := step_endMain hs
    exact h.endMain hr hp ended
  | giveUp n =>
    obtain ⟨r, hr, rfl⟩ := step_giveUp hs
    apply (h.giveUp hr).mono
    intro event hm
    rw [giveUp_loads]
    cases r.phase with
    | loading call =>
      show event ∈ ((d.loads.giveUp call).getD d.loads).history
      unfold Loads.giveUp
      split
      · exact List.mem_append_left _ hm
      · exact hm
    | loaded outcome => exact hm
    | calling => exact hm

theorem step_waits {a : Step X M} (h : Waits d) (hl : d.loads.Reachable)
    (hs : d.step a = some d') : Waits d' := by
  cases a with
  | begin view host =>
    obtain rfl := Option.some.inj hs
    exact h.begin hl view host
  | load b =>
    obtain ⟨loads, ho, hb, rfl⟩ := step_load hs
    exact h.load hl hb ho
  | goOn n main? =>
    obtain ⟨r, outcome, -, -, rfl⟩ := step_goOn hs
    exact h.goOn outcome main?
  | endMain n ended =>
    obtain ⟨r, -, -, rfl⟩ := step_endMain hs
    exact h.fewer rfl fun n r call hm _ => (List.mem_filter.mp hm).1
  | giveUp n =>
    obtain ⟨r, hr, rfl⟩ := step_giveUp hs
    exact h.giveUp hr

theorem Reachable.told (h : Reachable d) : Told d d.loads ∧ Waits d := by
  apply h.induct
  · exact fun config => ⟨start_told config _, Waits.start config⟩
  · intro d a d' hr hp hs
    exact ⟨step_told hp.1 hr.loads hs, step_waits hp.2 hr.loads hs⟩

/-- What a run that is under way waits for: its call, which is there, or a turn of the engine,
which may be any and leaves the loads alone. -/
def GoesOn (d : Dispatcher X M) (n : RunId) (r : EntryRun X) : Prop :=
  match r.phase with
  | .loading call => ∃ delivered, d.loads.call? call = some ⟨r.id, delivered⟩
  | .loaded _ => ∀ main? : X → Option M, ∃ d', d.step (.goOn n main?) = some d' ∧ d'.loads = d.loads
  | .calling => ∀ ended, ∃ d', d.step (.endMain n ended) = some d' ∧ d'.loads = d.loads

theorem Told.goesOn (h : Told d d.loads) (hw : Waits d) (hr : (n, r) ∈ d.runs) :
    GoesOn d n r := by
  have hl : d.runs.lookup n = some r := Association.lookup_of_mem h.distinct hr
  unfold GoesOn
  cases hp : r.phase with
  | loading call => exact hw.present n r call hr hp
  | loaded outcome =>
    intro main?
    exact ⟨d.goOn n r outcome main?, by simp [step, hl, hp], goOn_loads ..⟩
  | calling =>
    intro ended
    exact ⟨d.endMain n r.id ended, by simp [step, hl, hp], rfl⟩

theorem begin_calls (d : Dispatcher X M) (view host : HostView) :
    (∃ id, Names view id ∧ (d.begin view host).loads = d.loads.load id) ∨
      (∀ id, ¬ Names view id) ∧ (d.begin view host).loads = d.loads := by
  rw [begin_loads]
  obtain ⟨ha, ho⟩ | ⟨target, failure, ha, hf, ho⟩ | ⟨id, hn, ho⟩ := opening_cases d.config view
  · rw [ho]
    refine .inr ⟨?_, rfl⟩
    rintro id ⟨target, ht, -⟩
    obtain ⟨hlt, -⟩ := List.getElem?_eq_some_iff.mp ht
    omega
  · rw [ho]
    refine .inr ⟨?_, rfl⟩
    rintro id ⟨target', ht, hr⟩
    rw [ha] at ht
    cases ht
    rw [hf] at hr
    cases hr
  · rw [ho]
    exact .inl ⟨id, hn, rfl⟩

/-- A run that began has told one whole story, and no other, is under way in one and can go on, or
was given up. What it does to the loads is one call of its module, if it has one. -/
theorem run_outcome {config : Config} {steps : List (Step X M)}
    (hr : (start config).run steps = some d) (hb : (n, .began view host) ∈ d.history) :
    ((∃ c result, d.result? n = some result ∧
        Story config d.loads view host c (d.trace n) result ∧
        ∀ c' result', Story config d.loads view host c' (d.trace n) result' →
          c' = c ∧ result' = result) ∨
      d.result? n = none ∧
        ((∃ r, d.runs.lookup n = some r ∧ r.view = view ∧ r.host = host ∧ Names view r.id ∧
            Stage config d.loads r (d.trace n) ∧ GoesOn d n r) ∨
          ∃ r events, r.view = view ∧ r.host = host ∧ Names view r.id ∧
            Stage config d.loads r events ∧ d.trace n = events ++ [.givenUp])) ∧
    ∀ view host, (∃ id, Names view id ∧ (d.begin view host).loads = d.loads.load id) ∨
      (∀ id, ¬ Names view id) ∧ (d.begin view host).loads = d.loads := by
  refine ⟨?_, begin_calls d⟩
  obtain ⟨ht, hw⟩ := Reachable.told ⟨config, steps, hr⟩
  have hc : d.config = config := run_config hr
  have hmem : .began view host ∈ d.trace n :=
    List.mem_filterMap.mpr ⟨(n, .began view host), hb, if_pos rfl⟩
  by_cases hk : n ∈ d.runs.map (·.1)
  · obtain ⟨⟨m, r⟩, hm, rfl⟩ := List.mem_map.mp hk
    have hs : Stage d.config d.loads r (d.trace m) := ht.stage m r hm
    obtain ⟨rfl, rfl⟩ := hs.began hmem
    rw [hc] at hs
    exact .inr ⟨hs.unended, .inl ⟨r, Association.lookup_of_mem ht.distinct hm, rfl, rfl,
      ht.names m r hm, hs, ht.goesOn hw hm⟩⟩
  · have ho : Over config d.loads view host (d.trace n) := hc ▸ ht.gone n view host hb hk
    unfold result?
    generalize d.trace n = told at ho
    cases ho with
    | ended c _ result hs => exact .inl ⟨c, result, hs.ends, hs, fun c' result' => hs.unique⟩
    | givenUp r events hn hs hv hh =>
      refine .inr ⟨?_, .inr ⟨r, events, hv, hh, hv ▸ hn, hs, rfl⟩⟩
      rw [List.findSome?_append, hs.unended]
      rfl

def failing (view host : HostView) : List (Step Nat Unit) :=
  [.begin ⟨view.cwd, ["zoe"]⟩ host, .begin view host, .load (.begin 0),
    .load (.endFetch 0 (.ok "text")), .load (.endEvaluation 0 (.ok 7)), .load .resume,
    .goOn 1 fun _ => some (), .endMain 1 (.error ⟨"Error: boom", none⟩)]

theorem failing_outcome :
    let cwd : ModuleId := ⟨⟨"file".toList, some ⟨[], none, none⟩, .rooted ["app".toList, []], none⟩⟩
    let view : HostView := ⟨cwd, ["zoe", "main.js"]⟩
    let config : Config := { Config.initial with entryMode := .raw }
    ∃ d, (start config).run (failing view view) = some d ∧
      (1, .began view view) ∈ d.history ∧
      ∃ c, Story config d.loads view view c (d.trace 1)
        (.error (.entryFailed "file:///app/main.js" "Error: boom")) := by
  intro cwd view config
  have hrun : ((start config).run (failing view view)).map (fun d =>
      (d.result? 1, d.history.any (· = (1, .began view view)))) =
      some (some (.error (.entryFailed "file:///app/main.js" "Error: boom")), true) := by
    decide +kernel
  obtain ⟨d, hr, hd⟩ := Option.map_eq_some_iff.mp hrun
  obtain ⟨hres, hany⟩ := Prod.mk.inj hd
  have hb : (1, .began view view) ∈ d.history := by simpa using hany
  obtain ⟨⟨c, result, he, hs, -⟩ | ⟨hn, -⟩, -⟩ := run_outcome hr hb
  · rw [hres] at he
    exact ⟨d, hr, hb, c, Option.some.inj he ▸ hs⟩
  · rw [hres] at hn
    cases hn

end ScriptHost.Dispatcher
