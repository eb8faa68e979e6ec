import ScriptHost.Proofs.Dispatch.Stories

/-!
# Every run tells its story

Each turn adds to the history of one run, or hands to the run that waits for it
the outcome of a call. What runs have told is at every moment the beginning of a
story as far as their phases, or a whole story.
-/

set_option autoImplicit false

namespace ScriptHost.Dispatcher

variable {X M : Type} {d d' : Dispatcher X M} {loads loads' : Loads X} {run n : RunId}
  {r : EntryRun X} {view host : HostView} {events : List (RunEvent X M)}

section Traces

theorem note_trace (d : Dispatcher X M) (n m : RunId) (events : List (RunEvent X M)) :
    (d.note n events).trace m = d.trace m ++ if m = n then events else [] := by
  show (d.history ++ events.map (n, ·)).filterMap _ = _
  rw [List.filterMap_append, List.filterMap_map]
  by_cases h : m = n
  · subst h
    simp [trace, Function.comp_def]
  · simp [trace, Function.comp_def, h, Ne.symm h]

theorem note_trace_self (d : Dispatcher X M) (n : RunId) (events : List (RunEvent X M)) :
    (d.note n events).trace n = d.trace n ++ events := by rw [note_trace, if_pos rfl]

theorem note_trace_other {m : RunId} (h : m ≠ n) (d : Dispatcher X M)
    (events : List (RunEvent X M)) : (d.note n events).trace m = d.trace m := by
  rw [note_trace, if_neg h, List.append_nil]

/-- What other runs tell is nothing of this one. -/
theorem trace_apart {history : List (RunId × RunEvent X M)}
    (hh : d'.history = d.history ++ history) (hn : ∀ entry ∈ history, entry.1 ≠ n) :
    d'.trace n = d.trace n := by
  have hnil : history.filterMap (fun entry => if entry.1 = n then some entry.2 else none) = [] :=
    List.filterMap_eq_nil_iff.mpr fun entry he => if_neg (hn entry he)
  rw [trace, hh, List.filterMap_append, hnil, List.append_nil]
  rfl

theorem note_past {bound : RunId} (h : ∀ entry ∈ d.history, entry.1 < bound) (hn : n < bound) :
    ∀ entry ∈ (d.note n events).history, entry.1 < bound := by
  intro entry hm
  rcases List.mem_append.mp hm with hm | hm
  · exact h entry hm
  · obtain ⟨event, -, rfl⟩ := List.mem_map.mp hm
    exact hn

theorem note_began {m : RunId} (h : (m, .began view host) ∈ (d.note n events).history) :
    (m, .began view host) ∈ d.history ∨ m = n ∧ .began view host ∈ events := by
  rcases List.mem_append.mp h with hm | hm
  · exact Or.inl hm
  · obtain ⟨event, he, heq⟩ := List.mem_map.mp hm
    cases heq
    exact Or.inr ⟨rfl, he⟩

theorem note_note (d : Dispatcher X M) (n : RunId) (events rest : List (RunEvent X M)) :
    (d.note n events).note n rest = d.note n (events ++ rest) := by
  simp [note]

theorem hand_trace (d : Dispatcher X M) (call : CallId) (outcome : LoadResult X) (n : RunId) :
    (d.hand call outcome).trace n = d.trace n ++
      (d.runs.filter fun entry => awaits call entry.2 && entry.1 = n).map fun _ =>
        .loaded outcome := by
  show (d.history ++ _).filterMap _ = _
  rw [List.filterMap_append]
  congr 1
  induction d.runs with
  | nil => rfl
  | cons entry rest ih =>
    by_cases ha : awaits call entry.2
    · by_cases hn : entry.1 = n
      · simp [ha, hn, ih]
      · simp [ha, hn, ih]
    · simp [ha, ih]

theorem filter_of_absent {runs : List (RunId × EntryRun X)} (hn : n ∉ runs.map (·.1))
    (keep : EntryRun X → Bool) :
    (runs.filter fun entry => keep entry.2 && entry.1 = n) = [] := by
  apply List.filter_eq_nil_iff.mpr
  intro entry hm he
  simp only [Bool.and_eq_true, decide_eq_true_eq] at he
  exact hn (List.mem_map.mpr ⟨entry, hm, he.2⟩)

theorem filter_of_mem {runs : List (RunId × EntryRun X)} (hn : (runs.map (·.1)).Nodup)
    (hm : (n, r) ∈ runs) (keep : EntryRun X → Bool) :
    (runs.filter fun entry => keep entry.2 && entry.1 = n) = if keep r then [(n, r)] else [] := by
  induction runs with
  | nil => simp at hm
  | cons entry rest ih =>
    obtain ⟨hk, hrest⟩ := List.nodup_cons.mp hn
    rcases List.mem_cons.mp hm with rfl | hm
    · cases hr : keep r <;> simp [hr, filter_of_absent hk keep]
    · have hne : entry.1 ≠ n := fun he => hk (List.mem_map.mpr ⟨(n, r), hm, he.symm⟩)
      rw [List.filter_cons_of_neg (by simp [hne])]
      exact ih hrest hm

end Traces

/-- What runs have told, with loads that may be those after the turn that is taken. -/
structure Told (d : Dispatcher X M) (loads : Loads X) : Prop where
  distinct : (d.runs.map (·.1)).Nodup
  old : ∀ entry ∈ d.runs, entry.1 < d.issued
  past : ∀ entry ∈ d.history, entry.1 < d.issued
  names : ∀ n r, (n, r) ∈ d.runs → Names r.view r.id
  stage : ∀ n r, (n, r) ∈ d.runs → Stage d.config loads r (d.trace n)
  gone : ∀ n view host, (n, .began view host) ∈ d.history → n ∉ d.runs.map (·.1) →
    Over d.config loads view host (d.trace n)

namespace Told

theorem trace_new (h : Told d loads) : d.trace d.issued = [] := by
  apply List.filterMap_eq_nil_iff.mpr
  intro entry hm
  exact if_neg (Nat.ne_of_lt (h.past entry hm))

theorem mono (h : Told d loads) (hm : ∀ event ∈ loads.history, event ∈ loads'.history) :
    Told d loads' where
  distinct := h.distinct
  old := h.old
  past := h.past
  names := h.names
  stage := fun n r hr => (h.stage n r hr).mono hm
  gone := fun n view host hb hn => (h.gone n view host hb hn).mono hm

theorem closed (h : Told d loads) (hs : ∀ view host, .began view host ∈ events →
    Over d.config loads view host events) :
    Told ({ d with issued := d.issued + 1 }.note d.issued events) loads where
  distinct := h.distinct
  old := fun entry hm => Nat.lt_succ_of_lt (h.old entry hm)
  past := note_past (fun entry hm => Nat.lt_succ_of_lt (h.past entry hm)) (Nat.lt_succ_self _)
  names := h.names
  stage := by
    intro n r hr
    have hn : n ≠ d.issued := Nat.ne_of_lt (h.old _ hr)
    rw [note_trace_other hn]
    exact h.stage n r hr
  gone := by
    intro n view host hb hn
    rcases note_began hb with hb | ⟨rfl, he⟩
    · have hne : n ≠ d.issued := Nat.ne_of_lt (h.past _ hb)
      rw [note_trace_other hne]
      exact h.gone n view host hb hn
    · have ht : ({ d with issued := d.issued + 1 } : Dispatcher X M).trace d.issued = [] :=
        h.trace_new
      rw [note_trace_self, ht]
      exact hs view host he

theorem asked (h : Told d loads) {id : ModuleId} {call : CallId} (host : HostView) (hn : Names view id)
    (hc : .called call id ∈ loads.history) :
    Told (({ d with
        issued := d.issued + 1
        runs := d.runs ++ [(d.issued, EntryRun.mk view host id (.loading call))] }.note d.issued
      [.began view host, .asked id call])) loads where
  distinct := by
    show (List.map (fun entry : RunId × EntryRun X => entry.1) (d.runs ++ _)).Nodup
    rw [List.map_append]
    apply List.nodup_append.mpr
    refine ⟨h.distinct, by simp, ?_⟩
    intro key hk new hm
    obtain ⟨entry, he, rfl⟩ := List.mem_map.mp hk
    rw [List.mem_singleton.mp hm]
    exact Nat.ne_of_lt (h.old entry he)
  old := by
    intro entry hm
    rcases List.mem_append.mp hm with hm | hm
    · exact Nat.lt_succ_of_lt (h.old entry hm)
    · rw [List.mem_singleton.mp hm]
      exact Nat.lt_succ_self _
  past := note_past (fun entry hm => Nat.lt_succ_of_lt (h.past entry hm)) (Nat.lt_succ_self _)
  names := by
    intro n r hm
    rcases List.mem_append.mp hm with hm | hm
    · exact h.names n r hm
    · cases List.mem_singleton.mp hm
      exact hn
  stage := by
    intro n r hm
    rcases List.mem_append.mp hm with hm | hm
    · have hne : n ≠ d.issued := Nat.ne_of_lt (h.old _ hm)
      rw [note_trace_other hne]
      exact h.stage n r hm
    · cases List.mem_singleton.mp hm
      have ht : Dispatcher.trace { d with
          issued := d.issued + 1
          runs := d.runs ++ [(d.issued, EntryRun.mk view host id (.loading call))] } d.issued = [] :=
        h.trace_new
      rw [note_trace_self, ht]
      exact .loading call rfl hc
  gone := by
    intro n view' host' hb hm
    have hne : n ≠ d.issued := fun he => hm (by simp [he])
    rw [note_trace_other hne]
    -- the new run has begun, but it is still there
    rcases note_began hb with hb | ⟨he, -⟩
    · apply h.gone n view' host' hb
      intro hk
      apply hm
      obtain ⟨entry, he, rfl⟩ := List.mem_map.mp hk
      exact List.mem_map_of_mem (List.mem_append_left _ he)
    · exact absurd he hne

theorem left (h : Told d loads) (hr : (n, r) ∈ d.runs)
    (hs : Over d.config loads r.view r.host (d.trace n ++ events))
    (hb : ∀ view host, .began view host ∉ events) :
    Told ((d.remove n).note n events) loads where
  distinct := (List.filter_sublist.map _).nodup h.distinct
  old := fun entry hm => h.old entry (List.mem_filter.mp hm).1
  past := note_past h.past (h.old _ hr)
  names := fun n r hm => h.names n r (List.mem_filter.mp hm).1
  stage := by
    intro m r hm
    obtain ⟨hm, hne⟩ := List.mem_filter.mp hm
    have hne : m ≠ n := of_decide_eq_true hne
    rw [note_trace_other hne]
    exact h.stage m r hm
  gone := by
    intro m view host hm hk
    have hb : (m, .began view host) ∈ d.history :=
      (note_began hm).resolve_right fun hn => hb view host hn.2
    by_cases hne : m = n
    · subst hne
      have ht : .began view host ∈ d.trace m :=
        List.mem_filterMap.mpr ⟨(m, .began view host), hb, if_pos rfl⟩
      obtain ⟨rfl, rfl⟩ := (h.stage m r hr).began ht
      rw [note_trace_self]
      exact hs
    · rw [note_trace_other hne]
      apply h.gone m view host hb
      intro hkey
      apply hk
      obtain ⟨entry, he, rfl⟩ := List.mem_map.mp hkey
      exact List.mem_map.mpr ⟨entry, List.mem_filter.mpr ⟨he, by simpa using hne⟩, rfl⟩

theorem phased (h : Told d loads) (change : RunId × EntryRun X → EntryRun X)
    (history : List (RunId × RunEvent X M))
    (hr : d'.runs = d.runs.map fun entry => (entry.1, change entry))
    (hi : d'.issued = d.issued) (hc : d'.config = d.config)
    (hh : d'.history = d.history ++ history)
    (hp : ∀ entry ∈ history, entry.1 ∈ d.runs.map (·.1))
    (hb : ∀ n view host, (n, .began view host) ∉ history)
    (hv : ∀ entry, (change entry).view = entry.2.view ∧ (change entry).id = entry.2.id)
    (hs : ∀ n r, (n, r) ∈ d.runs → Stage d.config loads (change (n, r)) (d'.trace n)) :
    Told d' loads := by
  have hkeys : d'.runs.map (·.1) = d.runs.map (·.1) := by
    rw [hr, List.map_map]
    rfl
  have hmem : ∀ n r, (n, r) ∈ d'.runs → ∃ old, (n, old) ∈ d.runs ∧ r = change (n, old) := by
    intro n r hm
    rw [hr] at hm
    obtain ⟨⟨m, old⟩, ho, he⟩ := List.mem_map.mp hm
    cases he
    exact ⟨old, ho, rfl⟩
  constructor
  case distinct => exact hkeys ▸ h.distinct
  case old =>
    intro entry hm
    obtain ⟨old, ho, -⟩ := hmem entry.1 entry.2 hm
    rw [hi]
    exact h.old (entry.1, old) ho
  case past =>
    intro entry hm
    rw [hh] at hm
    rw [hi]
    rcases List.mem_append.mp hm with hm | hm
    · exact h.past entry hm
    · obtain ⟨old, ho, he⟩ := List.mem_map.mp (hp entry hm)
      rw [← he]
      exact h.old old ho
  case names =>
    intro n r hm
    obtain ⟨old, ho, rfl⟩ := hmem n r hm
    rw [(hv _).1, (hv _).2]
    exact h.names n old ho
  case stage =>
    intro n r hm
    obtain ⟨old, ho, rfl⟩ := hmem n r hm
    rw [hc]
    exact hs n old ho
  case gone =>
    intro n view host hm hn
    rw [hkeys] at hn
    have hapart : ∀ entry ∈ history, entry.1 ≠ n := fun entry he hk => hn (hk ▸ hp entry he)
    rw [hc, trace_apart hh hapart]
    rw [hh] at hm
    rcases List.mem_append.mp hm with hm | hm
    · exact h.gone n view host hm hn
    · exact absurd hm (hb n view host)

theorem follow (h : Told d loads)
    (hn : ∀ call outcome, newReturn? d.loads loads = some (call, outcome) →
      .returned call outcome ∈ loads.history) : Told (d.follow loads) loads := by
  unfold Dispatcher.follow
  split
  · exact ⟨h.distinct, h.old, h.past, h.names, h.stage, h.gone⟩
  · next call outcome he =>
    have hl : Told { d with loads } loads :=
      ⟨h.distinct, h.old, h.past, h.names, h.stage, h.gone⟩
    apply hl.phased (fun entry => receive call outcome entry.2)
      ((d.runs.filter (awaits call ·.2)).map fun entry => (entry.1, .loaded outcome))
    · rfl
    · rfl
    · rfl
    · rfl
    · intro entry hm
      obtain ⟨old, ho, rfl⟩ := List.mem_map.mp hm
      exact List.mem_map_of_mem (List.mem_filter.mp ho).1
    · intro n view host hm
      obtain ⟨old, -, he⟩ := List.mem_map.mp hm
      cases he
    · intro entry
      unfold receive
      split <;> exact ⟨rfl, rfl⟩
    · intro n r hm
      rw [hand_trace]
      show Stage d.config loads (receive call outcome r) (d.trace n ++
        (d.runs.filter fun entry => awaits call entry.2 && entry.1 = n).map _)
      rw [filter_of_mem h.distinct hm]
      have hst := h.stage n r hm
      by_cases ha : awaits call r
      · rw [if_pos ha]
        exact hst.receive ha (hn call outcome he)
      · rw [if_neg ha, receive, if_neg ha]
        exact (List.append_nil (d.trace n)).symm ▸ hst

theorem goOn (h : Told d loads) {outcome : LoadResult X} (hr : (n, r) ∈ d.runs)
    (hp : r.phase = .loaded outcome) (main? : X → Option M) :
    Told (d.goOn n r outcome main?) loads := by
  obtain ⟨call, hc, hret, ht⟩ := (h.stage n r hr).of_loaded hp
  have hn := h.names n r hr
  cases outcome with
  | error failure =>
    apply h.left hr
    · rw [ht]
      exact .ended .unloaded _ _ (.unloaded r.id call failure hn hc hret)
    · simp
  | ok exports =>
    have hg := grants d.config.entryMode r.view r.host
    unfold Dispatcher.goOn Dispatch.continuation
    cases hm : main? exports with
    | none =>
      simp only [hm]
      apply h.left hr
      · rw [ht]
        exact .ended .mainless _ _ (.mainless r.id call exports _ hn hc hret hg)
      · simp
    | some main =>
      simp only [hm]
      apply h.phased
        (fun entry => if entry.1 = n then { entry.2 with phase := .calling } else entry.2)
        [(n, .invoked exports (d.config.entryMode.argument r.view r.host) (some main))]
      · rfl
      · rfl
      · rfl
      · rfl
      · intro entry he
        rw [List.mem_singleton.mp he]
        exact List.mem_map_of_mem hr
      · simp
      · intro entry
        split <;> exact ⟨rfl, rfl⟩
      · intro m other ho
        rw [note_trace]
        show Stage _ _ _ (d.trace m ++ _)
        by_cases hmn : m = n
        · subst hmn
          -- no other run has this number
          have he : other = r := by
            have h1 := Association.lookup_of_mem h.distinct ho
            rw [Association.lookup_of_mem h.distinct hr] at h1
            exact (Option.some.inj h1).symm
          subst he
          simp only [if_pos, ht]
          exact .calling call exports _ main rfl hc hret hg
        · simp only [if_neg hmn, List.append_nil]
          exact h.stage m other ho

theorem endMain (h : Told d loads) (hr : (n, r) ∈ d.runs) (hp : r.phase = .calling)
    (ended : Except EngineFailure Unit) : Told (d.endMain n r.id ended) loads := by
  obtain ⟨call, exports, argument, main, hc, hret, hg, ht⟩ := (h.stage n r hr).of_calling hp
  apply h.left hr
  · rw [ht]
    exact .ended .called _ _ (.called r.id call exports argument main ended _ (h.names n r hr) hc
      hret hg (closing_ends r.id ended))
  · simp

theorem giveUp (h : Told d loads) (hr : (n, r) ∈ d.runs) : Told (d.giveUp n r) loads := by
  have hl : ∀ loads', Told { d with loads := loads' } loads := fun _ =>
    ⟨h.distinct, h.old, h.past, h.names, h.stage, h.gone⟩
  apply (hl (d.giveUp n r).loads).left hr
  · exact .givenUp r _ (h.names n r hr) (h.stage n r hr) rfl rfl
  · simp

theorem begin (h : Told d d.loads) (hl : d.loads.Reachable) (view host : HostView) :
    Told (d.begin view host) (d.begin view host).loads := by
  rw [begin_loads]
  unfold Dispatcher.begin
  simp only [note_config]
  obtain ⟨ha, ho⟩ | ⟨target, failure, ha, hf, ho⟩ | ⟨id, hn, ho⟩ := opening_cases d.config view
  · simp only [ho, note_note]
    apply h.closed
    intro view' host' hm
    obtain ⟨rfl, rfl⟩ : view' = view ∧ host' = host := by simpa using hm
    exact .ended .usage _ _ (.usage ha)
  · simp only [ho, note_note]
    apply h.closed
    intro view' host' hm
    obtain ⟨rfl, rfl⟩ : view' = view ∧ host' = host := by simpa using hm
    exact .ended .unresolved _ _ (.unresolved target failure ha hf)
  · simp only [ho]
    have hmono : ∀ event ∈ d.loads.history, event ∈ (d.loads.load id).history := by
      obtain ⟨rest, hh⟩ := Loads.turn_history (Loads.turn_of_load d.loads (.load id) id rfl)
      intro event hm
      rw [hh]
      exact List.mem_append_left _ hm
    have hasked := (h.mono hmono).asked host hn (load_waits hl id).1
    have hnote : ask ({ d with issued := d.issued + 1 }.note d.issued [.began view host]) d.issued
        view host id = Dispatcher.follow ({ d with
          issued := d.issued + 1
          runs := d.runs ++ [(d.issued, EntryRun.mk view host id (.loading d.loads.issued))] }.note
            d.issued [.began view host, .asked id d.loads.issued]) (d.loads.load id) := by
      simp [ask, note]
    rw [hnote]
    exact hasked.follow fun call outcome => newReturn_mem

end Told

end ScriptHost.Dispatcher
