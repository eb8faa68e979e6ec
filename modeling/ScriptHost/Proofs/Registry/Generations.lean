import ScriptHost.Proofs.Registry.Invariant

/-!
# Generations and their calls

A call belongs to one generation of one identifier, for good. A turn adds calls
to the current generation or goes on with its load, and leaves a generation that
has an outcome as it is, but for calls that get this outcome at once.
-/

set_option autoImplicit false

namespace ScriptHost.Loads

variable {X : Type}

/-! ## The generation of a call -/

def callers (h : History X) : List (CallId × ModuleId) :=
  h.filterMap fun
    | .called c id => some (c, id)
    | _ => none

def callsOf (h : History X) (id : ModuleId) : List CallId :=
  ((callers h).filter (·.2 = id)).map (·.1)

theorem callers_called (h : History X) : (callers h).map (·.1) = h.called := by
  rw [callers, History.called, List.map_filterMap]
  congr 1
  funext e
  cases e <;> rfl

theorem mem_callers {h : History X} {c : CallId} {id : ModuleId} :
    (c, id) ∈ callers h ↔ .called c id ∈ h := by
  simp only [callers, List.mem_filterMap]
  constructor
  · rintro ⟨e, he, hc⟩
    split at hc
    · obtain ⟨rfl, rfl⟩ := Prod.mk.inj (Option.some.inj hc)
      exact he
    · simp at hc
  · intro he
    exact ⟨_, he, rfl⟩

theorem life_calls (h : History X) (id : ModuleId) :
    (h.generations id).flatMap Generation.calls = callsOf h id := by
  rw [collected_life Generation.calls (fun | .called c _ => some c | _ => none) rfl]
  · rw [callsOf, callers, List.filter_filterMap, List.map_filterMap]
    congr 1
    funext e
    cases e with
    | called c other => by_cases ho : other = id <;> simp [LoadEvent.subject?, Option.filter, ho]
    | _ => simp
  · intro g e
    cases e <;> simp [Generation.note]

theorem mem_calls {h : History X} {id : ModuleId} {c : CallId} :
    (∃ g ∈ h.generations id, c ∈ g.calls) ↔ .called c id ∈ h := by
  rw [← mem_callers, ← List.mem_flatMap, life_calls]
  simp [callsOf]

theorem eq_of_shared {A : Type} {l : List A} {f : A → List CallId} (h : (l.flatMap f).Nodup)
    {a b : A} (ha : a ∈ l) (hb : b ∈ l) {c : CallId} (hca : c ∈ f a) (hcb : c ∈ f b) :
    a = b := by
  obtain ⟨-, hp⟩ := List.pairwise_flatMap.mp h
  have hp : l.Pairwise fun a b => ∀ c, c ∈ f a → c ∈ f b → a = b :=
    hp.imp fun hd c hca hcb => absurd rfl (hd c hca c hcb)
  have hflip : l.Pairwise (flip fun a b => ∀ c, c ∈ f a → c ∈ f b → a = b) :=
    hp.imp fun he c hcb hca => (he c hca hcb).symm
  exact hp.forall_of_forall_of_flip (fun _ _ _ _ _ => rfl) hflip ha hb c hca hcb

theorem callsOf_nodup {h : History X} (hn : h.called.Nodup) (id : ModuleId) :
    ((h.generations id).flatMap Generation.calls).Nodup := by
  rw [← callers_called] at hn
  rw [life_calls]
  exact (List.filter_sublist.map _).nodup hn

theorem calls_nodup {h : History X} (hn : h.called.Nodup) {id : ModuleId} {g : Generation X}
    (hg : g ∈ h.generations id) : g.calls.Nodup :=
  (List.pairwise_flatMap.mp (callsOf_nodup hn id)).1 g hg

/-- A call has one identifier and one generation of it. -/
theorem generation_unique {h : History X} (hn : h.called.Nodup) {id other : ModuleId}
    {g g' : Generation X} {c : CallId} (hg : g ∈ h.generations id)
    (hg' : g' ∈ h.generations other) (hc : c ∈ g.calls) (hc' : c ∈ g'.calls) :
    id = other ∧ g = g' := by
  have hkeys : ((callers h).map (·.1)).Nodup := by rw [callers_called]; exact hn
  have hid := Association.lookup_of_mem hkeys (mem_callers.mpr (mem_calls.mp ⟨g, hg, hc⟩))
  rw [Association.lookup_of_mem hkeys (mem_callers.mpr (mem_calls.mp ⟨g', hg', hc'⟩))] at hid
  obtain rfl : other = id := Option.some.inj hid
  exact ⟨rfl, eq_of_shared (callsOf_nodup hn other) hg hg' hc hc'⟩

/-! ## Outcomes of generations -/

theorem Open.outcome_none {g : Generation X} {n : Nat} {fetched : List (LoadResult String)}
    (hg : Open g n fetched) (hf : fetched = [] ∨ ∃ source, fetched = [.ok source]) :
    g.outcome? = none := by
  rcases hf with rfl | ⟨source, rfl⟩ <;>
    simp [Generation.outcome?, hg.fetched, hg.evaluated]

/-- A record has the outcome of its generation. -/
theorem Coupled.outcome_eq {id : ModuleId} {record : Option (Record X CallId)}
    {tasks : List (CallId × LoadTask)} {g : Generation X} (hc : Coupled id record tasks g) :
    g.outcome? = record.bind Record.outcome? := by
  cases hc with
  | absent => rfl
  | pending t g hg => exact hg.outcome_none (.inl rfl)
  | fetching t g hg => exact hg.outcome_none (.inl rfl)
  | evaluating t g source hg => exact hg.outcome_none (.inr ⟨source, rfl⟩)
  | settled g outcome hg =>
    rw [hg.settled, Option.bind_some, Registry.outcome_ofOutcome]

/-- Everybody who was attached was sent the outcome, or nobody was sent anything. -/
def Served (g : Generation X) : Prop :=
  g.sent = match g.outcome? with
    | some outcome => g.attached.map (·, outcome)
    | none => []

theorem Coupled.served {id : ModuleId} {record : Option (Record X CallId)}
    {tasks : List (CallId × LoadTask)} {g : Generation X} (hc : Coupled id record tasks g) :
    Served g := by
  have ho := hc.outcome_eq
  cases hc with
  | absent => rfl
  | pending t g hg => rw [Served, ho]; exact hg.sent
  | fetching t g hg => rw [Served, ho]; exact hg.sent
  | evaluating t g source hg => rw [Served, ho]; exact hg.sent
  | settled g outcome hg => rw [Served, hg.settled]; exact hg.sent

theorem mem_generations {h : History X} {id : ModuleId} {g : Generation X} :
    g ∈ h.generations id ↔ g ∈ (h.life id).past ∨ g = (h.life id).current := by
  simp [History.generations, Life.generations]

theorem Valid.served {s : Loads X} (hv : Valid s) {id : ModuleId} {g : Generation X}
    (hg : g ∈ s.history.generations id) : Served g := by
  rcases mem_generations.mp hg with hg | rfl
  · obtain ⟨outcome, hc⟩ := (hv.sound id).past g hg
    rw [Served, hc.settled]
    exact hc.sent
  · exact (hv.sound id).current.served

theorem current_outcome {s : Loads X} (hv : Valid s) (id : ModuleId) :
    (s.history.life id).current.outcome? = (s.registry.find? id).bind Record.outcome? :=
  (hv.sound id).current.outcome_eq

/-! ## What a turn makes of a generation -/

inductive Succeeds (s s' : Loads X) : Generation X → Generation X → Prop
  | same (g : Generation X) : Succeeds s s' g g
  | called (g : Generation X) (ho : g.outcome?.isSome) :
      Succeeds s s' g { g with calls := g.calls ++ [s.issued] }
  | joined (g : Generation X) (id : ModuleId) (ho : g.outcome? = none)
      (hw : (s.issued, ⟨id, none⟩) ∈ s'.calls) :
      Succeeds s s' g
        { g with calls := g.calls ++ [s.issued], attached := g.attached ++ [s.issued] }
  | went (g g' : Generation X) (ho : g.outcome? = none) (hc : g'.calls = g.calls)
      (ha : g'.attached = g.attached) : Succeeds s s' g g'

theorem succeeds_changed {s s' : Loads X} (other : ModuleId) (rest : History X)
    {g₁ : Generation X} (hh : s'.history = s.history ++ rest)
    (he : ∀ e ∈ rest, e.subject? = some other ∨ e.subject? = none)
    (hl : rest.foldl (Life.note other) (s.history.life other) =
      ⟨(s.history.life other).past, g₁⟩)
    (hs : Succeeds s s' (s.history.life other).current g₁) {id : ModuleId} {g' : Generation X}
    (hg : g' ∈ s'.history.generations id) : ∃ g ∈ s.history.generations id, Succeeds s s' g g' := by
  by_cases ho : id = other
  · subst ho
    rw [mem_generations, hh, life_append, hl] at hg
    rcases hg with hg | rfl
    · exact ⟨g', mem_generations.mpr (.inl hg), .same g'⟩
    · exact ⟨_, mem_generations.mpr (.inr rfl), hs⟩
  · have hn : ∀ e ∈ rest, e.subject? ≠ some id := by
      intro e hm hsub
      rcases he e hm with h | h
      · exact ho (Option.some.inj (hsub.symm.trans h))
      · simp [h] at hsub
    rw [History.generations, hh, life_other _ _ _ hn] at hg
    exact ⟨g', hg, .same g'⟩

theorem succeeds_aside {s s' : Loads X} (rest : History X)
    (hh : s'.history = s.history ++ rest) (he : ∀ e ∈ rest, e.subject? = none) {id : ModuleId}
    {g' : Generation X} (hg : g' ∈ s'.history.generations id) :
    ∃ g ∈ s.history.generations id, Succeeds s s' g g' := by
  rw [History.generations, hh, life_other _ _ _ (by simp +contextual [he])] at hg
  exact ⟨g', hg, .same g'⟩

def isInner : LoadEvent X → Bool
  | .called .. | .attached .. | .invalidated _ true => false
  | _ => true

theorem note_inner (id : ModuleId) (l : Life X) {e : LoadEvent X} (he : isInner e = true) :
    ∃ g, Life.note id l e = ⟨l.past, g⟩ ∧ g.calls = l.current.calls ∧
      g.attached = l.current.attached := by
  by_cases hs : e.subject? = some id
  · have hn : Life.note id l e = ⟨l.past, l.current.note e⟩ := by
      simp only [Life.note, hs, if_pos]
      split
      · simp [isInner] at he
      · rfl
    refine ⟨l.current.note e, hn, ?_, ?_⟩ <;> cases e <;> simp_all [Generation.note, isInner]
  · exact ⟨l.current, if_neg hs, rfl, rfl⟩

theorem life_inner (id : ModuleId) (rest : History X) (l : Life X)
    (hr : ∀ e ∈ rest, isInner e = true) :
    ∃ g, rest.foldl (Life.note id) l = ⟨l.past, g⟩ ∧ g.calls = l.current.calls ∧
      g.attached = l.current.attached := by
  induction rest generalizing l with
  | nil => exact ⟨l.current, rfl, rfl, rfl⟩
  | cons e rest ih =>
    obtain ⟨g, hg, hcalls, hattached⟩ := note_inner id l (hr e (by simp))
    obtain ⟨g', hg', hcalls', hattached'⟩ := ih (Life.note id l e) fun e' hm => hr e' (by simp [hm])
    rw [hg] at hg' hcalls' hattached'
    exact ⟨g', by rw [List.foldl_cons, hg, hg'], hcalls'.trans hcalls, hattached'.trans hattached⟩

theorem succeeds_went {s s' : Loads X} {other : ModuleId} (rest : History X)
    (ho : (s.history.life other).current.outcome? = none)
    (hh : s'.history = s.history ++ rest)
    (he : ∀ e ∈ rest, e.subject? = some other ∨ e.subject? = none)
    (hr : ∀ e ∈ rest, isInner e = true) {id : ModuleId} {g' : Generation X}
    (hg : g' ∈ s'.history.generations id) :
    ∃ g ∈ s.history.generations id, Succeeds s s' g g' := by
  obtain ⟨g, hl, hcalls, hattached⟩ := life_inner other rest (s.history.life other) hr
  exact succeeds_changed other rest hh he hl (.went _ g ho hcalls hattached) hg

theorem dropped_generations {s : Loads X} {id other : ModuleId} {g' : Generation X}
    (hg : g' ∈ (({ s with registry := s.registry.remove other } : Loads X).note
      [.invalidated other true]).history.generations id) :
    g' = .empty ∨ ∃ g ∈ s.history.generations id,
      Succeeds s (({ s with registry := s.registry.remove other } : Loads X).note
        [.invalidated other true]) g g' := by
  by_cases ho : id = other
  · subst ho
    simp only [note, mem_generations, life_append, Life.note, LoadEvent.subject?,
      List.foldl_cons, List.foldl_nil, if_pos, List.mem_append, List.mem_singleton] at hg
    rcases hg with (hg | rfl) | rfl
    · exact .inr ⟨g', mem_generations.mpr (.inl hg), .same g'⟩
    · exact .inr ⟨_, mem_generations.mpr (.inr rfl), .same _⟩
    · exact .inl rfl
  · have hn : other ≠ id := fun he => ho he.symm
    simp only [note, History.generations] at hg
    rw [life_other _ _ _ (by simp [LoadEvent.subject?, hn])] at hg
    exact .inr ⟨g', hg, .same g'⟩

theorem turn_generations {s s' : Loads X} {a : LoadStep X} (hv : Valid s) (ht : Turn s a s')
    {id : ModuleId} {g' : Generation X} (hg : g' ∈ s'.history.generations id) :
    g' = .empty ∨ ∃ g ∈ s.history.generations id, Succeeds s s' g g' := by
  have hnone : ∀ {other record}, s.registry.find? other = some record → record.outcome? = none →
      (s.history.life other).current.outcome? = none := by
    intro other record hr ho
    rw [current_outcome hv, hr]
    exact ho
  have hw : ∀ other, (s.issued, (⟨other, none⟩ : Call X)) ∈
      s.calls ++ [(s.issued, ⟨other, none⟩)] :=
    fun other => List.mem_append_right _ (List.mem_singleton_self _)
  -- only a drop begins a generation; all else is told of the current one of its identifier
  cases ht with
  | first _ other ha hr =>
    have ho : (s.history.life other).current.outcome? = none := by rw [current_outcome hv, hr]; rfl
    exact .inr (succeeds_changed other [.called s.issued other, .attached s.issued other] rfl
      (by simp [LoadEvent.subject?])
      (by simp [Life.note, LoadEvent.subject?, Generation.note]) (.joined _ other ho (hw other)) hg)
  | joined _ other record ha hr ho =>
    exact .inr (succeeds_changed other [.called s.issued other, .attached s.issued other] rfl
      (by simp [LoadEvent.subject?])
      (by simp [Life.note, LoadEvent.subject?, Generation.note])
      (.joined _ other (hnone hr ho) (hw other)) hg)
  | answered _ other outcome ha hr =>
    have ho : (s.history.life other).current.outcome?.isSome := by
      rw [current_outcome hv, hr, Option.bind_some, Registry.outcome_ofOutcome]
      rfl
    exact .inr (succeeds_changed other [.called s.issued other, .returned s.issued outcome] rfl
      (by simp [LoadEvent.subject?])
      (by simp [Life.note, LoadEvent.subject?, Generation.note]) (.called _ ho) hg)
  | dropped other outcome hr => exact dropped_generations hg
  | kept other hr =>
    exact .inr (succeeds_changed other [.invalidated other false] rfl
      (by simp [LoadEvent.subject?])
      (by simp [Life.note, LoadEvent.subject?, Generation.note]) (.same _) hg)
  | began t other waiters hk hr =>
    exact .inr (succeeds_went [.fetchStarted other] (hnone hr rfl) rfl
      (by simp [LoadEvent.subject?]) (by simp [isInner]) hg)
  | fetched t other waiters source hk hr =>
    exact .inr (succeeds_went [.fetchEnded other (.ok source), .evaluationStarted other source]
      (hnone hr rfl) rfl (by simp [LoadEvent.subject?]) (by simp [isInner]) hg)
  | failed t other waiters failure hk hr =>
    exact .inr (succeeds_went _ (hnone hr rfl) rfl
      (by simp +contextual [LoadEvent.subject?]) (by simp [isInner]) hg)
  | evaluated t other waiters result hk hr =>
    exact .inr (succeeds_went _ (hnone hr rfl) rfl
      (by simp +contextual [LoadEvent.subject?]) (by simp [isInner]) hg)
  | paused => exact .inr ⟨g', hg, .same g'⟩
  | skipped => exact .inr ⟨g', hg, .same g'⟩
  | refused | gaveUp | resumed | aborted =>
    exact .inr (succeeds_aside _ rfl (by simp [LoadEvent.subject?]) hg)

end ScriptHost.Loads
