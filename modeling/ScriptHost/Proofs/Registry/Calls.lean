import ScriptHost.Proofs.Registry.Generations

/-!
# What becomes of a call

A call waits at the record of its identifier, has its outcome and stands in the
queue, or is over. Whatever it holds is the outcome of its generation, and those
who were sent theirs come out of the queue in the order in which they came.
-/

set_option autoImplicit false

namespace ScriptHost.Loads

variable {X : Type}

/-! ## Numbers of calls -/

theorem called_append (h rest : History X) :
    History.called (h ++ rest) = h.called ++ History.called rest := List.filterMap_append

theorem returned_append (h rest : History X) :
    History.returned (h ++ rest) = h.returned ++ History.returned rest := List.filterMap_append

theorem sent_called (id : ModuleId) (outcome : LoadResult X) (waiters : List CallId) :
    History.called (waiters.map (LoadEvent.sent · id outcome)) = [] := by
  simp [History.called, List.filterMap_map, Function.comp_def]

theorem sent_returned (id : ModuleId) (outcome : LoadResult X) (waiters : List CallId) :
    History.returned (waiters.map (LoadEvent.sent · id outcome)) = [] := by
  simp [History.returned, List.filterMap_map, Function.comp_def]

theorem attach_lookup (s : Loads X) (registry : Registry X CallId) (id : ModuleId)
    (c : CallId) : (s.attach registry id).call? c =
      (s.call? c).or (if c = s.issued then some ⟨id, none⟩ else none) := by
  simp only [attach, call?, List.lookup_append, Association.lookup_cons, List.lookup_nil]

theorem turn_called {s s' : Loads X} {a : LoadStep X} (ht : Turn s a s') :
    (s'.issued = s.issued ∧ s'.history.called = s.history.called) ∨
      (s'.issued = s.issued + 1 ∧ s'.history.called = s.history.called ++ [s.issued] ∧
        ((∃ call, s'.call? s.issued = some call) ∨
          ∃ outcome, .returned s.issued outcome ∈ s'.history)) := by
  have hattached : ∀ registry id, ∃ call, (s.attach registry id).call? s.issued = some call := by
    intro registry id
    rw [attach_lookup, if_pos rfl]
    cases s.call? s.issued with
    | none => exact ⟨_, rfl⟩
    | some call => exact ⟨_, rfl⟩
  cases ht with
  | first a id ha hr =>
    exact .inr ⟨rfl, called_append _ _,
      .inl (hattached (s.registry.put id (.pending [s.issued])) id)⟩
  | joined a id record ha hr ho => exact .inr ⟨rfl, called_append _ _, .inl (hattached _ id)⟩
  | answered a id outcome ha hr =>
    exact .inr ⟨rfl, called_append _ _, .inr ⟨outcome, by simp⟩⟩
  | failed t id waiters failure hk hr =>
    refine .inl ⟨rfl, ?_⟩
    rw [settled, called_append, ← List.singleton_append, called_append, sent_called]
    simp [History.called]
  | evaluated t id waiters result hk hr =>
    refine .inl ⟨rfl, ?_⟩
    rw [settled, called_append, ← List.singleton_append, called_append, sent_called]
    simp [History.called]
  | paused => exact .inl ⟨rfl, rfl⟩
  | skipped => exact .inl ⟨rfl, rfl⟩
  | refused | dropped | kept | gaveUp | began | fetched | resumed | aborted =>
    exact .inl ⟨rfl, (called_append _ _).trans (List.append_nil _)⟩

theorem Reachable.called_lt {s : Loads X} (h : Reachable s) :
    ∀ c ∈ s.history.called, c < s.issued := by
  refine h.induct (P := fun s => ∀ c ∈ s.history.called, c < s.issued)
    (by simp [start, History.called]) ?_
  intro s a s' hr hp hs
  rcases turn_called (hr.turn hs) with ⟨hi, hc⟩ | ⟨hi, hc, -⟩
  · rw [hi, hc]
    exact hp
  · rw [hi, hc]
    intro c hm
    rcases List.mem_append.mp hm with hm | hm
    · exact Nat.lt_succ_of_lt (hp c hm)
    · exact List.mem_singleton.mp hm ▸ Nat.lt_succ_self _

theorem Reachable.issued_fresh {s : Loads X} (h : Reachable s) : s.issued ∉ s.history.called :=
  fun hm => absurd (h.called_lt _ hm) (Nat.lt_irrefl _)

theorem Reachable.called_nodup {s : Loads X} (h : Reachable s) : s.history.called.Nodup := by
  refine h.induct (P := fun s => s.history.called.Nodup) (by simp [start, History.called]) ?_
  intro s a s' hr hp hs
  rcases turn_called (hr.turn hs) with ⟨-, hc⟩ | ⟨-, hc, -⟩
  · exact hc ▸ hp
  · rw [hc]
    refine List.nodup_append.mpr ⟨hp, by simp, ?_⟩
    intro c hm n hn he
    rw [he, List.mem_singleton.mp hn] at hm
    exact hr.issued_fresh hm

theorem Reachable.attached_sublist {s : Loads X} (h : Reachable s) {id : ModuleId}
    {g : Generation X} (hg : g ∈ s.history.generations id) : g.attached.Sublist g.calls := by
  refine h.induct (P := fun s => ∀ g ∈ s.history.generations id, g.attached.Sublist g.calls)
    ?_ ?_ g hg
  · simp [start, History.generations, History.life, Life.start, Life.generations, Generation.empty]
  · intro s a s' hr hp hs g' hg'
    obtain rfl | ⟨g, hg, hsucc⟩ := turn_generations hr.valid (hr.turn hs) hg'
    · exact List.Sublist.refl _
    · cases hsucc with
      | same => exact hp _ hg
      | called ho => exact (hp _ hg).trans (List.sublist_append_left _ _)
      | joined other ho hw => exact (hp _ hg).append (List.Sublist.refl _)
      | went _ ho hc ha => rw [hc, ha]; exact hp _ hg

theorem calls_called {h : History X} {id : ModuleId} {g : Generation X}
    (hg : g ∈ h.generations id) {c : CallId} (hc : c ∈ g.calls) : c ∈ h.called := by
  rw [← callers_called]
  exact List.mem_map.mpr ⟨_, mem_callers.mpr (mem_calls.mp ⟨g, hg, hc⟩), rfl⟩

theorem called_generation {h : History X} {c : CallId} (hc : c ∈ h.called) :
    ∃ id, ∃ g ∈ h.generations id, c ∈ g.calls := by
  rw [← callers_called] at hc
  obtain ⟨⟨_, id⟩, hm, rfl⟩ := List.mem_map.mp hc
  exact ⟨id, mem_calls.mpr (mem_callers.mp hm)⟩

theorem Reachable.attached_called {s : Loads X} (h : Reachable s) {id : ModuleId}
    {g : Generation X} (hg : g ∈ s.history.generations id) {c : CallId} (hc : c ∈ g.attached) :
    c ∈ s.history.called :=
  calls_called hg ((h.attached_sublist hg).subset hc)

theorem deliver_lookup (outcome : LoadResult X) (waiters : List CallId) (c : CallId)
    (calls : List (CallId × Call X)) :
    (deliver outcome waiters calls).lookup c =
      (calls.lookup c).map fun call =>
        if c ∈ waiters then { call with delivered := some outcome } else call := by
  rw [← Association.lookup_changed
    (fun key (call : Call X) =>
      if key ∈ waiters then { call with delivered := some outcome } else call)]
  congr 1
  apply List.map_congr_left
  intro pair _
  by_cases hp : pair.1 ∈ waiters <;> simp [hp]

theorem deliver_keys (outcome : LoadResult X) (waiters : List CallId)
    (calls : List (CallId × Call X)) :
    (deliver outcome waiters calls).map (·.1) = calls.map (·.1) := by
  simp only [deliver, List.map_map]
  apply List.map_congr_left
  intro pair _
  by_cases hp : pair.1 ∈ waiters <;> simp [hp]

structure Known (s : Loads X) : Prop where
  calls : ∀ c ∈ s.calls.map (·.1), c ∈ s.history.called
  queue : ∀ c ∈ s.queue, c ∈ s.history.called
  returned : ∀ c ∈ s.history.returned, c ∈ s.history.called

theorem call_key {s : Loads X} {c : CallId} {call : Call X} (h : s.call? c = some call) :
    c ∈ s.calls.map (·.1) :=
  List.mem_map.mpr ⟨_, Association.mem_of_lookup h, rfl⟩

theorem called_mono {s s' : Loads X} {a : LoadStep X} (ht : Turn s a s') {c : CallId}
    (hc : c ∈ s.history.called) : c ∈ s'.history.called := by
  rcases turn_called ht with ⟨-, he⟩ | ⟨-, he, -⟩
  · exact he ▸ hc
  · exact he ▸ List.mem_append_left _ hc

theorem attach_known {s : Loads X} (hk : Known s) (registry : Registry X CallId)
    (id : ModuleId) : Known (s.attach registry id) := by
  have hc : (s.attach registry id).history.called = s.history.called ++ [s.issued] :=
    called_append _ _
  have hr : (s.attach registry id).history.returned = s.history.returned :=
    (returned_append _ _).trans (List.append_nil _)
  refine ⟨?_, ?_, ?_⟩
  · intro c hm
    simp only [attach, List.map_append, List.map_cons, List.map_nil] at hm
    rw [hc]
    rcases List.mem_append.mp hm with hm | hm
    · exact List.mem_append_left _ (hk.calls c hm)
    · exact List.mem_append_right _ hm
  · intro c hm
    exact hc ▸ List.mem_append_left _ (hk.queue c hm)
  · intro c hm
    exact hc ▸ List.mem_append_left _ (hk.returned c (hr ▸ hm))

theorem settled_known {s : Loads X} (hk : Known s) {t : CallId} {id : ModuleId}
    {waiters : List CallId} {event : LoadEvent X} {outcome : LoadResult X}
    (hc : History.called [event] = []) (hr : History.returned [event] = []) :
    Known (s.settled t id waiters event outcome) := by
  have hcalled : (s.settled t id waiters event outcome).history.called = s.history.called := by
    rw [settled, called_append, ← List.singleton_append, called_append, sent_called, hc,
      List.append_nil, List.append_nil]
  have hreturned : (s.settled t id waiters event outcome).history.returned =
      s.history.returned := by
    rw [settled, returned_append, ← List.singleton_append, returned_append, sent_returned, hr,
      List.append_nil, List.append_nil]
  refine ⟨?_, ?_, ?_⟩
  · rw [hcalled, settled, deliver_keys]
    exact hk.calls
  · rw [hcalled]
    intro c hm
    rcases List.mem_append.mp hm with hm | hm
    · exact hk.queue c hm
    · obtain ⟨call, hl⟩ := Option.isSome_iff_exists.mp (List.mem_filter.mp hm).2
      exact hk.calls c (call_key hl)
  · rw [hcalled, hreturned]
    exact hk.returned

theorem Known.ended {s s' : Loads X} (hk : Known s) (hc : s'.history.called = s.history.called)
    (hcalls : s'.calls.Sublist s.calls) (hq : s'.queue.Sublist s.queue)
    (hr : ∀ c ∈ s'.history.returned, c ∈ s.history.called) : Known s' where
  calls := fun c hm => hc ▸ hk.calls c ((hcalls.map _).subset hm)
  queue := fun c hm => hc ▸ hk.queue c (hq.subset hm)
  returned := fun c hm => hc ▸ hr c hm

theorem answered_known {s : Loads X} (hk : Known s) (id : ModuleId) (outcome : LoadResult X) :
    Known { s with
      issued := s.issued + 1
      history := s.history ++ [.called s.issued id, .returned s.issued outcome] } := by
  have hc : History.called (s.history ++ [.called s.issued id, .returned s.issued outcome]) =
      s.history.called ++ [s.issued] := called_append _ _
  refine ⟨?_, ?_, ?_⟩
  · intro c hm
    exact hc ▸ List.mem_append_left _ (hk.calls c hm)
  · intro c hm
    exact hc ▸ List.mem_append_left _ (hk.queue c hm)
  · intro c hm
    rw [hc]
    rw [returned_append] at hm
    rcases List.mem_append.mp hm with hm | hm
    · exact List.mem_append_left _ (hk.returned c hm)
    · exact List.mem_append_right _ hm

theorem turn_known {s s' : Loads X} {a : LoadStep X} (ht : Turn s a s') (hk : Known s) :
    Known s' := by
  have hsame : ∀ rest : History X, History.called rest = [] →
      History.called (s.history ++ rest) = s.history.called := by
    intro rest he
    rw [called_append, he, List.append_nil]
  have hkept : ∀ rest : History X, History.returned rest = [] →
      ∀ c ∈ History.returned (s.history ++ rest), c ∈ s.history.called := by
    intro rest he
    rw [returned_append, he, List.append_nil]
    exact hk.returned
  have hnew : ∀ (rest : History X) c₀, History.returned rest = [c₀] → c₀ ∈ s.history.called →
      ∀ c ∈ History.returned (s.history ++ rest), c ∈ s.history.called := by
    intro rest c₀ he hc₀ c hm
    rw [returned_append, he] at hm
    rcases List.mem_append.mp hm with hm | hm
    · exact hk.returned c hm
    · exact List.mem_singleton.mp hm ▸ hc₀
  cases ht with
  | first _ id ha hr =>
    obtain ⟨hc, hq, hr⟩ := attach_known hk (s.registry.put id (.pending [s.issued])) id
    exact ⟨hc, hq, hr⟩
  | joined _ id record ha hr ho => exact attach_known hk _ id
  | answered _ id outcome ha hr => exact answered_known hk id outcome
  | failed t id waiters failure hk' hr => exact settled_known hk rfl rfl
  | evaluated t id waiters result hk' hr => exact settled_known hk rfl rfl
  | gaveUp c call hc =>
    exact hk.ended (hsame _ rfl) List.filter_sublist (List.Sublist.refl _) (hkept _ rfl)
  | resumed c queue id outcome hq hc =>
    refine hk.ended (hsame _ rfl) List.filter_sublist (hq ▸ List.sublist_cons_self c queue)
      (hnew _ c rfl (hk.calls c (call_key hc)))
  | skipped c queue hq hc =>
    exact hk.ended rfl (List.Sublist.refl _) (hq ▸ List.sublist_cons_self c queue) hk.returned
  | aborted c id hc hw =>
    exact hk.ended (hsame _ rfl) List.filter_sublist (List.Sublist.refl _)
      (hnew _ c rfl (hk.calls c (call_key hc)))
  | paused => exact hk
  | refused | dropped | kept | began | fetched =>
    exact hk.ended (hsame _ rfl) (List.Sublist.refl _) (List.Sublist.refl _) (hkept _ rfl)

theorem Reachable.known {s : Loads X} (h : Reachable s) : Known s :=
  h.induct (P := Known) ⟨by simp [start], by simp [start], by simp [start, History.returned]⟩
    fun _ _ _ hr hp hs => turn_known (hr.turn hs) hp

end ScriptHost.Loads
