import ScriptHost.Proofs.Registry.Calls

/-!
# What the calls of a generation get

A call without an outcome is among the waiters of its record, so nobody is ever
told that a load was aborted. A call that was sent an outcome stands in the
queue until it resumes. What is sent, and what a call returns, is the outcome of
the generation it belongs to, whatever turns come in between.
-/

set_option autoImplicit false

namespace ScriptHost.Loads

variable {X : Type}

/-! ## Waiting -/

/-- Every call without an outcome is a waiter of the record of its identifier. -/
def Awaited (s : Loads X) : Prop :=
  ∀ c id, s.call? c = some ⟨id, none⟩ →
    ∃ record, s.registry.find? id = some record ∧ c ∈ record.waiters

theorem ofOutcome_waiters (outcome : LoadResult X) :
    (Record.ofOutcome outcome : Record X CallId).waiters = [] := by
  cases outcome <;> rfl

theorem join_waiters {record : Record X CallId} (ho : record.outcome? = none) (c : CallId) :
    (record.join c).waiters = record.waiters ++ [c] := by
  cases record <;> simp_all [Record.join, Record.waiters, Record.outcome?]

theorem removeCall_lookup (s : Loads X) (c other : CallId) :
    (s.removeCall c).call? other = if other = c then none else s.call? other :=
  Association.lookup_removed c other s.calls

theorem attach_delivered {s : Loads X} {registry : Registry X CallId} {id other : ModuleId}
    {c : CallId} {outcome : LoadResult X}
    (hc : (s.attach registry id).call? c = some ⟨other, some outcome⟩) :
    s.call? c = some ⟨other, some outcome⟩ := by
  rw [attach_lookup] at hc
  cases hl : s.call? c with
  | none =>
    rw [hl, Option.none_or] at hc
    split at hc <;> simp at hc
  | some call => rwa [hl, Option.some_or] at hc

theorem removed_delivered {s : Loads X} {c₀ c : CallId} {id : ModuleId} {outcome : LoadResult X}
    (hc : (s.removeCall c₀).call? c = some ⟨id, some outcome⟩) :
    c ≠ c₀ ∧ s.call? c = some ⟨id, some outcome⟩ := by
  rw [removeCall_lookup] at hc
  split at hc
  · simp at hc
  · next hne => exact ⟨hne, hc⟩

theorem attach_awaited {s : Loads X} (hw : Awaited s) {id : ModuleId} {record : Record X CallId}
    (hnew : s.issued ∈ record.waiters)
    (hold : ∀ old, s.registry.find? id = some old → ∀ c ∈ old.waiters, c ∈ record.waiters) :
    Awaited (s.attach (s.registry.put id record) id) := by
  intro c other hc
  have hput : (s.attach (s.registry.put id record) id).registry.find? other =
      if other = id then some record else s.registry.find? other := Registry.find_put ..
  rw [attach_lookup] at hc
  rw [hput]
  cases hl : s.call? c with
  | none =>
    rw [hl, Option.none_or] at hc
    split at hc
    · next he =>
      obtain rfl : id = other := by simpa using hc
      exact ⟨record, if_pos rfl, he ▸ hnew⟩
    · simp at hc
  | some call =>
    rw [hl, Option.some_or] at hc
    obtain ⟨old, hr, hm⟩ := hw c other (hl.trans hc)
    by_cases ho : other = id
    · exact ⟨record, if_pos ho, hold old (ho ▸ hr) c hm⟩
    · exact ⟨old, (if_neg ho).trans hr, hm⟩

theorem settled_lookup (s : Loads X) (t : CallId) (id : ModuleId) (waiters : List CallId)
    (event : LoadEvent X) (outcome : LoadResult X) (c : CallId) :
    (s.settled t id waiters event outcome).call? c = (s.call? c).map fun call =>
      if c ∈ waiters then { call with delivered := some outcome } else call :=
  deliver_lookup outcome waiters c s.calls

theorem settled_awaited {s : Loads X} (hw : Awaited s) {t : CallId} {id : ModuleId}
    {waiters : List CallId} {event : LoadEvent X} {outcome : LoadResult X}
    (hr : s.registry.find? id = some (.loading waiters)) :
    Awaited (s.settled t id waiters event outcome) := by
  intro c other hc
  rw [settled_lookup] at hc
  obtain ⟨call, hl, hc⟩ := Option.map_eq_some_iff.mp hc
  by_cases hm : c ∈ waiters
  · simp [hm] at hc
  · rw [if_neg hm] at hc
    obtain ⟨record, hf, hrec⟩ := hw c other (hc ▸ hl)
    have ho : other ≠ id := by
      rintro rfl
      obtain rfl := Option.some.inj (hf.symm.trans hr)
      exact hm hrec
    exact ⟨record, (Registry.find_put ..).trans ((if_neg ho).trans hf), hrec⟩

theorem isAwaited_of_waiting {s : Loads X} (hw : Awaited s) {c : CallId} {id : ModuleId}
    (hc : s.call? c = some ⟨id, none⟩) : s.isAwaited c = true := by
  obtain ⟨record, hr, hm⟩ := hw c id hc
  exact List.any_eq_true.mpr ⟨(id, record), Association.mem_of_lookup hr, by simpa using hm⟩

theorem Awaited.removed {s s' : Loads X} (hw : Awaited s) {c : CallId}
    (hr : s'.registry = s.registry)
    (hl : ∀ other, s'.call? other = if other = c then none else s.call? other) : Awaited s' := by
  intro other id hc
  rw [hl] at hc
  split at hc
  · simp at hc
  · exact hr ▸ hw other id hc

theorem turn_awaited {s s' : Loads X} {a : LoadStep X} (ht : Turn s a s') (hw : Awaited s) :
    Awaited s' := by
  cases ht with
  | first _ id ha hr =>
    exact attach_awaited hw (by simp [Record.waiters]) (by simp [hr])
  | joined _ id record ha hr ho =>
    refine attach_awaited hw (by simp [join_waiters ho]) ?_
    intro old hf c hm
    obtain rfl := Option.some.inj (hf.symm.trans hr)
    rw [join_waiters ho]
    exact List.mem_append_left _ hm
  | dropped id outcome hr =>
    intro c other hc
    obtain ⟨record, hf, hm⟩ := hw c other hc
    have ho : other ≠ id := by
      rintro rfl
      obtain rfl := Option.some.inj (hf.symm.trans hr)
      simp [ofOutcome_waiters] at hm
    exact ⟨record, (Registry.find_remove ..).trans ((if_neg ho).trans hf), hm⟩
  | began t id waiters hk hr =>
    intro c other hc
    obtain ⟨record, hf, hm⟩ := hw c other hc
    by_cases ho : other = id
    · obtain rfl := Option.some.inj (hf.symm.trans (ho ▸ hr))
      exact ⟨.loading waiters, (Registry.find_put ..).trans (if_pos ho), hm⟩
    · exact ⟨record, (Registry.find_put ..).trans ((if_neg ho).trans hf), hm⟩
  | failed t id waiters failure hk hr => exact settled_awaited hw hr
  | evaluated t id waiters result hk hr => exact settled_awaited hw hr
  | gaveUp c call hc => exact hw.removed rfl (removeCall_lookup s c)
  | resumed c queue id outcome hq hc => exact hw.removed rfl (removeCall_lookup s c)
  | aborted c id hc ha => exact hw.removed rfl (removeCall_lookup s c)
  | answered | refused | kept | paused | fetched | skipped => exact hw

theorem Reachable.awaited {s : Loads X} (h : Reachable s) : Awaited s :=
  h.induct (P := Awaited) (by simp [Awaited, start, call?])
    fun _ _ _ hr hp hs => turn_awaited (hr.turn hs) hp

theorem Reachable.no_abort {s : Loads X} (h : Reachable s) (c : CallId) : s.abort c = none := by
  unfold abort
  split
  · next id hc => rw [if_pos (isAwaited_of_waiting h.awaited hc)]
  · rfl

theorem Reachable.not_aborted {s : Loads X} (h : Reachable s) (c : CallId) :
    .aborted c ∉ s.history := by
  refine h.induct (P := fun s => .aborted c ∉ s.history) (by simp [start]) ?_
  intro s a s' hr hp hs
  cases hr.turn hs with
  | aborted _ id hc hw =>
    rw [isAwaited_of_waiting hr.awaited hc] at hw
    simp at hw
  | paused => exact hp
  | skipped => exact hp
  | failed | evaluated => simp [settled, hp]
  | first | joined | answered | refused | dropped | kept | gaveUp | began | fetched | resumed =>
    simp [note, attach, spawn, removeCall, hp]

/-! ## Standing in the queue -/

/-- Every call that was sent an outcome stands in the queue. -/
def Queued (s : Loads X) : Prop :=
  ∀ c id outcome, s.call? c = some ⟨id, some outcome⟩ → c ∈ s.queue

theorem attach_queued {s : Loads X} (hq : Queued s) (registry : Registry X CallId)
    (id : ModuleId) : Queued (s.attach registry id) :=
  fun c other outcome hc => hq c other outcome (attach_delivered hc)

theorem settled_queued {s : Loads X} (hq : Queued s) (t : CallId) (id : ModuleId)
    (waiters : List CallId) (event : LoadEvent X) (outcome : LoadResult X) :
    Queued (s.settled t id waiters event outcome) := by
  intro c other o hc
  rw [settled_lookup] at hc
  obtain ⟨call, hl, hc⟩ := Option.map_eq_some_iff.mp hc
  by_cases hm : c ∈ waiters
  · exact List.mem_append_right _ (List.mem_filter.mpr ⟨hm, by simp [hl]⟩)
  · rw [if_neg hm] at hc
    exact List.mem_append_left _ (hq c other o (hc ▸ hl))

theorem turn_queued {s s' : Loads X} {a : LoadStep X} (ht : Turn s a s') (hq : Queued s) :
    Queued s' := by
  cases ht with
  | first _ id ha hr => exact attach_queued hq (s.registry.put id (.pending [s.issued])) id
  | joined _ id record ha hr ho => exact attach_queued hq _ id
  | failed t id waiters failure hk hr => exact settled_queued hq _ _ _ _ _
  | evaluated t id waiters result hk hr => exact settled_queued hq _ _ _ _ _
  | gaveUp c call hc =>
    exact fun other id outcome ho => hq other id outcome (removed_delivered ho).2
  | aborted c id hc ha =>
    exact fun other id outcome ho => hq other id outcome (removed_delivered ho).2
  | resumed c queue id outcome hqueue hc =>
    intro other id o ho
    obtain ⟨hne, hl⟩ := removed_delivered (s := s) ho
    have hm := hq other id o hl
    rw [hqueue] at hm
    exact (List.mem_cons.mp hm).resolve_left hne
  | skipped c queue hqueue hc =>
    intro other id o ho
    have hm := hq other id o ho
    rw [hqueue] at hm
    refine (List.mem_cons.mp hm).resolve_left ?_
    rintro rfl
    exact hc id o ho
  | answered | refused | dropped | kept | paused | began | fetched => exact hq

theorem Reachable.queued {s : Loads X} (h : Reachable s) : Queued s :=
  h.induct (P := Queued) (by simp [Queued, start, call?])
    fun _ _ _ hr hp hs => turn_queued (hr.turn hs) hp

/-! ## One outcome -/

def Holds (s : Loads X) (c : CallId) (outcome : LoadResult X) : Prop :=
  (∃ id, s.call? c = some ⟨id, some outcome⟩) ∨ .returned c outcome ∈ s.history

def Agrees (s : Loads X) (c : CallId) (outcome : LoadResult X) : Prop :=
  ∀ id, ∀ g ∈ s.history.generations id, c ∈ g.calls → g.outcome? = some outcome

/-- Turns change nothing for a call whose generation has an outcome. -/
theorem turn_agrees {s s' : Loads X} {a : LoadStep X} (hr : Reachable s) (ht : Turn s a s')
    {c : CallId} {outcome : LoadResult X} (hc : c ∈ s.history.called)
    (ha : Agrees s c outcome) : Agrees s' c outcome := by
  intro id g' hg' hm
  have hne : c ≠ s.issued := fun he => hr.issued_fresh (he ▸ hc)
  obtain rfl | ⟨g, hg, hsucc⟩ := turn_generations hr.valid ht hg'
  · simp [Generation.empty] at hm
  · cases hsucc with
    | same => exact ha id _ hg hm
    | called ho =>
      have hsome := ha id g hg (by simpa [hne] using hm)
      exact hsome
    | joined other ho hw =>
      have hsome := ha id g hg (by simpa [hne] using hm)
      simp [ho] at hsome
    | went _ ho hcalls hattached =>
      have hsome := ha id g hg (hcalls ▸ hm)
      simp [ho] at hsome

theorem agrees_of {s : Loads X} (hr : Reachable s) {id : ModuleId} {g : Generation X}
    (hg : g ∈ s.history.generations id) {c : CallId} (hc : c ∈ g.calls) {outcome : LoadResult X}
    (ho : g.outcome? = some outcome) : Agrees s c outcome := by
  intro other g' hg' hc'
  obtain ⟨-, rfl⟩ := generation_unique hr.called_nodup hg hg' hc hc'
  exact ho

theorem current_mem (h : History X) (id : ModuleId) :
    (h.life id).current ∈ h.generations id := mem_generations.mpr (.inr rfl)

theorem holds_called {s : Loads X} (hr : Reachable s) {c : CallId} {outcome : LoadResult X}
    (h : Holds s c outcome) : c ∈ s.history.called := by
  rcases h with ⟨id, hc⟩ | hm
  · exact hr.known.calls c (call_key hc)
  · exact hr.known.returned c (List.mem_filterMap.mpr ⟨_, hm, rfl⟩)

/-- Once a loading record is settled, its waiters are those attached to a generation that has
the outcome. -/
theorem settled_current {s : Loads X} (hv : Valid s) {t : CallId} {id : ModuleId}
    {waiters : List CallId} {event : LoadEvent X} {outcome : LoadResult X}
    (hs : Valid (s.settled t id waiters event outcome))
    (hf : s.registry.find? id = some (.loading waiters)) (he : isInner event = true) :
    ∃ g ∈ (s.settled t id waiters event outcome).history.generations id,
      g.attached = waiters ∧ g.outcome? = some outcome := by
  have hcoupled := (hv.sound id).current
  simp only [view, hf] at hcoupled
  obtain ⟨hattached, -⟩ := hcoupled.of_loading
  have hinner : ∀ e ∈ event :: waiters.map (LoadEvent.sent · id outcome), isInner e = true := by
    intro e hm
    rcases List.mem_cons.mp hm with rfl | hm
    · exact he
    · obtain ⟨c, -, rfl⟩ := List.mem_map.mp hm
      rfl
  obtain ⟨g, hl, -, hatt⟩ := life_inner id _ (s.history.life id) hinner
  have hcur : ((s.settled t id waiters event outcome).history.life id).current = g := by
    rw [settled, life_append, hl]
  have hput : (s.settled t id waiters event outcome).registry.find? id =
      some (.ofOutcome outcome) := (Registry.find_put ..).trans (if_pos rfl)
  refine ⟨g, hcur ▸ current_mem _ id, hatt.trans hattached, ?_⟩
  rw [← hcur, current_outcome hs, hput, Option.bind_some, Registry.outcome_ofOutcome]

/-- Whoever holds an outcome after a record was settled held it before, or it is the outcome of
its generation. -/
theorem settled_holds {s : Loads X} (hv : Valid s) {t : CallId} {id : ModuleId}
    {waiters : List CallId} {event : LoadEvent X} {outcome : LoadResult X}
    (hs : Reachable (s.settled t id waiters event outcome))
    (hf : s.registry.find? id = some (.loading waiters)) (he : isInner event = true)
    (hr : ∀ c o, event ≠ .returned c o) {c : CallId} {o : LoadResult X}
    (h : Holds (s.settled t id waiters event outcome) c o) :
    Holds s c o ∨ Agrees (s.settled t id waiters event outcome) c o := by
  rcases h with ⟨other, hc⟩ | hm
  · rw [settled_lookup] at hc
    obtain ⟨call, hl, hc⟩ := Option.map_eq_some_iff.mp hc
    by_cases hm : c ∈ waiters
    · rw [if_pos hm] at hc
      obtain ⟨-, ho⟩ := Call.mk.inj hc
      obtain rfl : outcome = o := Option.some.inj ho
      obtain ⟨g, hg, rfl, ho⟩ := settled_current hv hs.valid hf he
      exact .inr (agrees_of hs hg ((hs.attached_sublist hg).subset hm) ho)
    · rw [if_neg hm] at hc
      exact .inl (.inl ⟨other, hc ▸ hl⟩)
  · have hne : .returned c o ≠ event := fun he => hr c o he.symm
    exact .inl (.inr (by simpa [settled, hne] using hm))

/-- Whoever holds an outcome after a turn held it before, or it is the outcome of its
generation. -/
theorem turn_holds {s s' : Loads X} {a : LoadStep X} (hr : Reachable s) (hs : Reachable s')
    (ht : Turn s a s') {c : CallId} {outcome : LoadResult X} (h : Holds s' c outcome) :
    Holds s c outcome ∨ Agrees s' c outcome := by
  cases ht with
  | first _ id ha hf =>
    rcases h with ⟨other, hc⟩ | hm
    · have hc : (s.attach (s.registry.put id (.pending [s.issued])) id).call? c =
          some ⟨other, some outcome⟩ := hc
      exact .inl (.inl ⟨other, attach_delivered hc⟩)
    · exact .inl (.inr (by simpa [spawn, attach] using hm))
  | joined _ id record ha hf ho =>
    rcases h with ⟨other, hc⟩ | hm
    · exact .inl (.inl ⟨other, attach_delivered hc⟩)
    · exact .inl (.inr (by simpa [attach] using hm))
  | answered _ id o ha hf =>
    rcases h with hc | hm
    · exact .inl (.inl hc)
    · simp only [List.mem_append, List.mem_cons, List.not_mem_nil, or_false, reduceCtorEq,
        false_or] at hm
      rcases hm with hm | hm
      · exact .inl (.inr hm)
      · obtain ⟨rfl, rfl⟩ := LoadEvent.returned.inj hm
        refine .inr (agrees_of hs (current_mem _ id) ?_ ?_)
        · simp [life_append, Life.note, LoadEvent.subject?, Generation.note]
        · rw [current_outcome hs.valid, hf, Option.bind_some, Registry.outcome_ofOutcome]
  | failed t id waiters failure hk hf => exact settled_holds hr.valid hs hf rfl (by simp) h
  | evaluated t id waiters result hk hf => exact settled_holds hr.valid hs hf rfl (by simp) h
  | gaveUp c₀ call hc =>
    rcases h with ⟨other, hl⟩ | hm
    · exact .inl (.inl ⟨other, (removed_delivered hl).2⟩)
    · exact .inl (.inr (by simpa [note, removeCall] using hm))
  | resumed c₀ queue id o hq hc =>
    rcases h with ⟨other, hl⟩ | hm
    · exact .inl (.inl ⟨other, (removed_delivered (s := s) hl).2⟩)
    · simp only [note, removeCall, List.mem_append, List.mem_singleton] at hm
      rcases hm with hm | hm
      · exact .inl (.inr hm)
      · obtain ⟨rfl, rfl⟩ := LoadEvent.returned.inj hm
        exact .inl (.inl ⟨id, hc⟩)
  | aborted c₀ id hc hw =>
    -- whoever waits is a waiter of a record, so nobody is told that a load was aborted
    rw [isAwaited_of_waiting hr.awaited hc] at hw
    simp at hw
  | paused => exact .inl h
  | skipped => exact .inl h
  | refused | dropped | kept | began | fetched =>
    rcases h with hc | hm
    · exact .inl (.inl hc)
    · exact .inl (.inr (by simpa [note] using hm))

theorem Reachable.agrees {s : Loads X} (h : Reachable s) {c : CallId} {outcome : LoadResult X}
    (hc : Holds s c outcome) : Agrees s c outcome := by
  refine h.induct (P := fun s => ∀ c outcome, Holds s c outcome → Agrees s c outcome) ?_ ?_
    c outcome hc
  · intro c outcome hc
    rcases hc with ⟨id, hc⟩ | hm
    · simp [start, call?] at hc
    · simp [start] at hm
  · intro s a s' hr hp hs c outcome hc
    have ht := hr.turn hs
    rcases turn_holds hr (hr.step hs) ht hc with hold | hnew
    · exact turn_agrees hr ht (holds_called hr hold) (hp c outcome hold)
    · exact hnew

end ScriptHost.Loads
