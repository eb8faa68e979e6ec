import ScriptHost.Proofs.Registry.Outcomes

/-!
# The order of resumption

The calls that were attached to a generation are sent its outcome in the order
in which they came. They stand in the queue in this order, and leave it so; those
that were given up are left out.
-/

set_option autoImplicit false

namespace ScriptHost.Loads

variable {X : Type}

/-- The calls that returned, and behind them those that are to resume. -/
def passed (s : Loads X) : List CallId := s.history.returned ++ s.queue

/-- Those of a generation that passed are some of those that were sent the outcome, in the same
order. -/
def InOrder (s : Loads X) : Prop :=
  ∀ id, ∀ g ∈ s.history.generations id,
    (s.passed.filter (· ∈ g.attached)).Sublist (g.sent.map (·.1))

theorem passed_called {s : Loads X} (hr : Reachable s) {c : CallId} (hc : c ∈ s.passed) :
    c ∈ s.history.called := by
  rcases List.mem_append.mp hc with hc | hc
  · exact hr.known.returned c hc
  · exact hr.known.queue c hc

theorem turn_passed {s s' : Loads X} {a : LoadStep X} (hr : Reachable s) (ht : Turn s a s')
    (ho : InOrder s) {id : ModuleId} {g' : Generation X}
    (hg' : g' ∈ s'.history.generations id) :
    (s.passed.filter (· ∈ g'.attached)).Sublist (g'.sent.map (·.1)) := by
  obtain rfl | ⟨g, hg, hsucc⟩ := turn_generations hr.valid ht hg'
  · simp [Generation.empty]
  · have hold := ho id g hg
    cases hsucc with
    | same => exact hold
    | called _ => exact hold
    | joined other _ _ =>
      have hsame : s.passed.filter (· ∈ g.attached ++ [s.issued]) =
          s.passed.filter (· ∈ g.attached) := by
        apply List.filter_congr
        intro c hc
        have hne : c ≠ s.issued := fun he => hr.issued_fresh (he ▸ passed_called hr hc)
        simp [hne]
      rw [hsame]
      exact hold
    | went _ hnone _ hattached =>
      have hsent : g.sent = [] := by
        have hserved := hr.valid.served hg
        rwa [Served, hnone] at hserved
      rw [hsent] at hold
      rw [hattached, List.sublist_nil.mp hold]
      exact List.nil_sublist _

theorem order_of_passed {s s' : Loads X} {a : LoadStep X} (hr : Reachable s) (ht : Turn s a s')
    (ho : InOrder s) (hp : s'.passed.Sublist s.passed) : InOrder s' :=
  fun _ _ hg => (hp.filter _).trans (turn_passed hr ht ho hg)

theorem answered_order {s s' : Loads X} {a : LoadStep X} (hr : Reachable s) (ht : Turn s a s')
    (ho : InOrder s) (hp : s'.passed = s.history.returned ++ s.issued :: s.queue)
    (hcalls : s'.calls = s.calls) : InOrder s' := by
  intro id g' hg'
  have hfresh : s.issued ∉ g'.attached := by
    intro hm
    obtain rfl | ⟨g, hg, hsucc⟩ := turn_generations hr.valid ht hg'
    · simp [Generation.empty] at hm
    · cases hsucc with
      | same => exact hr.issued_fresh (hr.attached_called hg hm)
      | called _ => exact hr.issued_fresh (hr.attached_called hg hm)
      | joined other _ hw =>
        rw [hcalls] at hw
        exact hr.issued_fresh (hr.known.calls _ (List.mem_map_of_mem hw))
      | went _ _ _ hattached => exact hr.issued_fresh (hr.attached_called hg (hattached ▸ hm))
  have hsame : s'.passed.filter (· ∈ g'.attached) = s.passed.filter (· ∈ g'.attached) := by
    rw [hp, passed, List.filter_append, List.filter_append]
    simp [hfresh]
  rw [hsame]
  exact turn_passed hr ht ho hg'

theorem settled_passed (s : Loads X) (t : CallId) (id : ModuleId) (waiters : List CallId)
    (event : LoadEvent X) (outcome : LoadResult X) (he : History.returned [event] = []) :
    (s.settled t id waiters event outcome).passed =
      s.passed ++ waiters.filter fun c => (s.call? c).isSome := by
  have hreturned : (s.settled t id waiters event outcome).history.returned =
      s.history.returned := by
    rw [settled, returned_append, ← List.singleton_append, returned_append, sent_returned, he,
      List.append_nil, List.append_nil]
  rw [passed, hreturned, passed, List.append_assoc]
  rfl

/-- Nobody has passed who waits at a loading record. -/
theorem waiter_not_passed {s : Loads X} (hv : Valid s) (ho : InOrder s) {id : ModuleId}
    {waiters : List CallId} (hf : s.registry.find? id = some (.loading waiters)) :
    s.passed.filter (· ∈ waiters) = [] := by
  have hc := (hv.sound id).current
  simp only [view, hf] at hc
  obtain ⟨hattached, -⟩ := hc.of_loading
  have hnone : (s.history.life id).current.outcome? = none := by
    rw [current_outcome hv, hf]
    rfl
  have hsent : (s.history.life id).current.sent = [] := by
    have hserved := hv.served (current_mem s.history id)
    rwa [Served, hnone] at hserved
  have hold := ho id _ (current_mem s.history id)
  rw [hsent, hattached] at hold
  exact List.sublist_nil.mp hold

theorem settled_order {s : Loads X} {a : LoadStep X} {t : CallId} {id : ModuleId}
    {waiters : List CallId} {event : LoadEvent X} {outcome : LoadResult X} (hr : Reachable s)
    (hs : Reachable (s.settled t id waiters event outcome))
    (ht : Turn s a (s.settled t id waiters event outcome)) (ho : InOrder s)
    (hf : s.registry.find? id = some (.loading waiters)) (hi : isInner event = true)
    (he : History.returned [event] = []) :
    InOrder (s.settled t id waiters event outcome) := by
  intro other g' hg'
  rw [settled_passed _ _ _ _ _ _ he, List.filter_append]
  by_cases hm : ∃ c ∈ waiters, c ∈ g'.attached
  · obtain ⟨c, hc, hc'⟩ := hm
    have hempty := waiter_not_passed hr.valid ho hf
    obtain ⟨g, hg, rfl, hout⟩ := settled_current hr.valid hs.valid hf hi
    obtain ⟨-, rfl⟩ := generation_unique hs.called_nodup hg hg'
      ((hs.attached_sublist hg).subset hc) ((hs.attached_sublist hg').subset hc')
    have hsent : g.sent.map (·.1) = g.attached := by
      have hserved := hs.valid.served hg
      rw [Served, hout] at hserved
      simp [hserved, Function.comp_def]
    rw [hempty, hsent, List.nil_append]
    exact List.filter_sublist.trans List.filter_sublist
  · have hnone : (waiters.filter fun c => (s.call? c).isSome).filter (· ∈ g'.attached) = [] := by
      apply List.filter_eq_nil_iff.mpr
      intro c hc
      have hc := (List.mem_filter.mp hc).1
      simpa using fun hc' => hm ⟨c, hc, hc'⟩
    rw [hnone, List.append_nil]
    exact turn_passed hr ht ho hg'

theorem turn_order {s s' : Loads X} {a : LoadStep X} (hr : Reachable s) (hs : Reachable s')
    (ht : Turn s a s') (ho : InOrder s) : InOrder s' := by
  have hkept : ∀ rest : History X, History.returned rest = [] →
      History.returned (s.history ++ rest) = s.history.returned := by
    intro rest he
    rw [returned_append, he, List.append_nil]
  have hpassed : s'.history.returned = s.history.returned → s'.queue = s.queue →
      InOrder s' := by
    intro hreturned hqueue
    refine order_of_passed hr ht ho ?_
    rw [passed, hreturned, hqueue]
    exact List.Sublist.refl _
  -- outcomes are sent at the end of the queue and returned from its front
  cases ht with
  | answered a id outcome ha hf =>
    refine answered_order hr (.answered a id outcome ha hf) ho ?_ rfl
    simp [passed, History.returned, List.filterMap_append]
  | failed t id waiters failure hk hf =>
    exact settled_order hr hs (.failed t id waiters failure hk hf) ho hf rfl rfl
  | evaluated t id waiters result hk hf =>
    exact settled_order hr hs (.evaluated t id waiters result hk hf) ho hf rfl rfl
  | resumed c queue id outcome hq hc =>
    refine order_of_passed hr (.resumed c queue id outcome hq hc) ho ?_
    simp [passed, note, removeCall, History.returned, List.filterMap_append, hq]
  | skipped c queue hq hc =>
    refine order_of_passed hr (.skipped c queue hq hc) ho ?_
    rw [passed, passed, hq]
    exact (List.Sublist.refl _).append (List.sublist_cons_self c queue)
  | aborted c id hc hw =>
    rw [isAwaited_of_waiting hr.awaited hc] at hw
    simp at hw
  | paused => exact ho
  | first | joined | refused | dropped | kept | gaveUp | began | fetched =>
    exact hpassed (hkept _ rfl) rfl

theorem Reachable.inOrder {s : Loads X} (h : Reachable s) : InOrder s :=
  h.induct (P := InOrder) (by simp [InOrder, start, passed, History.returned])
    fun _ _ _ hr hp hs => turn_order hr (hr.step hs) (hr.turn hs) hp

theorem Reachable.resumed_in_order {s : Loads X} (h : Reachable s) {id : ModuleId}
    {g : Generation X} (hg : g ∈ s.history.generations id) :
    (s.history.returned.filter (· ∈ g.attached)).Sublist g.attached := by
  have hsent : (g.sent.map (·.1)).Sublist g.attached := by
    have hserved := h.valid.served hg
    rw [Served] at hserved
    rw [hserved]
    cases g.outcome? with
    | none => exact List.nil_sublist _
    | some outcome => simp [Function.comp_def]
  have hpassed : s.history.returned.Sublist s.passed := List.sublist_append_left _ _
  exact ((hpassed.filter _).trans (h.inOrder id g hg)).trans hsent

/-! ## Nobody is lost -/

/-- The call was given up or has returned. -/
def Over (s : Loads X) (c : CallId) : Prop :=
  .givenUp c ∈ s.history ∨ ∃ outcome, .returned c outcome ∈ s.history

theorem turn_history {s s' : Loads X} {a : LoadStep X} (ht : Turn s a s') :
    ∃ rest, s'.history = s.history ++ rest := by
  cases ht with
  | paused => exact ⟨[], (List.append_nil _).symm⟩
  | skipped => exact ⟨[], (List.append_nil _).symm⟩
  | first | joined | answered | refused | dropped | kept | gaveUp | began | fetched | failed
  | evaluated | resumed | aborted => exact ⟨_, rfl⟩

theorem turn_over {s s' : Loads X} {a : LoadStep X} (ht : Turn s a s') {c : CallId}
    (h : Over s c) : Over s' c := by
  obtain ⟨rest, hh⟩ := turn_history ht
  rcases h with hg | ⟨outcome, hr⟩
  · exact .inl (hh ▸ List.mem_append_left _ hg)
  · exact .inr ⟨outcome, hh ▸ List.mem_append_left _ hr⟩

/-- What a turn does to a call that is there: it is still there, with what it was sent, or the
turn is its end. -/
inductive Fate (s s' : Loads X) (a : LoadStep X) (c : CallId) (call : Call X) : Prop where
  | stays (call' : Call X) (found : s'.call? c = some call') (same : call'.id = call.id)
      (sent : call.delivered.isSome → call'.delivered.isSome)
  | gaveUp (step : a = .giveUp c) (told : s'.history = s.history ++ [.givenUp c])
  | returned (outcome : LoadResult X) (told : s'.history = s.history ++ [.returned c outcome])
  | aborted (outcome : LoadResult X)
      (told : s'.history = s.history ++ [.aborted c, .returned c outcome])

theorem turn_fate {s s' : Loads X} {a : LoadStep X} (ht : Turn s a s') {c : CallId}
    {call : Call X} (h : s.call? c = some call) : Fate s s' a c call := by
  have hremoved : ∀ c₀, c ≠ c₀ → (s.removeCall c₀).call? c = some call := by
    intro c₀ hne
    rw [removeCall_lookup, if_neg hne, h]
  have hsettled : ∀ (waiters : List CallId) (outcome : LoadResult X),
      ∃ call', ((s.call? c).map fun call =>
        if c ∈ waiters then { call with delivered := some outcome } else call) = some call' ∧
        call'.id = call.id ∧ (call.delivered.isSome → call'.delivered.isSome) := by
    intro waiters outcome
    rw [h, Option.map_some]
    refine ⟨_, rfl, ?_⟩
    by_cases hm : c ∈ waiters <;> simp [hm]
  cases ht with
  | first _ id ha hf =>
    have hl := attach_lookup s (s.registry.put id (.pending [s.issued])) id c
    rw [h, Option.some_or] at hl
    exact .stays call hl rfl fun hd => hd
  | joined _ id record ha hf ho =>
    refine .stays call ?_ rfl fun hd => hd
    rw [attach_lookup, h, Option.some_or]
  | gaveUp c₀ call₀ hc =>
    by_cases hne : c = c₀
    · subst hne
      exact .gaveUp rfl rfl
    · exact .stays call (hremoved c₀ hne) rfl fun hd => hd
  | resumed c₀ queue id outcome hq hc =>
    by_cases hne : c = c₀
    · subst hne
      exact .returned outcome rfl
    · exact .stays call (hremoved c₀ hne) rfl fun hd => hd
  | aborted c₀ id hc hw =>
    by_cases hne : c = c₀
    · subst hne
      exact .aborted _ rfl
    · exact .stays call (hremoved c₀ hne) rfl fun hd => hd
  | failed t id waiters failure hk hf =>
    obtain ⟨call', hl, hid, hd⟩ := hsettled waiters _
    exact .stays call' ((settled_lookup ..).trans hl) hid hd
  | evaluated t id waiters result hk hf =>
    obtain ⟨call', hl, hid, hd⟩ := hsettled waiters _
    exact .stays call' ((settled_lookup ..).trans hl) hid hd
  | answered | refused | dropped | kept | paused | began | fetched | skipped =>
    exact .stays call h rfl fun hd => hd

theorem turn_call {s s' : Loads X} {a : LoadStep X} (ht : Turn s a s') {c : CallId}
    {call : Call X} (h : s.call? c = some call) :
    (∃ call', s'.call? c = some call' ∧ call'.id = call.id ∧
      (call.delivered.isSome → call'.delivered.isSome)) ∨ Over s' c := by
  cases turn_fate ht h with
  | stays call' found same sent => exact .inl ⟨call', found, same, sent⟩
  | gaveUp _ told => exact .inr (.inl (by simp [told]))
  | returned outcome told | aborted outcome told => exact .inr (.inr ⟨outcome, by simp [told]⟩)

theorem Reachable.present {s : Loads X} (h : Reachable s) {c : CallId}
    (hc : c ∈ s.history.called) : (∃ call, s.call? c = some call) ∨ Over s c := by
  refine h.induct (P := fun s => ∀ c ∈ s.history.called,
    (∃ call, s.call? c = some call) ∨ Over s c) (by simp [start, History.called]) ?_ c hc
  intro s a s' hr hp hs c hc
  have ht := hr.turn hs
  have hold : c ∈ s.history.called → (∃ call, s'.call? c = some call) ∨ Over s' c := by
    intro hm
    rcases hp c hm with ⟨call, hl⟩ | hover
    · rcases turn_call ht hl with ⟨call', hl', -, -⟩ | hover
      · exact .inl ⟨call', hl'⟩
      · exact .inr hover
    · exact .inr (turn_over ht hover)
  rcases turn_called ht with ⟨-, he⟩ | ⟨-, he, hnew⟩
  · exact hold (he ▸ hc)
  · rw [he] at hc
    rcases List.mem_append.mp hc with hm | hm
    · exact hold hm
    · exact List.mem_singleton.mp hm ▸ hnew.imp id .inr

end ScriptHost.Loads
