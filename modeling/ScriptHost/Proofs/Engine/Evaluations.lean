import ScriptHost.Proofs.Engine.Declarations

/-!
# Evaluating instances

A body is executed for an instance whose evaluation has not begun, and then it
has. A visit only touches instances that were fresh, so the one that it entered
first is still entered when its imports are done. A release only touches the
instances that were held up, each at its own turn.
-/

set_option autoImplicit false

namespace ScriptHost.Engine

variable {α : Type} {P : Standing → Prop} {s t u : State} {key : Nat}

section Sparing

/-- The state is sound, and the instances with a property are as they were. -/
structure Spares (P : Standing → Prop) (s t : State) : Prop where
  sound : Sound t
  kept : ∀ i ∈ s.standings, P i → i ∈ t.standings

def Sparing (P : Standing → Prop) (s t : State) : Prop := Sound s → Spares P s t

abbrev Preserves : State → State → Prop := Sparing fun _ => False

theorem Spares.refl (h : Sound s) : Spares P s s := ⟨h, fun _ hi _ => hi⟩

theorem Spares.trans (h : Spares P s t) (h' : Spares P t u) : Spares P s u :=
  ⟨h'.sound, fun i hi hp => h'.kept i (h.kept i hi hp) hp⟩

instance : Covers (Sparing P) where
  quiet h hm := by
    intro hs
    have hq : Undisturbed _ _ := ⟨hm, codeStep_issued h⟩
    exact ⟨hs.undisturbed hq, fun i hi _ => hq.standings ▸ hi⟩

theorem spares_left {code : Run α} (hw : WalksBy (Sparing P) code) (h : Sound s) :
    Spares P s (left (code.run s)) :=
  walks_keep (fun hr h => h.trans (hr h.sound)) hw (.refl h)

end Sparing

section Stages

variable {stage : Stage}

theorem withStage_spares (h : Sound s)
    (hb : stage.hasBegun = true ∨ ∀ i ∈ s.standings, i.key = key → i.stage.hasBegun = false)
    (hp : ∀ i ∈ s.standings, P i → i.key ≠ key) : Spares P s (s.withStage key stage) := by
  refine ⟨h.withStage hb, fun i hi hpi => ?_⟩
  have hm := (withStage_changes s key stage).mem hi
  rwa [staged_other (hp i hi hpi)] at hm

def overStage : Except Value Unit → Stage
  | .ok _ => .done
  | .error value => .failed value

theorem overStage_begun (result : Except Value Unit) : (overStage result).hasBegun = true := by
  cases result <;> rfl

theorem conclude_eq (key : Nat) (result : Except Value Unit) :
    conclude key result = (setStage key (overStage result) >>= fun _ => notify key result) := by
  cases result <;> rfl

theorem conclude_spares (hp : ∀ i, P i → i.key ≠ key) {result : Except Value Unit} :
    WalksBy (Sparing P) (conclude key result) := by
  rw [conclude_eq]
  refine walks_bind (walks_modify fun s h => ?_) fun _ => walks_notify
  exact withStage_spares h (.inl (overStage_begun result)) fun i _ => hp i

end Stages

section Bodies

def Unbegun (s : State) (key : Nat) : Prop :=
  ∀ i ∈ s.standings, i.key = key → i.stage.hasBegun = false

abbrev Other (key : Nat) (i : Standing) : Prop := i.key ≠ key

/-- A body has been executed from the state `s` on, and its instance is still at its old stage. -/
structure Executed (i : Standing) (s t : State) : Prop where
  standings : t.standings = s.standings
  issued : s.issued ≤ t.issued
  events : t.moduleEvents = s.moduleEvents ++ [.executed i.name i.key]

theorem executed_spares {i : Standing} (stage : Stage) {rest : Run Unit} (h : Sound s)
    (hi : i ∈ s.standings) (hu : i.stage.hasBegun = false) (he : Executed i s t)
    (hb : stage.hasBegun = true) (hr : WalksBy (Sparing (Other i.key)) rest) :
    Spares (Other i.key) s (left ((setStage i.key stage >>= fun _ => rest).run t)) := by
  have staged : Spares (Other i.key) s (t.withStage i.key stage) := by
    refine ⟨h.execute hi hu he.standings he.issued he.events hb, fun j hj hne => ?_⟩
    have hm := (withStage_changes t i.key stage).mem (he.standings ▸ hj)
    rwa [staged_other hne] at hm
  rw [bind_run, setStage_run]
  exact staged.trans (spares_left hr staged.sound)

theorem instance?_run (key : Nat) (s : State) :
    (instance? key).run s = .ok (s.instances.find? (·.key = key)) s := rfl

theorem startBody_spares {i : Instance} (h : Sound s) (hi : i.standing ∈ s.standings)
    (hu : i.stage.hasBegun = false) :
    Spares (Other i.key) s (left ((startBody i.key i).run s)) := by
  let told : State := { s with moduleEvents := s.moduleEvents ++ [.executed i.name i.key] }
  let body : Run Outcome := execBlock (contextOf i.name) i.scope i.program.body
  have after : ∀ v : State, Undisturbed told v → Executed i.standing s v :=
    fun v hv => ⟨hv.standings, hv.issued, hv.same.events⟩
  have hq : Undisturbed told (left (body.run told)) := undisturbed_left (walks_execBlock _ _ _) told
  have tells : (tell (.executed i.name i.key)).run s = .ok () told := rfl
  rw [startBody, run_bind tells]
  have concluded : ∀ result v, Undisturbed told v →
      Spares (Other i.key) s (left ((conclude i.key result).run v)) := by
    intro result v hv
    rw [conclude_eq]
    exact executed_spares _ h hi hu (after v hv) (overStage_begun result) walks_notify
  have attempt := attempted_run (s := told) body
  cases hc : body.run told with
  | error value v =>
    rw [hc] at hq attempt
    rw [run_bind attempt]
    exact concluded (.error value) v hq
  | ok outcome v =>
    rw [hc] at hq attempt
    rw [run_bind attempt]
    cases outcome with
    | ended => exact concluded (.ok ()) v hq
    | given value => exact concluded (.ok ()) v hq
    | waits await cell frames =>
      exact executed_spares (i := i.standing) .running h hi hu (after v hq) rfl
        (walks_bind walks_issue fun _ => walks_park)

theorem found_standing {i : Instance} (h : s.instances.find? (·.key = key) = some i) :
    i.standing ∈ s.standings ∧ i.key = key :=
  ⟨List.mem_map_of_mem (List.mem_of_find?_eq_some h),
    of_decide_eq_true (List.find?_some (p := fun i : Instance => decide (i.key = key)) h)⟩

theorem startIfReady_spares (h : Sound s) (hu : Unbegun s key) :
    Spares (Other key) s (left ((startIfReady key).run s)) := by
  rw [startIfReady, run_bind (instance?_run key s)]
  cases hf : s.instances.find? (·.key = key) with
  | none => exact .refl h
  | some i =>
    obtain ⟨hi, rfl⟩ := found_standing hf
    refine left_read (P := Spares (Other i.key) s) (walks_mapM (fun _ => walks_failureOf?) _)
      (.refl h) fun failures => ?_
    cases hff : failures.findSome? id with
    | some value => exact spares_left (conclude_spares fun _ hne => hne) h
    | none =>
      refine left_read (P := Spares (Other i.key) s) (walks_mapM (fun _ => walks_isPending) _)
        (.refl h) fun pending => ?_
      split
      · exact withStage_spares h (.inr hu) fun _ _ hne => hne
      · exact startBody_spares h hi (hu _ hi rfl)

end Bodies

section Visits

abbrev SetOut (i : Standing) : Prop := i.stage.isFresh = false

theorem entered_spares {i : Standing} {imports : Run Unit} (h : Sound s) (hi : i ∈ s.standings)
    (hf : i.stage.isFresh = true) (hv : WalksBy (Sparing SetOut) imports) :
    Spares SetOut s (left ((setStage i.key .entering >>= fun _ => imports >>= fun _ =>
      startIfReady i.key).run s)) := by
  have unbegun : Unbegun s i.key := by
    intro j hj hk
    rw [h.eq_of_key hj hi hk]
    cases hs : i.stage <;> rw [hs] at hf <;> first | rfl | cases hf
  have other : ∀ j ∈ s.standings, SetOut j → j.key ≠ i.key := by
    intro j hj hjf hk
    rw [SetOut, h.eq_of_key hj hi hk, hf] at hjf
    cases hjf
  let entered := s.withStage i.key .entering
  have he : Spares SetOut s entered := withStage_spares h (.inr unbegun) other
  have own : { i with stage := .entering } ∈ entered.standings := by
    have hm := (withStage_changes s i.key .entering).mem hi
    rwa [Standing.staged, if_pos rfl] at hm
  have visited : Spares SetOut entered (left (imports.run entered)) := spares_left hv he.sound
  rw [bind_run, setStage_run]
  refine left_bind (P := Spares SetOut s) (fun value v hc => ?_) fun _ v hc => ?_
  · rw [hc] at visited
    exact he.trans visited
  · rw [hc] at visited
    have still : { i with stage := .entering } ∈ v.standings := visited.kept _ own rfl
    have hub : Unbegun v i.key := by
      intro j hj hk
      rw [visited.sound.eq_of_key hj still hk]
      rfl
    have started := startIfReady_spares visited.sound hub
    refine ⟨started.sound, fun j hj hjf => ?_⟩
    exact started.kept j ((he.trans visited).kept j hj hjf) (other j hj hjf)

theorem visit_spares (fuel : Nat) : ∀ key, WalksBy (Sparing SetOut) (visit fuel key) := by
  induction fuel with
  | zero => exact fun _ => walks_pure _
  | succ fuel ih =>
    intro key s
    let imports (i : Instance) : Run Unit := i.imports.forM fun other => do
      if (← (i.imports.takeWhile (· ≠ other)).mapM failureOf?).any Option.isSome then return ()
      visit fuel other
    have visits : ∀ i : Instance, WalksBy (Sparing SetOut) (imports i) := by
      intro i
      refine walks_forM (fun other => ?_) _
      exact walks_bind (walks_mapM (fun _ => walks_failureOf?) _) fun _ =>
        walks_ite (walks_pure _) (ih other)
    refine .single fun h => ?_
    rw [visit, run_bind (instance?_run key s)]
    cases hf : s.instances.find? (·.key = key) with
    | none => exact .refl h
    | some i =>
      obtain ⟨hi, rfl⟩ := found_standing hf
      dsimp only
      split
      · rename_i hs
        refine entered_spares (i := i.standing) h hi ?_ (visits i)
        change i.stage.isFresh = true
        rw [hs]
        rfl
      · exact .refl h

end Visits

section Releases

theorem startAll_sound (ready : List Instance) : ∀ s : State, Sound s →
    (∀ i ∈ ready, i.standing ∈ s.standings ∧ i.stage.hasBegun = false) →
    (ready.map (·.key)).Nodup →
    Sound (left ((ready.forM fun i => startIfReady i.key).run s)) := by
  induction ready with
  | nil => exact fun s h _ _ => h
  | cons i ready ih =>
    intro s h hr hn
    rw [List.map_cons, List.nodup_cons] at hn
    obtain ⟨hi, hb⟩ := hr i List.mem_cons_self
    have hu : Unbegun s i.key := by
      intro j hj hk
      rw [h.eq_of_key hj hi hk]
      exact hb
    have started := startIfReady_spares h hu
    change Sound (left ((startIfReady i.key >>= fun _ =>
      ready.forM fun i => startIfReady i.key).run s))
    refine left_bind (fun value v hc => ?_) fun _ v hc => ?_
    · rw [hc] at started
      exact started.sound
    · rw [hc] at started
      refine ih v started.sound (fun j hj => ?_) hn.2
      obtain ⟨hm, hb⟩ := hr j (List.mem_cons_of_mem _ hj)
      refine ⟨started.kept _ hm fun hk => hn.1 ?_, hb⟩
      have hk : j.key = i.key := hk
      exact hk ▸ List.mem_map_of_mem hj

theorem release_preserves (fuel : Nat) : WalksBy Preserves (release fuel) := by
  induction fuel with
  | zero => exact walks_pure _
  | succ fuel ih =>
    refine walks_get fun s => walks_from_bind (.single fun h => ⟨?_, fun _ _ hp => hp.elim⟩) ?_
    · refine startAll_sound _ s h (fun i hi => ?_) ?_
      · rw [List.mem_filter] at hi
        refine ⟨List.mem_map_of_mem hi.1, ?_⟩
        cases hst : i.stage <;> simp [hst, Stage.hasBegun] at hi ⊢
      · have hk := h.keys
        rw [State.standings, List.map_map] at hk
        exact (List.filter_sublist.map _).nodup hk
    · intro _ s'
      exact walks_from_get (walks_ite ih (walks_pure _) s')

end Releases

end ScriptHost.Engine
