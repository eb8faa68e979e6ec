import ScriptHost.Dispatch.Runs
import ScriptHost.Proofs.Registry.Delivery
import ScriptHost.Proofs.Steps

/-!
# Dispatchers and their loads

A dispatcher takes turns of its loads, and of its own turns only the first of a
run changes them: it is one call of the module of the run, if the run has one.
-/

set_option autoImplicit false

namespace ScriptHost.Dispatcher

variable {X M : Type} {d d' : Dispatcher X M} {run : RunId} {view host : HostView}

section Parts

variable (d : Dispatcher X M) (run : RunId) (events : List (RunEvent X M))
  (outcome : LoadResult X) (loads : Loads X) (r : EntryRun X)

@[simp] theorem note_loads : (d.note run events).loads = d.loads := rfl

@[simp] theorem note_runs : (d.note run events).runs = d.runs := rfl

@[simp] theorem note_config : (d.note run events).config = d.config := rfl

@[simp] theorem follow_loads : (d.follow loads).loads = loads := by
  unfold follow
  split <;> rfl

@[simp] theorem follow_config : (d.follow loads).config = d.config := by
  unfold follow
  split <;> rfl

@[simp] theorem goOn_loads (main? : X → Option M) :
    (d.goOn run r outcome main?).loads = d.loads := by
  unfold goOn
  dsimp only
  split <;> rfl

end Parts

theorem begin_loads (d : Dispatcher X M) (view host : HostView) :
    (d.begin view host).loads = match Dispatch.opening d.config view with
      | .load id => d.loads.load id
      | _ => d.loads := by
  unfold begin
  dsimp only
  rw [note_config]
  cases Dispatch.opening d.config view with
  | usage text => rfl
  | ended result => rfl
  | load id => simp [ask]

theorem giveUp_loads (d : Dispatcher X M) (run : RunId) (r : EntryRun X) :
    (d.giveUp run r).loads = match r.phase with
      | .loading call => (d.loads.giveUp call).getD d.loads
      | _ => d.loads := rfl

theorem step_load {a : LoadStep X} (h : d.step (.load a) = some d') :
    ∃ loads, d.isOwn a = false ∧ d.loads.step a = some loads ∧ d' = d.follow loads := by
  unfold step at h
  dsimp only at h
  split at h
  · cases h
  · next ho =>
    obtain ⟨loads, hs, rfl⟩ := Option.map_eq_some_iff.mp h
    exact ⟨loads, Bool.eq_false_iff.mpr ho, hs, rfl⟩

theorem step_goOn {main? : X → Option M} (h : d.step (.goOn run main?) = some d') :
    ∃ r outcome, (run, r) ∈ d.runs ∧ r.phase = .loaded outcome ∧
      d' = d.goOn run r outcome main? := by
  unfold step at h
  dsimp only at h
  split at h
  · next r hr =>
    split at h
    · next outcome hp =>
      exact ⟨r, outcome, Association.mem_of_lookup hr, hp, (Option.some.inj h).symm⟩
    · cases h
  · cases h

theorem step_endMain {ended : Except EngineFailure Unit}
    (h : d.step (.endMain run ended) = some d') :
    ∃ r, (run, r) ∈ d.runs ∧ r.phase = .calling ∧ d' = d.endMain run r.id ended := by
  unfold step at h
  dsimp only at h
  split at h
  · next r hr =>
    split at h
    · next hp => exact ⟨r, Association.mem_of_lookup hr, hp, (Option.some.inj h).symm⟩
    · cases h
  · cases h

theorem step_giveUp (h : d.step (.giveUp run) = some d') :
    ∃ r, (run, r) ∈ d.runs ∧ d' = d.giveUp run r := by
  obtain ⟨r, hr, rfl⟩ := Option.map_eq_some_iff.mp h
  exact ⟨r, Association.mem_of_lookup hr, rfl⟩

/-- A turn is at most one turn of the loads, and no turn of a run drops a record. -/
theorem step_loads {a : Step X M} (h : d.step a = some d') :
    d'.loads = d.loads ∨
      ∃ b, d.loads.step b = some d'.loads ∧ (a = .load b ∨ ∀ id, b ≠ .invalidate id) := by
  cases a with
  | begin view host =>
    obtain rfl := Option.some.inj h
    rw [begin_loads]
    cases Dispatch.opening d.config view with
    | usage text => exact .inl rfl
    | ended result => exact .inl rfl
    | load id => exact .inr ⟨.load id, rfl, .inr (by simp)⟩
  | load b =>
    obtain ⟨loads, -, hs, rfl⟩ := step_load h
    exact .inr ⟨b, by rw [follow_loads]; exact hs, .inl rfl⟩
  | goOn run main? =>
    obtain ⟨r, outcome, -, -, rfl⟩ := step_goOn h
    exact .inl (goOn_loads ..)
  | endMain run ended =>
    obtain ⟨r, -, -, rfl⟩ := step_endMain h
    exact .inl rfl
  | giveUp run =>
    obtain ⟨r, -, rfl⟩ := step_giveUp h
    rw [giveUp_loads]
    cases r.phase with
    | loading call =>
      show (d.loads.giveUp call).getD d.loads = d.loads ∨
        ∃ b, d.loads.step b = some ((d.loads.giveUp call).getD d.loads) ∧
          (Step.giveUp run = (.load b : Step X M) ∨ ∀ id, b ≠ .invalidate id)
      cases hg : d.loads.giveUp call with
      | none => exact .inl rfl
      | some loads => exact .inr ⟨.giveUp call, hg, .inr (by simp)⟩
    | loaded outcome => exact .inl rfl
    | calling => exact .inl rfl

theorem begin_config (d : Dispatcher X M) (view host : HostView) :
    (d.begin view host).config = d.config := by
  unfold begin
  dsimp only
  split
  · rfl
  · rfl
  · exact follow_config ..

theorem goOn_config (d : Dispatcher X M) (run : RunId) (r : EntryRun X) (outcome : LoadResult X)
    (main? : X → Option M) : (d.goOn run r outcome main?).config = d.config := by
  unfold goOn
  dsimp only
  split <;> rfl

theorem step_config {a : Step X M} (h : d.step a = some d') : d'.config = d.config := by
  cases a with
  | begin view host =>
    obtain rfl := Option.some.inj h
    exact begin_config ..
  | load b =>
    obtain ⟨loads, -, -, rfl⟩ := step_load h
    exact follow_config ..
  | goOn run main? =>
    obtain ⟨r, outcome, -, -, rfl⟩ := step_goOn h
    exact goOn_config ..
  | endMain run ended =>
    obtain ⟨r, -, -, rfl⟩ := step_endMain h
    rfl
  | giveUp run =>
    obtain ⟨r, -, rfl⟩ := step_giveUp h
    rfl

theorem runsBy : RunsBy (S := Dispatcher X M) step Dispatcher.run :=
  ⟨fun _ => rfl, fun _ _ _ => rfl⟩

theorem run_config {steps : List (Step X M)} (h : d.run steps = some d') :
    d'.config = d.config :=
  runsBy.keeps (P := (·.config = d.config)) (fun _ _ _ _ hc hs => (step_config hs).trans hc) h rfl

section Returns

variable {s s' : Loads X} {a : LoadStep X} {c : CallId} {call : Call X} {id : ModuleId}

theorem newReturn_append {rest : History X} (h : s'.history = s.history ++ rest) :
    newReturn? s s' = rest.findSome? returnIn := by
  rw [newReturn?, h, List.drop_left]

theorem newReturn_mem {outcome : LoadResult X} (h : newReturn? s s' = some (c, outcome)) :
    .returned c outcome ∈ s'.history := by
  obtain ⟨event, hm, he⟩ := List.exists_of_findSome?_eq_some h
  cases event with
  | returned c' outcome' =>
    cases Option.some.inj he
    exact List.mem_of_mem_drop hm
  | _ => cases he

theorem turn_waits (ht : Loads.Turn s a s') (hc : s.call? c = some call) (ha : a ≠ .giveUp c) :
    (∃ outcome, newReturn? s s' = some (c, outcome)) ∨
      ∃ delivered, s'.call? c = some ⟨call.id, delivered⟩ := by
  cases Loads.turn_fate ht hc with
  | stays call' found same sent =>
    obtain ⟨id, delivered⟩ := call'
    exact .inr ⟨delivered, by rw [found, ← same]⟩
  | gaveUp step told => exact absurd step ha
  | returned outcome told | aborted outcome told =>
    exact .inl ⟨outcome, by rw [newReturn_append told]; rfl⟩

theorem load_waits (h : s.Reachable) (id : ModuleId) :
    .called s.issued id ∈ (s.load id).history ∧
    ((∃ outcome, newReturn? s (s.load id) = some (s.issued, outcome)) ∨
      ∃ delivered, (s.load id).call? s.issued = some ⟨id, delivered⟩) := by
  have hfresh : s.call? s.issued = none := by
    cases hl : s.call? s.issued with
    | none => rfl
    | some call => exact absurd (h.known.calls _ (Loads.call_key hl)) h.issued_fresh
  have ht := Loads.turn_of_load s (.load id) id rfl
  generalize s.load id = after at ht
  cases ht with
  | first _ other hi hf =>
    obtain rfl := Option.some.inj hi
    have hl := Loads.attach_lookup s (s.registry.put id (.pending [s.issued])) id s.issued
    rw [hfresh, if_pos rfl] at hl
    exact ⟨by simp [Loads.attach, Loads.spawn], .inr ⟨_, hl⟩⟩
  | joined _ other record hi hf ho =>
    obtain rfl := Option.some.inj hi
    refine ⟨by simp [Loads.attach], .inr ⟨none, ?_⟩⟩
    rw [Loads.attach_lookup, hfresh, if_pos rfl]
    rfl
  | answered _ other outcome hi hf =>
    obtain rfl := Option.some.inj hi
    exact ⟨by simp, .inl ⟨outcome, by rw [newReturn_append rfl]; rfl⟩⟩

end Returns

/-- The dispatchers that come about by turns. -/
def Reachable (d : Dispatcher X M) : Prop := ∃ config steps, (start config).run steps = some d

theorem Reachable.step {a : Step X M} (h : Reachable d) (hs : d.step a = some d') :
    Reachable d' := by
  obtain ⟨config, steps, hr⟩ := h
  exact ⟨config, steps ++ [a], by rw [runsBy.snoc, hr, Option.bind_some, hs]⟩

theorem Reachable.induct {P : Dispatcher X M → Prop} (hstart : ∀ config, P (start config))
    (hstep : ∀ d a d', Reachable d → P d → d.step a = some d' → P d')
    (h : Reachable d) : P d := by
  obtain ⟨config, steps, h⟩ := h
  exact runsBy.induct (P := fun _ d => P d) (hstart config)
    (fun steps d a d' hr hp hs => hstep d a d' ⟨config, steps, hr⟩ hp hs) h

/-- The loads of a dispatcher are those of a run of loads. -/
theorem Reachable.loads (h : Reachable d) : d.loads.Reachable := by
  apply h.induct
  · exact fun config => ⟨[], rfl⟩
  · intro d a d' _ hl hs
    obtain he | ⟨b, hb, -⟩ := step_loads hs
    · rw [he]
      exact hl
    · exact hl.step hb

end ScriptHost.Dispatcher
