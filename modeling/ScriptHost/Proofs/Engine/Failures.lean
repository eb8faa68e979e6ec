import ScriptHost.Proofs.Engine.Runs

/-!
# The failures of runs

A phase is an evaluation or a call of `main`. The imports that failed since it
began are the end of the trail, and one slot holds the last of them. A value that
escapes becomes the failure in the slot if its report has the name in the slot,
whichever import it was thrown for.
-/

set_option autoImplicit false

namespace ScriptHost.Engine

abbrev FailedImport := ImportFailure × Value

def thrownFor (f : FailedImport) : Milestone := .importFailed f.1 f.2

/-- An evaluation of a module, or its `main`, with the imports that failed since it began. -/
structure Phase where
  module : ModuleId
  isMain : Bool
  failed : List FailedImport

def ownFailure (module : ModuleId) (isMain : Bool) (text : String) : LoadFailure :=
  match isMain with
  | true => .entryFailed module.text text
  | false => .evaluation text

namespace Phase

def trail (p : Phase) : List Milestone := .begun p.module p.isMain :: p.failed.map thrownFor

/-- The last import that failed, if the report of the value names it. -/
def blamed? (p : Phase) (value : Value) : Option ImportFailure :=
  (p.failed.getLast?.map (·.1)).filter fun i => contains value.report i.name

/-- What a value that escapes becomes. -/
def verdict (p : Phase) (value : Value) : LoadFailure :=
  match p.blamed? value with
  | some i => i.failure
  | none => ownFailure p.module p.isMain value.report

theorem failureOf_verdict (p : Phase) (value : Value) :
    (failureOf (p.failed.getLast?.map (·.1)) value).toLoad (ownFailure p.module p.isMain) =
      p.verdict value := by
  unfold verdict blamed? failureOf
  cases p.failed.getLast?.map (·.1) with
  | none => rfl
  | some i => by_cases h : contains value.report i.name = true <;>
      simp [h, Option.filter, EngineFailure.toLoad, EngineFailure.ofLoad, EngineFailure.ofText]

theorem verdict_eq_iff (p : Phase) (value : Value) (failure : LoadFailure) :
    p.verdict value = failure ↔
      (∃ last, p.blamed? value = some last ∧ last.failure = failure) ∨
        p.blamed? value = none ∧ ownFailure p.module p.isMain value.report = failure := by
  unfold verdict
  cases p.blamed? value <;> simp

def next (p : Option Phase) : Milestone → Option Phase
  | .begun module isMain => some ⟨module, isMain, []⟩
  | .importFailed i error => p.map fun p => { p with failed := p.failed ++ [(i, error)] }
  | .escaped _ => p

def last? (trail : List Milestone) : Option Phase := trail.foldl next none

theorem foldl_next (failed : List FailedImport) :
    ∀ p : Phase, (failed.map thrownFor).foldl next (some p) =
      some { p with failed := p.failed ++ failed } := by
  induction failed with
  | nil => simp
  | cons f failed ih =>
    intro p
    rw [List.map_cons, List.foldl_cons]
    simp [thrownFor, next, ih]

theorem last?_escape (earlier : List Milestone) (p : Phase) (value : Value) :
    last? (earlier ++ (p.trail ++ [.escaped value])) = some p := by
  simp [last?, trail, next, foldl_next]

theorem quiet (p : Phase) (v : Value) : .escaped v ∉ p.trail := by
  simp [trail, thrownFor]

/-- An import that failed right before the escape is the last one of the phase. -/
theorem failed_getLast? {before rest : List Milestone} {f : FailedImport} {v : Value} (p : Phase)
    (h : before ++ [thrownFor f, .escaped v] = rest ++ (p.trail ++ [.escaped v])) :
    p.failed.getLast? = some f := by
  obtain ⟨module, isMain, failed⟩ := p
  obtain rfl | ⟨failed, g, rfl⟩ := List.eq_nil_or_concat failed
  · have hb := List.append_inj_right' h rfl
    simp [thrownFor, trail] at hb
  · have he : rest ++ (trail ⟨module, isMain, failed.concat g⟩ ++ [.escaped v]) =
        rest ++ (.begun module isMain :: failed.map thrownFor) ++ [thrownFor g, .escaped v] := by
      simp [trail]
    have hb := List.append_inj_right' (h.trans he) rfl
    simp only [thrownFor, List.cons.injEq, Milestone.importFailed.injEq] at hb
    have hf : f = g := Prod.ext hb.1.1 hb.1.2
    simp [hf]

end Phase

section Slot

variable {s s' s'' : State}

/-- Between two states some imports failed, the last of which is in the slot. -/
structure Failing (s : State) (failed : List FailedImport) (s' : State) : Prop where
  trail : s'.trail = s.trail ++ failed.map thrownFor
  failure : s'.failure = (failed.getLast?.map (·.1)).or s.failure

theorem Failing.refl (s : State) : Failing s [] s := ⟨by simp, by simp⟩

theorem codeStep_failing {failed : List FailedImport} (h : CodeStep s' s'')
    (hf : Failing s failed s') : ∃ more, Failing s more s'' := by
  cases h with
  | importFailed name complaint failure hc =>
    refine ⟨failed ++ [(⟨name, failure⟩, importError (s'.issued + 1) complaint failure)], ?_, ?_⟩
    · simp [State.afterFailedImport, hf.trail, thrownFor]
    · simp [State.afterFailedImport]
  | _ => exact ⟨failed, hf.trail, hf.failure⟩

theorem step_failing {failed : List FailedImport} (h : Step s' s'') (hf : Failing s failed s') :
    ∃ more, Failing s more s'' := by
  cases h with
  | code h => exact codeStep_failing h hf
  | _ => exact ⟨failed, hf.trail, hf.failure⟩

theorem turns_failing {α : Type} {code : Run α} (hw : Turns code) (s : State) :
    ∃ failed, Failing s failed (left (code.run s)) :=
  walks_keep (P := fun s' => ∃ failed, Failing s failed s')
    (fun h hf => step_failing h hf.choose_spec) hw ⟨[], .refl s⟩

end Slot

/-- A part of the trail without an escape, or with one at its end and the failure it leads to. -/
inductive Telling : List Milestone → Option LoadFailure → Prop
  | quiet (part : List Milestone) (h : ∀ v, .escaped v ∉ part) : Telling part none
  | escape (earlier : List Milestone) (p : Phase) (value : Value)
      (h : ∀ v, .escaped v ∉ earlier) :
      Telling (earlier ++ (p.trail ++ [.escaped value])) (some (p.verdict value))

theorem thrownFor_quiet (failed : List FailedImport) (v : Value) :
    .escaped v ∉ failed.map thrownFor := by
  simp [thrownFor]

theorem Telling.after_quiet {first part : List Milestone} {failure? : Option LoadFailure}
    (hq : ∀ v, .escaped v ∉ first) (h : Telling part failure?) :
    Telling (first ++ part) failure? := by
  cases h with
  | quiet part h =>
    refine .quiet _ fun v hv => ?_
    obtain hv | hv := List.mem_append.mp hv
    · exact hq v hv
    · exact h v hv
  | escape earlier p value h =>
    rw [← List.append_assoc]
    refine .escape _ p value fun v hv => ?_
    obtain hv | hv := List.mem_append.mp hv
    · exact hq v hv
    · exact h v hv

section Tells

variable {α β : Type} {s : State}

/-- What came after a trail tells of an escape at its end at most, and then the code ended with
the failure it leads to. -/
def Told (trail : List Milestone) (r : EStateM.Result Value State (Option (LoadResult α))) : Prop :=
  ∃ part failure?, (left r).trail = trail ++ part ∧ Telling part failure? ∧
    ∀ failure, failure? = some failure → ∃ s', r = .ok (some (.error failure)) s'

abbrev Tells (s : State) (code : Run (Option (LoadResult α))) : Prop := Told s.trail (code.run s)

variable {trail : List Milestone}

theorem told_quiet {r : EStateM.Result Value State (Option (LoadResult α))} (part : List Milestone)
    (ht : (left r).trail = trail ++ part) (hq : ∀ v, .escaped v ∉ part) : Told trail r :=
  ⟨part, none, ht, .quiet part hq, by simp⟩

theorem told_after_quiet {r : EStateM.Result Value State (Option (LoadResult α))}
    {part : List Milestone}
    (hq : ∀ v, .escaped v ∉ part) (h : Told (trail ++ part) r) : Told trail r := by
  obtain ⟨more, failure?, ht, hp, hf⟩ := h
  exact ⟨part ++ more, failure?, by rw [ht, List.append_assoc], hp.after_quiet hq, hf⟩

theorem told_escape {r : EStateM.Result Value State (Option (LoadResult α))} {s' : State}
    (earlier : List Milestone) (p : Phase) (value : Value) (hq : ∀ v, .escaped v ∉ earlier)
    (hr : r = .ok (some (.error (p.verdict value))) s')
    (ht : s'.trail = trail ++ (earlier ++ (p.trail ++ [.escaped value]))) :
    Told trail r := by
  refine ⟨_, _, ?_, .escape earlier p value hq, ?_⟩
  · rw [hr]
    exact ht
  · intro failure hf
    cases hf
    exact ⟨s', hr⟩

theorem tells_turns {code : Run (Option (LoadResult α))} (hw : Turns code) : Tells s code := by
  obtain ⟨failed, hf⟩ := turns_failing hw s
  exact told_quiet _ hf.trail (thrownFor_quiet failed)

theorem tells_get {next : State → Run (Option (LoadResult α))} (h : Tells s (next s)) :
    Tells s (get >>= next) :=
  h

/-- Code that ends with every failure that it is given, and adds nothing to the trail for it. -/
def HandsOn (next : Option (LoadResult α) → Run (Option (LoadResult β))) : Prop :=
  ∀ failure s, ∃ s', (next (some (.error failure))).run s = .ok (some (.error failure)) s' ∧
    s'.trail = s.trail

theorem tells_bind {code : Run (Option (LoadResult α))}
    {next : Option (LoadResult α) → Run (Option (LoadResult β))} (h : Tells s code)
    (hn : ∀ outcome s', Tells s' (next outcome)) (he : HandsOn next) :
    Tells s (code >>= next) := by
  obtain ⟨part, failure?, ht, hp, hf⟩ := h
  rw [Tells, bind_run]
  cases hp with
  | quiet part hq =>
    cases hc : code.run s with
    | error value s' =>
      rw [hc] at ht
      exact told_quiet _ ht hq
    | ok outcome s' =>
      rw [hc] at ht
      refine told_after_quiet hq ?_
      rw [← ht]
      exact hn outcome s'
  | escape earlier p value hq =>
    obtain ⟨s', hc⟩ := hf _ rfl
    obtain ⟨s'', hs, ht'⟩ := he (p.verdict value) s'
    rw [hc] at ht
    rw [hc]
    exact told_escape earlier p value hq hs (ht'.trans ht)

theorem tells_phase (module : ModuleId) (isMain : Bool) {code : Run (Option (Except Value β))}
    {next : Option (Except Value β) → Run (Option (LoadResult α))} (hw : Turns code)
    (hnone : next none = pure none) (hok : ∀ b s', Tells s' (next (some (.ok b))))
    (herror : ∀ value s', (next (some (.error value))).run s' =
      .ok (some (.error ((failureOf s'.failure value).toLoad (ownFailure module isMain))))
        { s' with failure := none, trail := s'.trail ++ [.escaped value] }) :
    Tells s (setOut module isMain >>= fun _ => code >>= next) := by
  let begun : State := { s with failure := none, trail := s.trail ++ [.begun module isMain] }
  change Told s.trail ((code >>= next).run begun)
  -- the imports that fail in the code, the last of which is in the slot at its end
  obtain ⟨failed, hf⟩ := turns_failing hw begun
  let p : Phase := ⟨module, isMain, failed⟩
  have ht : (left (code.run begun)).trail = s.trail ++ p.trail := by
    rw [hf.trail]
    simp [begun, p, Phase.trail]
  have hs : (left (code.run begun)).failure = failed.getLast?.map (·.1) := by
    simpa [begun] using hf.failure
  rw [bind_run]
  cases hc : code.run begun with
  | error value s' =>
    rw [hc] at ht
    exact told_quiet _ ht p.quiet
  | ok outcome s' =>
    rw [hc] at ht hs
    match outcome with
    | none =>
      refine told_quiet p.trail ?_ p.quiet
      change (left ((next none).run s')).trail = _
      rw [hnone]
      exact ht
    | some (.ok b) =>
      refine told_after_quiet p.quiet ?_
      rw [← ht]
      exact hok b s'
    | some (.error value) =>
      have hv := herror value s'
      rw [show s'.failure = _ from hs, p.failureOf_verdict] at hv
      refine told_escape [] p value (by simp) hv ?_
      rw [List.nil_append, ← List.append_assoc, ← ht]
      rfl

end Tells

section Runs

variable {s : State} {id : ModuleId} {limit : Nat}

theorem tells_evaluateSource {source : String} : Tells s (evaluateSource id source limit) := by
  refine tells_phase id false turns_evaluateEntry rfl (fun main? s' => ?_) fun _ _ => rfl
  refine told_quiet [] ?_ (by simp)
  cases main? with
  | none => exact (List.append_nil _).symm
  | some f => exact (List.append_nil _).symm

theorem tells_outcomeOf {source : LoadResult String} : Tells s (outcomeOf id source limit) := by
  cases source with
  | error failure => exact tells_turns (walks_pure _)
  | ok source => exact tells_evaluateSource

theorem tells_settled {code : Run (Option (LoadResult ModuleId))} (h : Tells s code) :
    Tells s (do
      let outcome ← code
      outcome.forM (settleRecord id)
      return outcome) := by
  refine tells_bind h (fun outcome s' => ?_) fun failure s' => ⟨_, rfl, rfl⟩
  refine told_quiet [] ?_ (by simp)
  cases outcome with
  | none => exact (List.append_nil _).symm
  | some result => exact (List.append_nil _).symm

theorem tells_loadEntry : Tells s (loadEntry id limit) := by
  unfold loadEntry
  apply tells_get
  split
  · exact tells_turns (walks_pure _)
  · exact tells_turns (walks_pure _)
  · exact tells_settled tells_outcomeOf

theorem tells_callMain {f : Callable} {argument : EntryArgument} :
    Tells s (callMain id f argument limit) :=
  tells_phase id true turns_awaitMain rfl (fun _ _ => tells_turns turns_finish) fun _ _ => rfl

theorem tells_runLoaded {view : HostView} {loaded : LoadResult ModuleId} :
    Tells s (runLoaded view id limit loaded) := by
  unfold runLoaded
  apply tells_get
  split
  · exact tells_turns (walks_pure _)
  · exact tells_callMain

theorem tells_runEntry {view : HostView} : Tells s (runEntry view limit) := by
  unfold runEntry
  apply tells_get
  split
  · exact tells_turns (walks_bind (turns_code walks_writeText) fun _ => walks_pure _)
  · exact tells_turns (walks_pure _)
  · refine tells_bind tells_loadEntry (fun outcome s' => ?_) fun failure s' => ⟨s', rfl, rfl⟩
    cases outcome with
    | none => exact tells_turns (walks_pure _)
    | some loaded => exact tells_runLoaded

end Runs

/-- What escapes in a run is the last thing in its trail, and the run fails with the verdict. -/
theorem escape_verdict {s : State} {duration : Nat} {view : HostView} {v : Value}
    (escaped : .escaped v ∈ (runWithin duration s view).1.trail.drop s.trail.length) :
    ∃ (earlier : List Milestone) (p : Phase),
      (runWithin duration s view).1.trail = s.trail ++ (earlier ++ (p.trail ++ [.escaped v])) ∧
        (runWithin duration s view).2.result = some (.error (p.verdict v)) := by
  have h : Told s.trail (entryRun duration s view) := tells_runEntry
  obtain ⟨part, failure?, ht, hp, hf⟩ := h
  have hl : (runWithin duration s view).1.trail = s.trail ++ part := by
    rw [runWithin_left]
    exact ht
  rw [hl, List.drop_left] at escaped
  cases hp with
  | quiet part hq => exact absurd escaped (hq v)
  | escape earlier p value hq =>
    have hv : v = value := by
      simpa [p.quiet v, hq v] using escaped
    subst hv
    obtain ⟨s', hr⟩ := hf _ rfl
    exact ⟨earlier, p, hl, runWithin_result hr⟩

end ScriptHost.Engine
