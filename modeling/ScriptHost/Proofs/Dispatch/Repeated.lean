import ScriptHost.Proofs.Dispatch.Outcome
import ScriptHost.Proofs.Registry.OneGeneration

/-!
# Repeated runs

Loads are shared and calls of `main` are not. However runs of a module follow or
overlap each other, and however they spell its path, it is fetched and evaluated
at most once, and they all get its one outcome. If this is a failure it is the
result of each of them. Otherwise each of them asks for `main` for itself and
calls it once, whatever became of the calls before.
-/

set_option autoImplicit false

namespace ScriptHost.Dispatcher

variable {X M : Type} {d d' : Dispatcher X M} {loads : Loads X} {config : Config} {n : RunId}
  {r : EntryRun X} {view host : HostView} {events : List (RunEvent X M)} {id : ModuleId}
  {outcome : LoadResult X}

/-! ## Runs of a module -/

/-- The run was started with a target that names the module, however it is spelled. -/
def RunsModule (d : Dispatcher X M) (n : RunId) (id : ModuleId) : Prop :=
  ∃ view host, (n, .began view host) ∈ d.history ∧ Names view id

theorem Names.unique {other : ModuleId} (h : Names view id) (h' : Names view other) :
    id = other := by
  obtain ⟨target, ht, hr⟩ := h
  obtain ⟨target', ht', hr'⟩ := h'
  obtain rfl := Option.some.inj (ht.symm.trans ht')
  exact Except.ok.inj (hr.symm.trans hr')

/-- What a run of a module has told: it is under way, has ended or was given up. -/
inductive Course (d : Dispatcher X M) (n : RunId) (id : ModuleId) : Prop
  | underWay (r : EntryRun X) (hr : (n, r) ∈ d.runs) (hi : r.id = id)
      (hs : Stage d.config d.loads r (d.trace n))
  | ended (view host : HostView) (c : Case) (result : RunResult) (hn : Names view id)
      (hs : Story d.config d.loads view host c (d.trace n) result)
  | givenUp (r : EntryRun X) (events : List (RunEvent X M)) (hi : r.id = id)
      (hs : Stage d.config d.loads r events) (ht : d.trace n = events ++ [.givenUp])

theorem Reachable.course (h : Reachable d) (hm : RunsModule d n id) : Course d n id := by
  obtain ⟨ht, -⟩ := h.told
  obtain ⟨view, host, hb, hn⟩ := hm
  have hmem : .began view host ∈ d.trace n :=
    List.mem_filterMap.mpr ⟨(n, .began view host), hb, if_pos rfl⟩
  by_cases hk : n ∈ d.runs.map (·.1)
  · obtain ⟨⟨m, r⟩, hr, rfl⟩ := List.mem_map.mp hk
    have hs := ht.stage m r hr
    obtain ⟨rfl, -⟩ := hs.began hmem
    exact .underWay r hr ((ht.names m r hr).unique hn) hs
  · have ho := ht.gone n view host hb hk
    generalize htold : d.trace n = told at ho
    cases ho with
    | ended c _ result hs => exact .ended view host c result hn (htold ▸ hs)
    | givenUp r events hn' hs hv hh => exact .givenUp r events (hn'.unique (hv ▸ hn)) hs htold

/-! ## The outcome of the load -/

theorem Stage.of_mem_loaded (h : Stage config loads r events) (hm : .loaded outcome ∈ events) :
    ∃ call, .called call r.id ∈ loads.history ∧ .returned call outcome ∈ loads.history := by
  cases h with
  | loading call hp hc => simp at hm
  | loaded call other hp hc hr =>
    obtain rfl : outcome = other := by simpa using hm
    exact ⟨call, hc, hr⟩
  | calling call exports argument main hp hc hr hg =>
    obtain rfl : outcome = .ok exports := by simpa using hm
    exact ⟨call, hc, hr⟩

theorem Story.of_mem_loaded {c : Case} {result : RunResult}
    (h : Story config loads view host c events result) (hn : Names view id)
    (hm : .loaded outcome ∈ events) :
    ∃ call, .called call id ∈ loads.history ∧ .returned call outcome ∈ loads.history := by
  cases h with
  | usage ha => simp at hm
  | unresolved target failure ha hf => simp at hm
  | unloaded other call failure hn' hc hr =>
    obtain rfl : outcome = .error failure := by simpa using hm
    exact ⟨call, hn.unique hn' ▸ hc, hr⟩
  | mainless other call exports argument hn' hc hr hg =>
    obtain rfl : outcome = .ok exports := by simpa using hm
    exact ⟨call, hn.unique hn' ▸ hc, hr⟩
  | called other call exports argument main ended result hn' hc hr hg he =>
    obtain rfl : outcome = .ok exports := by simpa using hm
    exact ⟨call, hn.unique hn' ▸ hc, hr⟩

theorem Course.of_mem_loaded (h : Course d n id) (hm : .loaded outcome ∈ d.trace n) :
    ∃ call, .called call id ∈ d.loads.history ∧ .returned call outcome ∈ d.loads.history := by
  cases h with
  | underWay r hr hi hs => exact hi ▸ hs.of_mem_loaded hm
  | ended view host c result hn hs => exact hs.of_mem_loaded hn hm
  | givenUp r events hi hs ht =>
    rw [ht, List.mem_append] at hm
    exact hi ▸ hs.of_mem_loaded (hm.resolve_right (by simp))

/-! ## Calls of `main` -/

/-- The exports for which the engine was asked for `main`, with the argument and with what the
engine had to call. -/
def invocationIn : RunEvent X M → Option (X × EntryArgument × Option M)
  | .invoked exports argument main => some (exports, argument, main)
  | _ => none

def invocations (d : Dispatcher X M) (n : RunId) : List (X × EntryArgument × Option M) :=
  (d.trace n).filterMap invocationIn

/-- The result of a run whose engine had a `main` to call, or had none. -/
def Finishes (d : Dispatcher X M) (n : RunId) (id : ModuleId) (result : RunResult) :
    Option M → Prop
  | none => result = .ok (.completed id false)
  | some _ => ∃ ended, .returned ended ∈ d.trace n ∧ EndsWith id ended result

/-- A run whose module loaded asks for `main` once, and ends as this call does. If it has not
come so far it can go on, whatever the engine answers. -/
inductive CallsOnce (d : Dispatcher X M) (n : RunId) (id : ModuleId) (exports : X) : Prop
  | ended (argument : EntryArgument) (main : Option M) (result : RunResult)
      (hi : d.invocations n = [(exports, argument, main)]) (hr : d.result? n = some result)
      (hf : Finishes d n id result main)
  | calling (argument : EntryArgument) (main : M)
      (hi : d.invocations n = [(exports, argument, some main)])
      (hg : ∀ ended, ∃ d' result, d.step (.endMain n ended) = some d' ∧
        d'.invocations n = d.invocations n ∧ d'.result? n = some result ∧
        EndsWith id ended result)
  | loaded (hi : d.invocations n = [])
      (hg : ∀ main? : X → Option M, ∃ d' argument, d.step (.goOn n main?) = some d' ∧
        d'.invocations n = [(exports, argument, main? exports)])
  | givenUp (hg : .givenUp ∈ d.trace n) (hi : (d.invocations n).length ≤ 1)

inductive Fails (d : Dispatcher X M) (n : RunId) (failure : LoadFailure) : Prop
  | ended (hi : d.invocations n = []) (hr : d.result? n = some (.error failure))
  | loaded (hi : d.invocations n = [])
      (hg : ∀ main? : X → Option M, ∃ d', d.step (.goOn n main?) = some d' ∧
        d'.invocations n = [] ∧ d'.result? n = some (.error failure))
  | givenUp (hg : .givenUp ∈ d.trace n) (hi : d.invocations n = [])

section Turns

theorem invocations_of_trace (h : d'.trace n = d.trace n ++ events) :
    d'.invocations n = d.invocations n ++ events.filterMap invocationIn := by
  rw [invocations, h, List.filterMap_append]
  rfl

theorem result_of_trace (h : d'.trace n = d.trace n ++ events)
    (hr : (d.trace n).findSome? resultIn = none) :
    d'.result? n = events.findSome? resultIn := by
  rw [result?, h, List.findSome?_append, hr]
  rfl

theorem goOn_error_trace (d : Dispatcher X M) (n : RunId) (r : EntryRun X) (failure : LoadFailure)
    (main? : X → Option M) :
    (d.goOn n r (.error failure) main?).trace n = d.trace n ++ [.ended (.error failure)] :=
  note_trace_self (d.remove n) n _

theorem goOn_ok_trace (d : Dispatcher X M) (n : RunId) (r : EntryRun X) (exports : X)
    (main? : X → Option M) : ∃ argument rest, (d.goOn n r (.ok exports) main?).trace n =
      d.trace n ++ .invoked exports argument (main? exports) :: rest ∧
      rest.filterMap invocationIn = [] := by
  unfold goOn Dispatch.continuation
  cases hm : main? exports with
  | none =>
    simp only [hm]
    exact ⟨_, _, note_trace_self (d.remove n) n _, rfl⟩
  | some main =>
    simp only [hm]
    exact ⟨_, [], note_trace_self (d.enterMain n) n _, rfl⟩

theorem endMain_trace (d : Dispatcher X M) (n : RunId) (id : ModuleId)
    (ended : Except EngineFailure Unit) : (d.endMain n id ended).trace n =
      d.trace n ++ [.returned ended, .ended (Dispatch.closing id ended)] :=
  note_trace_self (d.remove n) n _

end Turns

theorem Stage.invocations_le (h : Stage config loads r events) :
    (events.filterMap invocationIn).length ≤ 1 := by
  cases h with
  | loading | loaded => exact Nat.zero_le 1
  | calling => exact Nat.le_refl 1

theorem Stage.invocations_failed {failure : LoadFailure} (h : Stage config loads r events)
    (hm : .loaded (.error failure) ∈ events) : events.filterMap invocationIn = [] := by
  cases h with
  | loading | loaded => rfl
  | calling => simp at hm

theorem calls_once_of_stage {exports : X} (hl : d.runs.lookup n = some r)
    (hs : Stage d.config d.loads r (d.trace n)) (hm : .loaded (.ok exports) ∈ d.trace n) :
    CallsOnce d n r.id exports := by
  generalize htold : d.trace n = told at hs hm
  cases hs with
  | loading call hp hc => simp at hm
  | loaded call outcome hp hc hr =>
    obtain rfl : .ok exports = outcome := by simpa using hm
    have hi : d.invocations n = [] := by rw [invocations, htold]; rfl
    refine .loaded hi fun main? => ?_
    obtain ⟨argument, rest, ht, hrest⟩ := goOn_ok_trace d n r exports main?
    refine ⟨d.goOn n r (.ok exports) main?, argument, by simp [step, hl, hp], ?_⟩
    rw [invocations_of_trace ht, hi, List.filterMap_cons, hrest]
    rfl
  | calling call exports' argument main hp hc hr hg =>
    obtain rfl : exports = exports' := by simpa using hm
    have hi : d.invocations n = [(exports, argument, some main)] := by
      rw [invocations, htold]
      rfl
    refine .calling argument main hi fun ended => ?_
    have ht := endMain_trace d n r.id ended
    have hnone : (d.trace n).findSome? resultIn = none := by rw [htold]; rfl
    refine ⟨d.endMain n r.id ended, Dispatch.closing r.id ended, by simp [step, hl, hp], ?_, ?_,
      closing_ends r.id ended⟩
    · exact (invocations_of_trace ht).trans (List.append_nil _)
    · exact result_of_trace ht hnone

theorem fails_of_stage {failure : LoadFailure} (hl : d.runs.lookup n = some r)
    (hs : Stage d.config d.loads r (d.trace n)) (hm : .loaded (.error failure) ∈ d.trace n) :
    Fails d n failure := by
  generalize htold : d.trace n = told at hs hm
  cases hs with
  | loading call hp hc => simp at hm
  | calling call exports argument main hp hc hr hg => simp at hm
  | loaded call outcome hp hc hr =>
    obtain rfl : .error failure = outcome := by simpa using hm
    have hi : d.invocations n = [] := by rw [invocations, htold]; rfl
    have hnone : (d.trace n).findSome? resultIn = none := by rw [htold]; rfl
    refine .loaded hi fun main? => ?_
    have ht := goOn_error_trace d n r failure main?
    refine ⟨d.goOn n r (.error failure) main?, by simp [step, hl, hp], ?_, ?_⟩
    · exact (invocations_of_trace ht).trans (by rw [hi]; rfl)
    · exact result_of_trace ht hnone

theorem calls_once_of_story {exports : X} {c : Case} {result : RunResult} (hn : Names view id)
    (hs : Story d.config d.loads view host c (d.trace n) result)
    (hm : .loaded (.ok exports) ∈ d.trace n) : CallsOnce d n id exports := by
  have hresult : d.result? n = some result := hs.ends
  generalize htold : d.trace n = told at hs hm
  cases hs with
  | usage ha => simp at hm
  | unresolved target failure ha hf => simp at hm
  | unloaded other call failure hn' hc hr => simp at hm
  | mainless other call exports' argument hn' hc hr hg =>
    obtain rfl : exports = exports' := by simpa using hm
    obtain rfl := hn.unique hn'
    exact .ended argument none _ (by rw [invocations, htold]; rfl) hresult rfl
  | called other call exports' argument main ended result hn' hc hr hg he =>
    obtain rfl : exports = exports' := by simpa using hm
    obtain rfl := hn.unique hn'
    exact .ended argument (some main) result (by rw [invocations, htold]; rfl) hresult
      ⟨ended, by simp [htold], he⟩

theorem fails_of_story {failure : LoadFailure} {c : Case} {result : RunResult}
    (hs : Story d.config d.loads view host c (d.trace n) result)
    (hm : .loaded (.error failure) ∈ d.trace n) : Fails d n failure := by
  have hresult : d.result? n = some result := hs.ends
  generalize htold : d.trace n = told at hs hm
  cases hs with
  | usage ha => simp at hm
  | unresolved target failure ha hf => simp at hm
  | unloaded other call failure' hn' hc hr =>
    obtain rfl : failure = failure' := by simpa using hm
    exact .ended (by rw [invocations, htold]; rfl) hresult
  | mainless other call exports argument hn' hc hr hg => simp at hm
  | called other call exports argument main ended result hn' hc hr hg he => simp at hm

theorem Course.calls_once {exports : X} (h : Course d n id) (hd : (d.runs.map (·.1)).Nodup)
    (hm : .loaded (.ok exports) ∈ d.trace n) : CallsOnce d n id exports := by
  cases h with
  | underWay r hr hi hs => exact hi ▸ calls_once_of_stage (Association.lookup_of_mem hd hr) hs hm
  | ended view host c result hn hs => exact calls_once_of_story hn hs hm
  | givenUp r events hi hs ht =>
    refine .givenUp (by simp [ht]) ?_
    rw [invocations, ht, List.filterMap_append]
    exact (List.append_nil _).symm ▸ hs.invocations_le

theorem Course.fails {failure : LoadFailure} (h : Course d n id) (hd : (d.runs.map (·.1)).Nodup)
    (hm : .loaded (.error failure) ∈ d.trace n) : Fails d n failure := by
  cases h with
  | underWay r hr hi hs => exact fails_of_stage (Association.lookup_of_mem hd hr) hs hm
  | ended view host c result hn hs => exact fails_of_story hs hm
  | givenUp r events hi hs ht =>
    refine .givenUp (by simp [ht]) ?_
    have hmem : .loaded (.error failure) ∈ events := by
      rw [ht, List.mem_append] at hm
      exact hm.resolve_right (by simp)
    rw [invocations, ht, List.filterMap_append, hs.invocations_failed hmem]
    rfl

/-! ## Histories without drops -/

theorem step_drops {a : Step X M} (h : Reachable d) (hk : ∀ id, a ≠ .load (.invalidate id))
    (hs : d.step a = some d') (id : ModuleId) :
    d'.loads.history.drops id = d.loads.history.drops id := by
  rcases step_loads hs with he | ⟨b, hb, hload⟩
  · rw [he]
  · apply Loads.turn_drops (h.loads.turn hb)
    rcases hload with rfl | hne
    · exact fun other he => hk other (by rw [he])
    · exact hne

theorem run_drops {steps : List (Step X M)} (hr : (start config).run steps = some d)
    (hk : ∀ id, .load (.invalidate id) ∉ steps) (id : ModuleId) :
    d.loads.history.drops id = 0 := by
  have hkeep : ∀ (t : Dispatcher X M) a t', a ∈ steps →
      Reachable t ∧ t.loads.history.drops id = 0 → t.step a = some t' →
      Reachable t' ∧ t'.loads.history.drops id = 0 := by
    rintro t a t' hm ⟨ht, hd⟩ hs
    have hne : ∀ other, a ≠ .load (.invalidate other) := fun other he => hk other (he ▸ hm)
    exact ⟨ht.step hs, (step_drops ht hne hs id).trans hd⟩
  exact (runsBy.keeps hkeep hr ⟨⟨config, [], rfl⟩, rfl⟩).2

/-- Runs follow and overlap each other in any way, and nothing is dropped. Then a module is
fetched and evaluated at most once, and all its runs have the one outcome of its load. Each run of
a module that loaded asks for `main` once and calls what there is, and each run of one that did
not asks for none and fails as the load did. -/
theorem runs_repeat {steps : List (Step X M)} (hr : (start config).run steps = some d)
    (hk : ∀ id, .load (.invalidate id) ∉ steps) :
    (∀ id, d.loads.history.fetches id ≤ 1 ∧ (d.loads.history.evaluations id).length ≤ 1) ∧
    (∀ n n' id outcome outcome', RunsModule d n id → RunsModule d n' id →
      .loaded outcome ∈ d.trace n → .loaded outcome' ∈ d.trace n' → outcome = outcome') ∧
    (∀ n id exports, RunsModule d n id → .loaded (.ok exports) ∈ d.trace n →
      CallsOnce d n id exports) ∧
    ∀ n id failure, RunsModule d n id → .loaded (.error failure) ∈ d.trace n →
      Fails d n failure := by
  have hd : Reachable d := ⟨config, steps, hr⟩
  have hl : d.loads.Reachable := hd.loads
  have hdrops := run_drops hr hk
  have hdistinct : (d.runs.map (·.1)).Nodup := hd.told.1.distinct
  refine ⟨?_, ?_, ?_, ?_⟩
  · intro id
    exact ⟨Loads.fetches_le_one hl.valid (hdrops id), Loads.evaluations_le_one hl (hdrops id)⟩
  · intro n n' id outcome outcome' hm hm' ho ho'
    obtain ⟨call, hc, hret⟩ := (hd.course hm).of_mem_loaded ho
    obtain ⟨call', hc', hret'⟩ := (hd.course hm').of_mem_loaded ho'
    exact Loads.same_outcome hl (hdrops id) hc hc' hret hret'
  · intro n id exports hm ho
    exact (hd.course hm).calls_once hdistinct ho
  · intro n id failure hm ho
    exact (hd.course hm).fails hdistinct ho

def spelledTwice (cwd : ModuleId) (host : HostView) : List (Step Nat Unit) :=
  [.begin ⟨cwd, ["zoe", "main.js"]⟩ host, .begin ⟨cwd, ["zoe", "./main.js"]⟩ host,
    .load (.begin 0), .load (.endFetch 0 (.ok "text")), .load (.endEvaluation 0 (.ok 7)),
    .load .resume, .goOn 0 fun _ => some (), .endMain 0 (.error ⟨"Error: boom", none⟩),
    .load .resume, .goOn 1 fun _ => some (), .endMain 1 (.ok ())]

theorem spelled_twice_calls :
    let cwd : ModuleId := ⟨⟨"file".toList, some ⟨[], none, none⟩, .rooted ["app".toList, []], none⟩⟩
    let id : ModuleId :=
      ⟨⟨"file".toList, some ⟨[], none, none⟩, .rooted ["app".toList, "main.js".toList], none⟩⟩
    let host : HostView := ⟨cwd, ["zoe"]⟩
    ∃ d, (start Config.initial).run (spelledTwice cwd host) = some d ∧
      d.loads.history.fetches id ≤ 1 ∧ CallsOnce d 0 id 7 ∧ CallsOnce d 1 id 7 ∧
      d.result? 0 = some (.error (.entryFailed "file:///app/main.js" "Error: boom")) ∧
      d.result? 1 = some (.ok (.completed id true)) := by
  intro cwd id host
  have hrun : ((start Config.initial).run (spelledTwice cwd host)).map (fun d =>
      (d.result? 0, d.result? 1,
        d.history.any (· = (0, .began ⟨cwd, ["zoe", "main.js"]⟩ host)),
        d.history.any (· = (1, .began ⟨cwd, ["zoe", "./main.js"]⟩ host)),
        (d.trace 0).any (· = .loaded (.ok 7)), (d.trace 1).any (· = .loaded (.ok 7)))) =
      some (some (.error (.entryFailed "file:///app/main.js" "Error: boom")),
        some (.ok (.completed id true)), true, true, true, true) := by decide +kernel
  obtain ⟨d, hr, hd⟩ := Option.map_eq_some_iff.mp hrun
  simp only [Prod.mk.injEq, List.any_eq_true, decide_eq_true_eq, exists_eq_right] at hd
  obtain ⟨hfirst, hsecond, hbegan, hbegan', hloaded, hloaded'⟩ := hd
  have hname : ModuleId.resolveFilePath "main.js" cwd = .ok id := by decide +kernel
  have hname' : ModuleId.resolveFilePath "./main.js" cwd = .ok id := by decide +kernel
  obtain ⟨hcounts, -, hcalls, -⟩ := runs_repeat hr (by simp [spelledTwice])
  exact ⟨d, hr, (hcounts id).1, hcalls 0 id 7 ⟨_, _, hbegan, _, rfl, hname⟩ hloaded,
    hcalls 1 id 7 ⟨_, _, hbegan', _, rfl, hname'⟩ hloaded', hfirst, hsecond⟩

end ScriptHost.Dispatcher
