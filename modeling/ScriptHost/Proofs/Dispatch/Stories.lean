import ScriptHost.Proofs.Dispatch.Basic

/-!
# The stories of runs

A run that ends tells one of five stories: without a second argument the usage
text is written, an argument that names no module is refused, a module that does
not load ends the run with the failure of its load, one without `main` ends it
well, and otherwise `main` is called once. A run under way has told the beginning
of such a story, as far as its phase.
-/

set_option autoImplicit false

namespace ScriptHost.Dispatcher

variable {X M : Type}

def Names (view : HostView) (id : ModuleId) : Prop :=
  ∃ target, view.args[1]? = some target ∧ ModuleId.resolveFilePath target view.cwd = .ok id

/-- What `main` may be called with: the host itself, the view of the run, or nothing. -/
inductive Grants (view host : HostView) : EntryMode → EntryArgument → Prop
  | raw : Grants view host .raw (.native host)
  | curated : Grants view host .curated (.reduced view)
  | bare : Grants view host .bare .nothing

inductive EndsWith (id : ModuleId) : Except EngineFailure Unit → RunResult → Prop
  | succeeded : EndsWith id (.ok ()) (.ok (.completed id true))
  | caused (message : String) (cause : LoadFailure) :
      EndsWith id (.error ⟨message, some cause⟩) (.error cause)
  | failed (message : String) :
      EndsWith id (.error ⟨message, none⟩) (.error (.entryFailed id.text message))

/-- What a run has told that is under way. -/
inductive Stage (config : Config) (loads : Loads X) (r : EntryRun X) :
    List (RunEvent X M) → Prop
  | loading (call : CallId) (hp : r.phase = .loading call)
      (hc : .called call r.id ∈ loads.history) :
      Stage config loads r [.began r.view r.host, .asked r.id call]
  | loaded (call : CallId) (outcome : LoadResult X) (hp : r.phase = .loaded outcome)
      (hc : .called call r.id ∈ loads.history) (hr : .returned call outcome ∈ loads.history) :
      Stage config loads r [.began r.view r.host, .asked r.id call, .loaded outcome]
  | calling (call : CallId) (exports : X) (argument : EntryArgument) (main : M)
      (hp : r.phase = .calling) (hc : .called call r.id ∈ loads.history)
      (hr : .returned call (.ok exports) ∈ loads.history)
      (hg : Grants r.view r.host config.entryMode argument) :
      Stage config loads r [.began r.view r.host, .asked r.id call, .loaded (.ok exports),
        .invoked exports argument (some main)]

inductive Case where
  | usage
  | unresolved
  | unloaded
  | mainless
  | called
  deriving DecidableEq, Repr

/-- What a run has told that ended, and its result. -/
inductive Story (config : Config) (loads : Loads X) (view host : HostView) :
    Case → List (RunEvent X M) → RunResult → Prop
  | usage (ha : view.args.length < 2) :
      Story config loads view host .usage
        [.began view host, .wrote config.usage, .ended (.ok .usage)] (.ok .usage)
  | unresolved (target : String) (failure : LoadFailure) (ha : view.args[1]? = some target)
      (hf : ModuleId.resolveFilePath target view.cwd = .error failure) :
      Story config loads view host .unresolved
        [.began view host, .ended (.error failure)] (.error failure)
  | unloaded (id : ModuleId) (call : CallId) (failure : LoadFailure) (hn : Names view id)
      (hc : .called call id ∈ loads.history)
      (hr : .returned call (.error failure) ∈ loads.history) :
      Story config loads view host .unloaded
        [.began view host, .asked id call, .loaded (.error failure), .ended (.error failure)]
        (.error failure)
  | mainless (id : ModuleId) (call : CallId) (exports : X) (argument : EntryArgument)
      (hn : Names view id) (hc : .called call id ∈ loads.history)
      (hr : .returned call (.ok exports) ∈ loads.history)
      (hg : Grants view host config.entryMode argument) :
      Story config loads view host .mainless
        [.began view host, .asked id call, .loaded (.ok exports), .invoked exports argument none,
          .ended (.ok (.completed id false))]
        (.ok (.completed id false))
  | called (id : ModuleId) (call : CallId) (exports : X) (argument : EntryArgument) (main : M)
      (ended : Except EngineFailure Unit) (result : RunResult) (hn : Names view id)
      (hc : .called call id ∈ loads.history)
      (hr : .returned call (.ok exports) ∈ loads.history)
      (hg : Grants view host config.entryMode argument) (he : EndsWith id ended result) :
      Story config loads view host .called
        [.began view host, .asked id call, .loaded (.ok exports),
          .invoked exports argument (some main), .returned ended, .ended result]
        result

/-- What a run has told that is over. -/
inductive Over (config : Config) (loads : Loads X) (view host : HostView) :
    List (RunEvent X M) → Prop
  | ended (c : Case) (events : List (RunEvent X M)) (result : RunResult)
      (hs : Story config loads view host c events result) : Over config loads view host events
  | givenUp (r : EntryRun X) (events : List (RunEvent X M)) (hn : Names r.view r.id)
      (hs : Stage config loads r events) (hv : r.view = view) (hh : r.host = host) :
      Over config loads view host (events ++ [.givenUp])

section Parts

variable {config : Config} {loads loads' : Loads X} {view host : HostView} {r : EntryRun X}
  {events : List (RunEvent X M)} {c : Case} {result : RunResult}

theorem grants (mode : EntryMode) (view host : HostView) :
    Grants view host mode (mode.argument view host) := by
  cases mode with
  | raw => exact .raw
  | curated => exact .curated
  | bare => exact .bare

theorem closing_ends (id : ModuleId) (ended : Except EngineFailure Unit) :
    EndsWith id ended (Dispatch.closing id ended) := by
  cases ended with
  | ok _ => exact .succeeded
  | error failure =>
    obtain ⟨message, cause⟩ := failure
    cases cause with
    | none => exact .failed message
    | some cause => exact .caused message cause

theorem opening_cases (config : Config) (view : HostView) :
    (view.args.length < 2 ∧ Dispatch.opening config view = .usage config.usage) ∨
    (∃ target failure, view.args[1]? = some target ∧
      ModuleId.resolveFilePath target view.cwd = .error failure ∧
      Dispatch.opening config view = .ended (.error failure)) ∨
    ∃ id, Names view id ∧ Dispatch.opening config view = .load id := by
  unfold Dispatch.opening
  cases ht : view.args[1]? with
  | none =>
    have hl : view.args.length ≤ 1 := List.getElem?_eq_none_iff.mp ht
    exact .inl ⟨by omega, rfl⟩
  | some target =>
    cases hf : ModuleId.resolveFilePath target view.cwd with
    | error failure => exact .inr (.inl ⟨target, failure, rfl, hf, by simp [hf]⟩)
    | ok id => exact .inr (.inr ⟨id, ⟨target, ht, hf⟩, by simp [hf]⟩)

theorem Stage.mono (h : Stage config loads r events)
    (hm : ∀ event ∈ loads.history, event ∈ loads'.history) : Stage config loads' r events := by
  cases h with
  | loading call hp hc => exact .loading call hp (hm _ hc)
  | loaded call outcome hp hc hr => exact .loaded call outcome hp (hm _ hc) (hm _ hr)
  | calling call exports argument main hp hc hr hg =>
    exact .calling call exports argument main hp (hm _ hc) (hm _ hr) hg

theorem Story.mono (h : Story config loads view host c events result)
    (hm : ∀ event ∈ loads.history, event ∈ loads'.history) :
    Story config loads' view host c events result := by
  cases h with
  | usage ha => exact .usage ha
  | unresolved target failure ha hf => exact .unresolved target failure ha hf
  | unloaded id call failure hn hc hr => exact .unloaded id call failure hn (hm _ hc) (hm _ hr)
  | mainless id call exports argument hn hc hr hg =>
    exact .mainless id call exports argument hn (hm _ hc) (hm _ hr) hg
  | called id call exports argument main ended result hn hc hr hg he =>
    exact .called id call exports argument main ended result hn (hm _ hc) (hm _ hr) hg he

theorem Over.mono (h : Over config loads view host events)
    (hm : ∀ event ∈ loads.history, event ∈ loads'.history) :
    Over config loads' view host events := by
  cases h with
  | ended c events result hs => exact .ended c _ result (hs.mono hm)
  | givenUp r events hn hs hv hh => exact .givenUp r events hn (hs.mono hm) hv hh

/-- No run tells two stories. -/
theorem Story.unique {c' : Case} {result' : RunResult}
    (h : Story config loads view host c events result)
    (h' : Story config loads view host c' events result') : c' = c ∧ result' = result := by
  cases h <;> cases h' <;> exact ⟨rfl, rfl⟩

theorem Stage.began (h : Stage config loads r events) (hm : .began view host ∈ events) :
    r.view = view ∧ r.host = host := by
  cases h <;> simp at hm <;> exact ⟨hm.1.symm, hm.2.symm⟩

theorem awaits_iff {call : CallId} : awaits call r ↔ r.phase = .loading call := by
  unfold awaits
  cases r.phase <;> simp

theorem Stage.receive {call : CallId} {outcome : LoadResult X}
    (h : Stage config loads r events) (ha : awaits call r)
    (hr : .returned call outcome ∈ loads.history) :
    Stage config loads (receive call outcome r) (events ++ [.loaded outcome]) := by
  have hp : r.phase = .loading call := awaits_iff.mp ha
  rw [Dispatcher.receive, if_pos ha]
  cases h with
  | loading call' hp' hc =>
    rw [hp] at hp'
    cases hp'
    exact .loaded call outcome rfl hc hr
  | loaded _ _ hp' | calling _ _ _ _ hp' =>
    rw [hp] at hp'
    cases hp'

theorem Stage.of_loaded {outcome : LoadResult X} (h : Stage config loads r events)
    (hp : r.phase = .loaded outcome) : ∃ call, .called call r.id ∈ loads.history ∧
      .returned call outcome ∈ loads.history ∧
      events = [.began r.view r.host, .asked r.id call, .loaded outcome] := by
  cases h with
  | loaded call outcome' hp' hc hr =>
    rw [hp] at hp'
    cases hp'
    exact ⟨call, hc, hr, rfl⟩
  | loading _ hp' | calling _ _ _ _ hp' =>
    rw [hp] at hp'
    cases hp'

theorem Stage.of_calling (h : Stage config loads r events) (hp : r.phase = .calling) :
    ∃ call exports argument main, .called call r.id ∈ loads.history ∧
      .returned call (.ok exports) ∈ loads.history ∧
      Grants r.view r.host config.entryMode argument ∧
      events = [.began r.view r.host, .asked r.id call, .loaded (.ok exports),
        .invoked exports argument (some main)] := by
  cases h with
  | calling call exports argument main hp' hc hr hg =>
    exact ⟨call, exports, argument, main, hc, hr, hg, rfl⟩
  | loading _ hp' | loaded _ _ hp' =>
    rw [hp] at hp'
    cases hp'

theorem Stage.unended (h : Stage config loads r events) : events.findSome? resultIn = none := by
  cases h <;> rfl

theorem Story.ends (h : Story config loads view host c events result) :
    events.findSome? resultIn = some result := by
  cases h <;> rfl

end Parts

end ScriptHost.Dispatcher
