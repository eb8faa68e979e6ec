import ScriptHost.Proofs.Engine.Step

/-!
# Steps of the host object

The functions of the host check their arguments, which may make errors, and then
do at most one thing to the host. Until then they only give out references, so
a function that throws has done nothing else.
-/

set_option autoImplicit false

namespace ScriptHost.Engine

variable {context : Context} {α : Type} {R : State → State → Prop}

class Issues (R : State → State → Prop) : Prop where
  next (s : State) : R s { s with issued := s.issued + 1 }

instance [Covers R] : Issues R :=
  ⟨fun _ => Covers.quiet (.inner _ _ _ _ _ (Nat.le_succ _)) ⟨rfl, rfl⟩⟩

section Issues

variable [Issues R]

theorem walks_issue : WalksBy R issue := walks_modifyGet Issues.next

theorem walks_errorValue {class_ message : String} {trace code : Option String} :
    WalksBy R (errorValue class_ message trace code) :=
  walks_bind walks_issue fun _ => walks_pure _

section Throws

variable {class_ message : String}

theorem walks_throwNew : WalksBy R (throwNew context class_ message : Run α) :=
  walks_bind walks_errorValue fun _ => walks_throw _

theorem walks_throwType : WalksBy R (throwType context message : Run α) := walks_throwNew

theorem walks_throwReference : WalksBy R (throwReference context message : Run α) := walks_throwNew

theorem walks_throwFailure : WalksBy R (throwFailure context message : Run α) := walks_throwNew

end Throws

theorem walks_theArgument : WalksBy R (theArgument context) := by
  unfold theArgument
  split
  · exact walks_pure _
  · exact walks_throwReference

theorem walks_hostProperty {name : String} : WalksBy R (hostProperty context name) := by
  refine walks_bind walks_theArgument fun argument => ?_
  split
  · exact walks_throwType
  · exact walks_pure _

theorem walks_hasProperty {name : String} : WalksBy R (hasProperty context name) := by
  refine walks_bind walks_theArgument fun argument => ?_
  split
  · exact walks_pure _
  · split <;> exact walks_pure _

theorem walks_wrongKind {value : Value} {wanted : String} :
    WalksBy R (wrongKind context value wanted : Run α) := walks_throwType

theorem walks_textOf {value : Value} : WalksBy R (textOf context value) := by
  unfold textOf
  split
  · exact walks_pure _
  · exact walks_wrongKind

theorem walks_argumentOf {kind : Kind} {value : Value} :
    WalksBy R (argumentOf context kind value) := by
  unfold argumentOf
  split
  · exact walks_pure _
  · exact walks_bind walks_textOf fun _ => walks_pure _
  · split
    · exact walks_pure _
    · exact walks_wrongKind
  · exact walks_bind (walks_mapM (fun _ => walks_textOf) _) fun _ => walks_pure _
  · exact walks_wrongKind
  · exact walks_pure _
  · exact walks_wrongKind

theorem walks_argumentsOf (kinds : List Kind) :
    ∀ values, WalksBy R (argumentsOf context kinds values) := by
  induction kinds with
  | nil => exact fun _ => walks_pure _
  | cons kind kinds ih =>
    intro values
    cases values with
    | nil => exact walks_pure _
    | cons value values =>
      exact walks_bind walks_argumentOf fun _ => walks_bind (ih values) fun _ => walks_pure _

theorem walks_valueText {value : Value} : WalksBy R (valueText context value) := by
  unfold valueText
  split
  · exact walks_pure _
  · exact walks_throwType

theorem walks_orThrow {result : LoadResult α} : WalksBy R (orThrow context result) := by
  unfold orThrow
  split
  · exact walks_pure _
  · exact walks_throwFailure

theorem walks_orThrowHost {result : HostResult α} : WalksBy R (orThrowHost context result) := by
  unfold orThrowHost
  split
  · exact walks_pure _
  · exact walks_throwFailure

theorem walks_resolveUrl {specifier base : String} :
    WalksBy R (resolveUrl context specifier base) :=
  walks_bind walks_orThrow fun _ => walks_pure _

theorem walks_resolvePath {path base : String} : WalksBy R (resolvePath context path base) :=
  walks_bind walks_orThrow fun _ => walks_pure _

theorem walks_readSource {url : String} : WalksBy R (readSource context url) :=
  walks_bind walks_orThrow fun _ => walks_get fun _ =>
    walks_bind walks_orThrowHost (fun _ => walks_pure _) _

end Issues

variable [Covers R]

theorem walks_newCell {value : Option Value} : WalksBy R (newCell value) :=
  walks_modifyGet fun _ => Covers.quiet (.inner _ _ _ _ _ (Nat.le_refl _)) ⟨rfl, rfl⟩

theorem walks_writeCell {cell : Cell} {value : Value} : WalksBy R (writeCell cell value) :=
  walks_modify fun _ => Covers.quiet (.inner _ _ _ _ _ (Nat.le_refl _)) ⟨rfl, rfl⟩

omit [Covers R] in
theorem walks_cell? {cell : Cell} : WalksBy R (cell? cell) := fun _ => .refl

theorem walks_enqueue {job : Job} : WalksBy R (enqueue job) :=
  walks_modify fun _ => Covers.quiet (.inner _ _ _ _ _ (Nat.le_refl _)) ⟨rfl, rfl⟩

theorem walks_note {entry : Entry} : WalksBy R (note entry) := 
  walks_modify fun _ => Covers.quiet (.noted entry) ⟨rfl, rfl⟩

omit [Covers R] in
theorem walks_instance? {key : Nat} : WalksBy R (instance? key) := fun _ => .refl

theorem walks_changeInstance {key : Nat} {change : Instance → Instance} :
    Walks (changeInstance key change) :=
  walks_modify fun _ => .inner _ _ _ _ _ (Nat.le_refl _)

theorem walks_changeInside {key : Nat} {change : Instance → Instance}
    (h : ∀ i, (change i).standing = i.standing) : WalksBy R (changeInstance key change) := by
  refine walks_modify fun s => Covers.quiet (.inner _ _ _ _ _ (Nat.le_refl _)) ⟨?_, rfl⟩
  rw [List.map_map]
  refine List.map_congr_left fun i _ => ?_
  rw [Function.comp_apply]
  split
  · exact h i
  · rfl

omit [Covers R] in
theorem walks_stageOf {key : Nat} : WalksBy R (stageOf key) := by
  refine walks_bind walks_instance? fun found => ?_
  cases found with
  | some i => exact walks_pure _
  | none => exact walks_pure _

theorem walks_setStage {key : Nat} {stage : Stage} : Walks (setStage key stage) :=
  walks_changeInstance

theorem walks_settlePromise {promise : Nat} {result : Except Value Value} :
    WalksBy R (settlePromise promise result) := by
  refine walks_get fun s => ?_
  split
  · exact walks_from_pure ()
  · exact .single (Covers.quiet (.inner _ _ _ _ _ (Nat.le_refl _)) ⟨rfl, rfl⟩)

section Primitives

theorem walks_writeText {text : String} : WalksBy R (writeText text) := by
  refine walks_get fun s => walks_from_set (Covers.quiet (.wrote text) ⟨rfl, rfl⟩) ?_
  split
  · exact walks_note _
  · exact walks_from_pure ()

theorem walks_startTimer {delay interval : Float} {f : Callable} :
    WalksBy R (startTimer delay interval f) :=
  walks_get fun _ => walks_from_set (Covers.quiet (.timerStarted _ _ f) ⟨rfl, rfl⟩) (walks_from_pure _)

theorem walks_stopTimer {handle : Float} : WalksBy R (stopTimer handle) :=
  walks_bind (walks_modify fun _ => Covers.quiet (.timerStopped _) ⟨rfl, rfl⟩) fun _ => walks_pure _

def Primitive.KeepsTimers (primitive : Primitive) : Prop :=
  ∀ host key value host' answer?, primitive host key = .ok (value, host', answer?) →
    host'.timers = host.timers

theorem openDirectory_timers (host : NativeHost Nat) (id : ModuleId) (key : Nat) :
    (host.openDirectory id key).1.timers = host.timers := by
  unfold NativeHost.openDirectory
  split <;> rfl

theorem readDirectory_timers (host : NativeHost Nat) (handle count key : Nat) :
    (host.readDirectory handle count key).1.timers = host.timers := by
  unfold NativeHost.readDirectory
  simp only
  split <;> rfl

theorem spawn_timers (host : NativeHost Nat) (system : SystemStart) (command : String)
    (args : List String) (key : Nat) :
    (host.spawn system command args key).1.timers = host.timers := by
  unfold NativeHost.spawn
  split <;> rfl

variable {f : Callable} {primitive : Primitive}

theorem attend_run (context : Context) (f : Callable) (primitive : Primitive) (s : State) :
    (∃ failure, primitive s.host (s.issued + 1) = .error failure ∧
      (attend context f primitive).run s =
        (throwFailure context failure.message).run { s with issued := s.issued + 1 }) ∨
    (∃ value host, primitive s.host (s.issued + 1) = .ok (value, host, none) ∧
      (attend context f primitive).run s = .ok value (s.withKept host f)) ∨
    ∃ value host answer, primitive s.host (s.issued + 1) = .ok (value, host, some answer) ∧
      (attend context f primitive).run s = .ok value (s.withInstant host f answer) := by
  have h : (attend context f primitive).run s =
      (attend context f fun _ _ => primitive s.host (s.issued + 1)).run s := rfl
  rw [h]
  cases hp : primitive s.host (s.issued + 1) with
  | error failure => exact .inl ⟨failure, rfl, rfl⟩
  | ok started =>
    obtain ⟨value, host, answer?⟩ := started
    cases answer? with
    | none => exact .inr (.inl ⟨value, host, rfl, rfl⟩)
    | some answer => exact .inr (.inr ⟨value, host, answer, rfl, rfl⟩)

theorem walks_attend (h : primitive.KeepsTimers) : WalksBy R (attend context f primitive) := by
  intro s
  unfold WalksFrom
  obtain ⟨failure, hp, hr⟩ | ⟨value, host, hp, hr⟩ | ⟨value, host, answer, hp, hr⟩ :=
    attend_run context f primitive s
  · rw [hr]
    exact .head (Issues.next s) (walks_throwFailure _)
  · rw [hr]
    exact .single (Covers.quiet (.accepted host f (h _ _ _ _ _ hp)) ⟨rfl, rfl⟩)
  · rw [hr]
    exact .single (Covers.quiet (.settled host f answer (h _ _ _ _ _ hp)) ⟨rfl, rfl⟩)

theorem walks_openDirectory {url : String} : WalksBy R (openDirectory context url f) := by
  refine walks_bind walks_orThrow fun id => walks_attend ?_
  intro host key value host' answer? h
  rw [← openDirectory_timers host id key, (Prod.mk.inj (Except.ok.inj h)).2]

theorem walks_readDirectory {handle count : Float} :
    WalksBy R (readDirectory context handle count f) := by
  refine walks_attend ?_
  intro host key value host' answer? h
  rw [← readDirectory_timers host _ _ key, (Prod.mk.inj (Except.ok.inj h)).2]

theorem walks_closeDirectory {handle : Float} : WalksBy R (closeDirectory context handle f) := by
  refine walks_attend ?_
  intro host key value host' answer? h
  cases h
  rfl

theorem walks_spawn {command : String} {args : List String} :
    WalksBy R (spawn context command args f) := by
  refine walks_get fun s => walks_attend ?_ s
  intro host key value host' answer? h
  rw [← spawn_timers host s.system command args key]
  cases hs : (host.spawn s.system command args key).2 with
  | error failure => simp [hs, Except.map] at h
  | ok _ =>
    simp only [hs, Except.map, Except.ok.injEq, Prod.mk.injEq] at h
    rw [h.2.1]

theorem walks_performHost {name : String} {args : List Argument} :
    WalksBy R (performHost context name args) := by
  unfold performHost
  split
  · exact walks_bind walks_valueText fun _ => walks_bind walks_writeText fun _ => walks_pure _
  · exact walks_resolveUrl
  · exact walks_resolvePath
  · exact walks_readSource
  · exact walks_startTimer
  · exact walks_stopTimer
  · exact walks_openDirectory
  · exact walks_readDirectory
  · exact walks_closeDirectory
  · exact walks_spawn
  · exact walks_pure _

end Primitives

theorem walks_callHost {name : String} {args : List Value} :
    WalksBy R (callHost context name args) := by
  unfold callHost
  refine walks_ite (walks_bind walks_throwType fun _ => ?_) ?_
  all_goals exact walks_bind (walks_argumentsOf _ args) fun _ => walks_performHost

theorem walks_callOnArgument {name : String} {args : List Value} :
    WalksBy R (callOnArgument context name args) := by
  refine walks_bind walks_theArgument fun argument => ?_
  split
  all_goals first
    | exact walks_pure _
    | exact walks_bind walks_valueText fun _ => walks_pure _

theorem walks_callValue {value : Value} {args : List Value} :
    WalksBy R (callValue context value args) := by
  unfold callValue
  split
  · exact walks_callHost
  · exact walks_callOnArgument
  · exact walks_throwType

end ScriptHost.Engine
