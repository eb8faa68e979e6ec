import Mathlib.Data.List.Forall2
import Mathlib.Logic.Relation
import ScriptHost.Engine.Runs

/-!
# Steps of an engine

Everything that code of an engine does to the state is a row of the code steps
below, and what the event loop around it does is a row of the steps. What holds
of every step holds of all code, so a property of runs is proved for each kind
of step once and nothing else is opened for it.
-/

set_option autoImplicit false

namespace ScriptHost.Engine

/-- A complaint about an import has its name after at most so many bytes. -/
def longestOpening : Nat := 24

def Names (complaint name : String) : Prop :=
  ∃ before after, complaint = before ++ name ++ after ∧
    (Utf8.encodeString before).length ≤ longestOpening

/-- The error that is thrown for a failed import. -/
def importError (ref : Nat) (complaint : String) (failure : LoadFailure) : Value :=
  .error ref ⟨"ReferenceError", cut s!"{complaint}: {failure.message}", none, some Value.noTrace⟩

def State.afterFailedImport (s : State) (name complaint : String) (failure : LoadFailure) : State :=
  { s with
    failure := some ⟨name, failure⟩
    issued := s.issued + 1
    trail := s.trail ++
      [.importFailed ⟨name, failure⟩ (importError (s.issued + 1) complaint failure)] }

def failureIn? : HostAnswer → Option HostFailure
  | .opened (.error failure) | .read (.error failure) | .closed (.error failure)
  | .exited (.error failure) => some failure
  | _ => none

/-- Objects inherit a setter by a name. -/
def State.Takes (s : State) (name : String) : Prop := (s.setters.lookup name).isSome

/-- What is left of properties that were set: all but some that setters took. -/
def Sets {α : Type} (takes : String → Prop) (properties : List (String × α))
    (kept : List (Option (String × α))) : Prop :=
  List.Forall₂ (fun property left => left = some property ∨ left = none ∧ takes property.1)
    properties kept

/-- The arguments that show an answer to a callback: nothing and the result, or the failure as an
error and nothing. The properties of new objects may have been taken by setters. -/
inductive Shows (takes : String → Prop) : HostAnswer → List Value → Prop
  | failed {answer : HostAnswer} {failure : HostFailure} (ref : Nat) (code : Option String)
      (h : failureIn? answer = some failure)
      (hc : code = failureCode? failure ∨ code = none ∧ takes codeName) :
      Shows takes answer [.error ref ⟨"Error", failure.message, code, none⟩, .undefined]
  | opened (handle : Nat) : Shows takes (.opened (.ok handle)) [.null, .float (Float.ofNat handle)]
  | read (ref : Nat) (names : List String) (kept : List (Option (String × String)))
      (h : Sets takes (indexed names) kept) : Shows takes (.read (.ok names))
        [.null, .array ref (places ((itemsOf kept).map (·.map .string)))]
  | closed : Shows takes (.closed (.ok ())) [.null, .undefined]
  | exited (ref : Nat) (exit : ChildExit) (kept : List (Option (String × Value)))
      (h : Sets takes (exitProperties exit) kept) :
      Shows takes (.exited (.ok exit)) [.null, .object ref kept.reduceOption]

/-- The names that are set to show an answer. -/
def namesSet : HostAnswer → List String
  | .read (.ok names) => (indexed names).map (·.1)
  | .exited (.ok exit) => (exitProperties exit).map (·.1)
  | .opened (.error failure) | .read (.error failure) | .closed (.error failure)
  | .exited (.error failure) => (failureProperties failure).map (·.1)
  | _ => []

/-- What a callback may be called with. -/
inductive Suits (takes : String → Prop) : Option HostAnswer → List Value → Prop
  | fire : Suits takes none []
  | answer {answer : HostAnswer} {args : List Value} (h : Shows takes answer args) :
      Suits takes (some answer) args

def State.withKept (s : State) (host : NativeHost Nat) (f : Callable) : State :=
  { s with
    issued := s.issued + 1
    host
    callbacks := (s.issued + 1, f) :: s.callbacks
    history := .accepted (s.issued + 1) f :: s.history }

def State.withInstant (s : State) (host : NativeHost Nat) (f : Callable) (answer : HostAnswer) :
    State :=
  { s with
    issued := s.issued + 1
    host
    history := .accepted (s.issued + 1) f :: s.history }.withAnswer (s.issued + 1) f answer

/-- What the code of a program does. It calls no callback that waits to be called. -/
inductive CodeStep (s : State) : State → Prop
  /-- Variables, references, instances, threads and jobs, which the other parts do not see. -/
  | inner (cells : Array (Option Value)) (issued : Nat) (instances : List Instance)
      (threads : List (Nat × Thread)) (jobs : List Job) (h : s.issued ≤ issued) :
      CodeStep s { s with cells, issued, instances, threads, jobs }
  | importFailed (name complaint : String) (failure : LoadFailure) (h : Names complaint name) :
      CodeStep s (s.afterFailedImport name complaint failure)
  | setterAdded (name : String) (setter : Callable) (h : s.setters.lookup name = none) :
      CodeStep s { s with setters := (name, setter) :: s.setters }
  | told (event : ModuleEvent) : CodeStep s { s with moduleEvents := s.moduleEvents ++ [event] }
  | noted (entry : Entry) : CodeStep s { s with log := s.log ++ [entry] }
  | mainEnded (ended : Option (Except Value Unit)) : CodeStep s { s with ended }
  | wrote (text : String) : CodeStep s { s with host := s.host.write text }
  | timerStarted (delay interval : Nat) (f : Callable) : CodeStep s (s.withTimer delay interval f)
  | timerStopped (handle : Nat) : CodeStep s (s.withoutTimer handle)
  /-- A primitive accepts a callback and answers in its own time. -/
  | accepted (host : NativeHost Nat) (f : Callable) (h : host.timers = s.host.timers) :
      CodeStep s (s.withKept host f)
  /-- A primitive accepts a callback and answers at once. -/
  | settled (host : NativeHost Nat) (f : Callable) (answer : HostAnswer)
      (h : host.timers = s.host.timers) :
      CodeStep s (s.withInstant host f answer)

/-- What an engine does: it runs code, lets its host take a turn, calls a callback or gives the call
up, or lets time pass. -/
inductive Step (s : State) : State → Prop
  | code {s' : State} (h : CodeStep s s') : Step s s'
  | answered (host : NativeHost Nat) (key : Nat) (f : Callable) (answer : HostAnswer)
      (h : s.host.turn? s.sources.files = some (host, some (.answered key answer)))
      (hf : s.callbacks.lookup key = some f) :
      Step s ({ s with host, callbacks := s.callbacks.filter (·.1 ≠ key) }.withAnswer key f answer)
  | fired (host : NativeHost Nat) (timer : Nat)
      (h : s.host.turn? s.sources.files = some (host, some (.fired timer))) :
      Step s ({ s with host }.withFire timer)
  /-- The host does something that no callback waits for. -/
  | hostTurned (host : NativeHost Nat) (event : Option (HostEvent Nat))
      (h : s.host.turn? s.sources.files = some (host, event))
      (hn : ∀ timer, event ≠ some (.fired timer)) : Step s { s with host }
  | called (source : CallbackSource) (f : Callable) (answer? : Option HostAnswer)
      (args : List Value) (woken : List Waking) (h : s.woken = (source, f, answer?) :: woken)
      (ha : Suits s.Takes answer? args) : Step s (s.afterNext (.called source f args))
  /-- Making the arguments of a call threw a value, as a setter did. -/
  | givenUp (source : CallbackSource) (f : Callable) (answer : HostAnswer) (value : Value)
      (woken : List Waking) (h : s.woken = (source, f, some answer) :: woken)
      (ht : ∃ name ∈ namesSet answer, s.Takes name) :
      Step s (s.afterNext (.givenUp source value))
  | timePassed (deadline : Nat) (h : s.host.schedule.earliest? = some deadline) :
      Step s { s with host := { s.host with schedule := s.host.schedule.wakeAt deadline } }

/-- What an instance is, what it imports and how far its evaluation came. Its variables and those
that wait for it are left out. -/
structure Standing where
  key : Nat
  name : String
  wanted : List Import
  imports : List Nat
  stage : Stage

def Instance.standing (i : Instance) : Standing :=
  ⟨i.key, i.name, i.program.imports, i.imports, i.stage⟩

/-- No instance came or went or got on with its evaluation, and nothing is told of modules. -/
structure SameModules (s s' : State) : Prop where
  instances : s'.instances.map Instance.standing = s.instances.map Instance.standing
  events : s'.moduleEvents = s.moduleEvents

/-- The kinds of steps among which are all of code that leaves modules as they are. -/
class Covers (R : State → State → Prop) : Prop where
  quiet {s s' : State} (h : CodeStep s s') (hm : SameModules s s') : R s s'

instance : Covers CodeStep := ⟨fun h _ => h⟩

def left {α : Type} : EStateM.Result Value State α → State
  | .ok _ s => s
  | .error _ s => s

section Walks

variable {α β : Type} {R : State → State → Prop} {s : State}

/-- In this state the code does nothing but steps of a kind. -/
def WalksFrom (R : State → State → Prop) (s : State) (code : Run α) : Prop :=
  Relation.ReflTransGen R s (left (code.run s))

/-- The code does nothing but steps of a kind. -/
def WalksBy (R : State → State → Prop) (code : Run α) : Prop := ∀ s, WalksFrom R s code

abbrev Walks (code : Run α) : Prop := WalksBy CodeStep code

/-- What the event loop does. -/
abbrev Turns (code : Run α) : Prop := WalksBy Step code

theorem walks_from_pure (a : α) : WalksFrom R s (pure a) := .refl

theorem walks_from_throw (value : Value) : WalksFrom R s (throw value : Run α) := .refl

theorem bind_run (code : Run α) (next : α → Run β) : (code >>= next).run s = match code.run s with
    | .ok a s' => (next a).run s'
    | .error value s' => .error value s' := by
  unfold EStateM.run
  cases hc : code s <;> simp [Bind.bind, EStateM.bind, hc]

theorem exists_of_bind {code : Run α} {next : α → Run β} {b : β} {s' : State}
    (h : (code >>= next).run s = .ok b s') :
    ∃ a t, code.run s = .ok a t ∧ (next a).run t = .ok b s' := by
  rw [bind_run] at h
  cases hc : code.run s with
  | ok a t =>
    rw [hc] at h
    exact ⟨a, t, rfl, h⟩
  | error value t =>
    rw [hc] at h
    cases h

theorem error_of_bind {code : Run α} {next : α → Run β} {value : Value} {s' : State}
    (h : (code >>= next).run s = .error value s') : code.run s = .error value s' ∨
      ∃ a t, code.run s = .ok a t ∧ (next a).run t = .error value s' := by
  rw [bind_run] at h
  cases hc : code.run s with
  | ok a t =>
    rw [hc] at h
    exact .inr ⟨a, t, rfl, h⟩
  | error thrown t =>
    rw [hc] at h
    cases h
    exact .inl rfl

theorem run_get (next : State → Run β) : (get >>= next).run s = (next s).run s := rfl

theorem walks_from_bind {code : Run α} {next : α → Run β} (h : WalksFrom R s code)
    (hn : ∀ a s', WalksFrom R s' (next a)) : WalksFrom R s (code >>= next) := by
  unfold WalksFrom at *
  rw [bind_run]
  cases hc : code.run s with
  | ok a s' =>
    rw [hc] at h
    exact h.trans (hn a s')
  | error value s' =>
    rw [hc] at h
    exact h

theorem walks_from_get {next : State → Run β} (h : WalksFrom R s (next s)) :
    WalksFrom R s (get >>= next) := h

/-- A change of the state that is a step, with what follows. -/
theorem walks_from_set {s' : State} {next : Unit → Run β} (h : R s s')
    (hn : WalksFrom R s' (next ())) : WalksFrom R s (set s' >>= next) :=
  Relation.ReflTransGen.head h hn

theorem walks_pure (a : α) : WalksBy R (pure a) := fun _ => walks_from_pure a

theorem walks_throw (value : Value) : WalksBy R (throw value : Run α) :=
  fun _ => walks_from_throw value

theorem walks_bind {code : Run α} {next : α → Run β} (h : WalksBy R code)
    (hn : ∀ a, WalksBy R (next a)) : WalksBy R (code >>= next) :=
  fun s => walks_from_bind (h s) fun a s' => hn a s'

theorem walks_get {next : State → Run β} (h : ∀ s, WalksFrom R s (next s)) :
    WalksBy R (get >>= next) := h

theorem walks_modify {f : State → State} (h : ∀ s, R s (f s)) : WalksBy R (modify f) :=
  fun s => .single (h s)

theorem walks_modifyGet {f : State → α × State} (h : ∀ s, R s (f s).2) : WalksBy R (modifyGet f) :=
  fun s => .single (h s)

theorem walks_ite {c : Prop} [Decidable c] {yes no : Run α}
    (h : WalksBy R yes) (hn : WalksBy R no) :
    WalksBy R (if c then yes else no) := by
  split
  · exact h
  · exact hn

theorem tryCatch_run (code : Run α) (handler : Value → Run α) :
    (tryCatch code handler).run s = match code.run s with
      | .ok a s' => .ok a s'
      | .error value s' => (handler value).run s' := by
  change (EStateM.tryCatch code handler).run s = _
  delta EStateM.tryCatch EStateM.run
  dsimp only
  cases code s <;> rfl

theorem attempted_run (code : Run α) : (attempted code).run s = match code.run s with
    | .ok a s' => .ok (.ok a) s'
    | .error value s' => .ok (.error value) s' := by
  rw [attempted, tryCatch_run, bind_run]
  cases code.run s <;> rfl

theorem walks_attempted {code : Run α} (h : WalksBy R code) : WalksBy R (attempted code) := by
  intro s
  have hs := h s
  unfold WalksFrom at *
  rw [attempted_run]
  cases hc : code.run s with
  | ok a s' =>
    rw [hc] at hs
    exact hs
  | error value s' =>
    rw [hc] at hs
    exact hs

theorem walks_forM {f : α → Run Unit} (h : ∀ a, WalksBy R (f a)) (items : List α) :
    WalksBy R (items.forM f) := by
  induction items with
  | nil => exact walks_pure ()
  | cons a rest ih =>
    exact walks_bind (h a) fun _ => ih

theorem walks_mapM {f : α → Run β} (h : ∀ a, WalksBy R (f a)) (items : List α) :
    WalksBy R (items.mapM f) := by
  induction items with
  | nil => exact walks_pure []
  | cons a rest ih =>
    rw [List.mapM_cons]
    exact walks_bind (h a) fun _ => walks_bind ih fun _ => walks_pure _

theorem turns_code {code : Run α} (h : Walks code) : Turns code :=
  fun s => Relation.ReflTransGen.mono (fun _ _ => Step.code) _ _ (h s)

/-- What every step keeps is kept by all code. -/
theorem walks_keep {P : State → Prop} {code : Run α} (step : ∀ {s s'}, R s s' → P s → P s')
    (hw : WalksBy R code) (h : P s) : P (left (code.run s)) := by
  have hs : Relation.ReflTransGen R s (left (code.run s)) := hw s
  generalize left (code.run s) = s' at hs
  induction hs with
  | refl => exact h
  | tail _ hr ih => exact step hr ih

end Walks

end ScriptHost.Engine
