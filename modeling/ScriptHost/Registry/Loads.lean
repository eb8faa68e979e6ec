import ScriptHost.Registry.Basic

/-!
# Loads under way

A registry at work. Calls load modules, through any handle of the registry, and
may be given up while they wait. The first call of an identifier starts a task,
which begins, has the source fetched and evaluated, and settles the record. A
step is one turn of a caller, of a task or of the queue, and any step may follow
any other: a fetch and an evaluation may be suspended any number of times and
bring any result. A call that was sent an outcome goes to the end of the queue,
and calls resume from its front.
-/

set_option autoImplicit false

namespace ScriptHost

abbrev CallId := Nat

/-- How far the task of a load came. -/
inductive Phase where
  | spawned
  | fetching
  | evaluating
  deriving DecidableEq, Repr

structure LoadTask where
  id : ModuleId
  phase : Phase
  deriving DecidableEq, Repr

/-- A call that waits, with the outcome that was sent to it and not taken yet. -/
structure Call (X : Type) where
  id : ModuleId
  delivered : Option (LoadResult X)

inductive LoadEvent (X : Type) where
  | called (call : CallId) (id : ModuleId)
  | attached (call : CallId) (id : ModuleId)
  | refused (specifier : String) (failure : LoadFailure)
  | fetchStarted (id : ModuleId)
  | fetchEnded (id : ModuleId) (result : LoadResult String)
  | evaluationStarted (id : ModuleId) (source : String)
  | evaluationEnded (id : ModuleId) (result : Except EngineFailure X)
  | sent (call : CallId) (id : ModuleId) (outcome : LoadResult X)
  | returned (call : CallId) (outcome : LoadResult X)
  | aborted (call : CallId)
  | givenUp (call : CallId)
  | invalidated (id : ModuleId) (isDropped : Bool)

abbrev History (X : Type) := List (LoadEvent X)

/-- A turn. A task goes by the number of the call that started it. -/
inductive LoadStep (X : Type) where
  | load (id : ModuleId)
  | loadSpecifier (specifier : String) (base : ModuleId)
  | invalidate (id : ModuleId)
  | giveUp (call : CallId)
  | begin (task : CallId)
  | suspend (task : CallId)
  | endFetch (task : CallId) (result : LoadResult String)
  | endEvaluation (task : CallId) (result : Except EngineFailure X)
  | resume
  | abort (call : CallId)

structure Loads (X : Type) where
  registry : Registry X CallId
  tasks : List (CallId × LoadTask)
  calls : List (CallId × Call X)
  /-- The calls that were sent an outcome and have not resumed. -/
  queue : List CallId
  issued : CallId
  history : History X

namespace Loads

variable {X : Type}

def start : Loads X := ⟨.empty, [], [], [], 0, []⟩

def note (s : Loads X) (events : History X) : Loads X :=
  { s with history := s.history ++ events }

def task? (s : Loads X) (t : CallId) : Option LoadTask := s.tasks.lookup t

def tasksOf (s : Loads X) (id : ModuleId) : List (CallId × LoadTask) :=
  s.tasks.filter (·.2.id = id)

def call? (s : Loads X) (c : CallId) : Option (Call X) := s.calls.lookup c

def attach (s : Loads X) (registry : Registry X CallId) (id : ModuleId) : Loads X :=
  { s with
    registry, issued := s.issued + 1
    calls := s.calls ++ [(s.issued, ⟨id, none⟩)]
    history := s.history ++ [.called s.issued id, .attached s.issued id] }

def spawn (s : Loads X) (t : CallId) (id : ModuleId) : Loads X :=
  { s with tasks := s.tasks ++ [(t, ⟨id, .spawned⟩)] }

def load (s : Loads X) (id : ModuleId) : Loads X :=
  match s.registry.load id s.issued with
  | (_, .settled outcome) =>
    { s with
      issued := s.issued + 1
      history := s.history ++ [.called s.issued id, .returned s.issued outcome] }
  | (registry, .joined) => s.attach registry id
  | (registry, .first) => (s.attach registry id).spawn s.issued id

def loadSpecifier (s : Loads X) (specifier : String) (base : ModuleId) : Loads X :=
  match ModuleId.resolve specifier base with
  | .error failure => s.note [.refused specifier failure]
  | .ok id => s.load id

def invalidate (s : Loads X) (id : ModuleId) : Loads X :=
  let (registry, isDropped) := s.registry.invalidate id
  { s with registry }.note [.invalidated id isDropped]

def removeCall (s : Loads X) (c : CallId) : Loads X :=
  { s with calls := s.calls.filter (·.1 ≠ c) }

def giveUp (s : Loads X) (c : CallId) : Option (Loads X) :=
  match s.call? c with
  | some _ => some ((s.removeCall c).note [.givenUp c])
  | none => none

def enterPhase (phase : Phase) (t : CallId) (tasks : List (CallId × LoadTask)) :
    List (CallId × LoadTask) :=
  tasks.map fun (n, task) => if n = t then (n, { task with phase }) else (n, task)

def begin (s : Loads X) (t : CallId) : Option (Loads X) :=
  match s.task? t with
  | some ⟨id, .spawned⟩ =>
    some ({ s with
      registry := s.registry.begin id
      tasks := enterPhase .fetching t s.tasks }.note [.fetchStarted id])
  | _ => none

def suspend (s : Loads X) (t : CallId) : Option (Loads X) :=
  match s.task? t with
  | some ⟨_, .fetching⟩ | some ⟨_, .evaluating⟩ => some s
  | _ => none

def deliver (outcome : LoadResult X) (waiters : List CallId) (calls : List (CallId × Call X)) :
    List (CallId × Call X) :=
  calls.map fun (c, call) =>
    if c ∈ waiters then (c, { call with delivered := some outcome }) else (c, call)

/-- A task ends with an outcome, which every waiter is sent in order; one whose caller went away
is passed over. -/
def settle (s : Loads X) (t : CallId) (id : ModuleId) (outcome : LoadResult X) : Loads X :=
  let (registry, waiters) := s.registry.settle id outcome
  { s with
    registry
    tasks := s.tasks.filter (·.1 ≠ t)
    calls := deliver outcome waiters s.calls
    queue := s.queue ++ waiters.filter fun c => (s.call? c).isSome }.note
      (waiters.map (.sent · id outcome))

def endFetch (s : Loads X) (t : CallId) (result : LoadResult String) : Option (Loads X) :=
  match s.task? t with
  | some ⟨id, .fetching⟩ => match result with
    | .error failure => some ((s.note [.fetchEnded id result]).settle t id (.error failure))
    | .ok source =>
      some ({ s with tasks := enterPhase .evaluating t s.tasks }.note
        [.fetchEnded id result, .evaluationStarted id source])
  | _ => none

/-- The outcome of a load whose source was evaluated. -/
def outcomeOf : Except EngineFailure X → LoadResult X
  | .ok value => .ok value
  | .error failure => .error (failure.toLoad .evaluation)

def endEvaluation (s : Loads X) (t : CallId) (result : Except EngineFailure X) :
    Option (Loads X) :=
  match s.task? t with
  | some ⟨id, .evaluating⟩ =>
    some ((s.note [.evaluationEnded id result]).settle t id (outcomeOf result))
  | _ => none

def resume (s : Loads X) : Option (Loads X) :=
  match s.queue with
  | [] => none
  | c :: queue => match s.call? c with
    | some ⟨_, some outcome⟩ =>
      some ((({ s with queue }).removeCall c).note [.returned c outcome])
    | _ => some { s with queue }

def isAwaited (s : Loads X) (c : CallId) : Bool := s.registry.records.any (c ∈ ·.2.waiters)

def abortedText (id : ModuleId) : String := s!"load of '{id.text}' was aborted before completing"

/-- A call that nothing was sent to and nothing can be sent to any more returns a failure. -/
def abort (s : Loads X) (c : CallId) : Option (Loads X) :=
  match s.call? c with
  | some ⟨id, none⟩ =>
    if s.isAwaited c then none
    else some ((s.removeCall c).note
      [.aborted c, .returned c (.error (.evaluation (abortedText id)))])
  | _ => none

def step (s : Loads X) : LoadStep X → Option (Loads X)
  | .load id => some (s.load id)
  | .loadSpecifier specifier base => some (s.loadSpecifier specifier base)
  | .invalidate id => some (s.invalidate id)
  | .giveUp c => s.giveUp c
  | .begin t => s.begin t
  | .suspend t => s.suspend t
  | .endFetch t result => s.endFetch t result
  | .endEvaluation t result => s.endEvaluation t result
  | .resume => s.resume
  | .abort c => s.abort c

def run (s : Loads X) : List (LoadStep X) → Option (Loads X)
  | [] => some s
  | a :: rest => (s.step a).bind (run · rest)

end Loads

end ScriptHost
