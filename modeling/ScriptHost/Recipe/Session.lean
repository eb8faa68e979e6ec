import ScriptHost.Module.Order
import ScriptHost.Recipe.World

/-!
# Sessions with a registry of recipes

A session starts loads, each under a ticket, opens gates, gives loads up,
changes modules and looks at the records. Loads go on only in the steps that
say so.
-/

set_option autoImplicit false

namespace ScriptHost.Recipe

inductive Target where
  | id (text : String)
  | specifier (text base : String)

def Target.resolve : Target → LoadResult ModuleId
  | .id text => ModuleId.parse text
  | .specifier text base => (ModuleId.parse base).bind (ModuleId.resolve text)

inductive Step where
  | start (target : Target)
  | load (target : Target)
  | settle
  | release (gate : String)
  | cancel (ticket : Nat)
  | define (name : String) (module : MemoryModule)
  | state (id : String)
  | invalidate (id : String)
  | evaluations
  | records

inductive Answer where
  | nothing
  | ticket (number : Nat) (outcome : Option (LoadResult Exports))
  | count (n : Nat)
  | state (state : Option RecordState)
  | dropped (isDropped : Bool)
  | refused (failure : LoadFailure)
  | records (records : List (ModuleId × RecordState))

structure Session where
  world : World
  tickets : Nat

namespace World

def records (w : World) : List (ModuleId × RecordState) :=
  (ModuleId.sort w.registry.ids).filterMap fun id => (w.registry.state? id).map (id, ·)

def isTicket (ticket : Nat) (task : TaskId × Task) : Bool := task.2.activity = .asking ticket

def cancel (w : World) (ticket : Nat) : World := w.abandon (isTicket ticket)

def outcomeOf (ticket : Nat) : List Entry → Option (LoadResult Exports)
  | [] => none
  | .done other outcome :: rest => if other = ticket then some outcome else outcomeOf ticket rest
  | _ :: rest => outcomeOf ticket rest

end World

namespace Session

def start (sources : Sources) : Session := ⟨World.start .initial sources, 0⟩

def begin (s : Session) (target : Target) : Session × Option (LoadResult Exports) :=
  let ticket := s.tickets + 1
  match target.resolve with
  | .error failure => (⟨s.world, ticket⟩, some (.error failure))
  | .ok id =>
    let (w, t) := s.world.issue
    match w.load id t with
    | (w, some outcome) => (⟨w, ticket⟩, some outcome)
    | (w, none) => (⟨w.spawnAs t (.asking ticket), ticket⟩, none)

def withId (s : Session) (text : String) (act : ModuleId → Session × Answer) : Session × Answer :=
  match ModuleId.parse text with
  | .error failure => (s, .refused failure)
  | .ok id => act id

def step (s : Session) : Step → Session × Answer
  | .start target =>
    let (s, outcome) := s.begin target
    (s, .ticket s.tickets outcome)
  | .load target => match s.begin target with
    | (s, some outcome) => (s, .ticket s.tickets (some outcome))
    | (s, none) =>
      let w := s.world.settled
      (⟨w, s.tickets⟩, .ticket s.tickets (World.outcomeOf s.tickets w.log))
  | .settle => ({ s with world := s.world.settled }, .nothing)
  | .release gate =>
    let (world, count) := s.world.release gate
    ({ s with world }, .count count)
  | .cancel ticket => ({ s with world := (s.world.cancel ticket).settled }, .nothing)
  | .define name module =>
    let sources := s.world.sources
    let memory := sources.memory.define name module
    ({ s with world := { s.world with sources := { sources with memory } } }, .nothing)
  | .state text => s.withId text fun id => (s, .state (s.world.registry.state? id))
  | .invalidate text => s.withId text fun id =>
    let isDropped := (s.world.registry.invalidate id).2
    ({ s with world := s.world.take (.invalidate id) }, .dropped isDropped)
  | .evaluations => (s, .count s.world.evaluations)
  | .records => (s, .records s.world.records)

def run (s : Session) : List Step → List (Answer × List Entry)
  | [] => []
  | step_ :: rest =>
    let (s, answer) := s.step step_
    (answer, s.world.log) :: run { s with world := { s.world with log := [] } } rest

end Session

end ScriptHost.Recipe
