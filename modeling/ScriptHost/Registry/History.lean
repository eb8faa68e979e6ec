import ScriptHost.Registry.Loads

/-!
# Histories of loads

What a history tells of one identifier. Its generations are the stretches from
one drop of its record to the next, and a generation collects its calls, what
the fetch and the evaluation brought, and what was sent.
-/

set_option autoImplicit false

namespace ScriptHost

def LoadEvent.subject? {X : Type} : LoadEvent X → Option ModuleId
  | .called _ id | .attached _ id | .fetchStarted id | .fetchEnded id _
  | .evaluationStarted id _ | .evaluationEnded id _ | .sent _ id _ | .invalidated id _ => some id
  | .refused .. | .returned .. | .aborted _ | .givenUp _ => none

structure Generation (X : Type) where
  calls : List CallId
  attached : List CallId
  started : Nat
  fetched : List (LoadResult String)
  evaluated : List (Except EngineFailure X)
  sent : List (CallId × LoadResult X)

namespace Generation

variable {X : Type}

def empty : Generation X := ⟨[], [], 0, [], [], []⟩

def note (g : Generation X) : LoadEvent X → Generation X
  | .called c _ => { g with calls := g.calls ++ [c] }
  | .attached c _ => { g with attached := g.attached ++ [c] }
  | .fetchStarted _ => { g with started := g.started + 1 }
  | .fetchEnded _ result => { g with fetched := g.fetched ++ [result] }
  | .evaluationEnded _ result => { g with evaluated := g.evaluated ++ [result] }
  | .sent c _ outcome => { g with sent := g.sent ++ [(c, outcome)] }
  | _ => g

/-- What every call of a generation gets: the failure of its one fetch, or what its one
evaluation came to. -/
def outcome? (g : Generation X) : Option (LoadResult X) :=
  match g.fetched, g.evaluated with
  | [.error failure], [] => some (.error failure)
  | [.ok _], [.ok value] => some (.ok value)
  | [.ok _], [.error failure] => some (.error (failure.cause.getD (.evaluation failure.message)))
  | _, _ => none

end Generation

/-- The generations of an identifier: those that ended, oldest first, and the current one. -/
structure Life (X : Type) where
  past : List (Generation X)
  current : Generation X

namespace Life

variable {X : Type}

def start : Life X := ⟨[], .empty⟩

def note (id : ModuleId) (l : Life X) (e : LoadEvent X) : Life X :=
  if e.subject? = some id then
    match e with
    | .invalidated _ true => ⟨l.past ++ [l.current], .empty⟩
    | e => { l with current := l.current.note e }
  else l

def generations (l : Life X) : List (Generation X) := l.past ++ [l.current]

end Life

namespace History

variable {X : Type}

def life (h : History X) (id : ModuleId) : Life X := h.foldl (Life.note id) .start

def generations (h : History X) (id : ModuleId) : List (Generation X) := (h.life id).generations

def fetches (h : History X) (id : ModuleId) : Nat :=
  h.countP fun
    | .fetchStarted other => other = id
    | _ => false

def drops (h : History X) (id : ModuleId) : Nat :=
  h.countP fun
    | .invalidated other true => other = id
    | _ => false

def settlements (h : History X) (id : ModuleId) : Nat :=
  h.countP fun
    | .fetchEnded other (.error _) => other = id
    | .evaluationEnded other _ => other = id
    | _ => false

def sources (h : History X) (id : ModuleId) : List String :=
  h.filterMap fun
    | .fetchEnded other (.ok source) => if other = id then some source else none
    | _ => none

def evaluations (h : History X) (id : ModuleId) : List String :=
  h.filterMap fun
    | .evaluationStarted other source => if other = id then some source else none
    | _ => none

def called (h : History X) : List CallId :=
  h.filterMap fun
    | .called c _ => some c
    | _ => none

def returned (h : History X) : List CallId :=
  h.filterMap fun
    | .returned c _ => some c
    | _ => none

end History

end ScriptHost
