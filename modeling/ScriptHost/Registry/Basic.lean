import ScriptHost.Module.Id

/-!
# The module registry

There is at most one record for each identifier. The first load makes it and
starts one task; later loads join the waiters or find the outcome. The task
begins, and settles the record with its outcome for every waiter in the order
in which they came. Only a settled record can be dropped.
-/

set_option autoImplicit false

namespace ScriptHost

inductive RecordState where
  | pending
  | loading
  | ready
  | failed
  deriving DecidableEq, Repr

inductive Record (X W : Type) where
  | pending (waiters : List W)
  | loading (waiters : List W)
  | ready (value : X)
  | failed (failure : LoadFailure)

namespace Record

variable {X W : Type}

def state : Record X W → RecordState
  | .pending _ => .pending
  | .loading _ => .loading
  | .ready _ => .ready
  | .failed _ => .failed

def waiters : Record X W → List W
  | .pending waiters => waiters
  | .loading waiters => waiters
  | _ => []

def outcome? : Record X W → Option (LoadResult X)
  | .ready value => some (.ok value)
  | .failed failure => some (.error failure)
  | _ => none

def isSettled (record : Record X W) : Bool := record.outcome?.isSome

def ofOutcome : LoadResult X → Record X W
  | .ok value => .ready value
  | .error failure => .failed failure

def join (record : Record X W) (waiter : W) : Record X W :=
  match record with
  | .pending waiters => .pending (waiters ++ [waiter])
  | .loading waiters => .loading (waiters ++ [waiter])
  | record => record

end Record

structure Registry (X W : Type) where
  records : List (ModuleId × Record X W)

/-- What a load finds: an outcome, a task that is on its way, or nothing, so that it has to
start the task. -/
inductive Loading (X : Type) where
  | settled (outcome : LoadResult X)
  | joined
  | first

namespace Registry

variable {X W : Type}

def empty : Registry X W := ⟨[]⟩

def find? (r : Registry X W) (id : ModuleId) : Option (Record X W) := r.records.lookup id

def placed (id : ModuleId) (record : Record X W) :
    List (ModuleId × Record X W) → List (ModuleId × Record X W)
  | [] => [(id, record)]
  | (other, old) :: rest =>
    if other = id then (id, record) :: rest else (other, old) :: placed id record rest

def put (r : Registry X W) (id : ModuleId) (record : Record X W) : Registry X W :=
  ⟨placed id record r.records⟩

def load (r : Registry X W) (id : ModuleId) (waiter : W) : Registry X W × Loading X :=
  match r.find? id with
  | none => (r.put id (.pending [waiter]), .first)
  | some record => match record.outcome? with
    | some outcome => (r, .settled outcome)
    | none => (r.put id (record.join waiter), .joined)

def begin (r : Registry X W) (id : ModuleId) : Registry X W :=
  match r.find? id with
  | some (.pending waiters) => r.put id (.loading waiters)
  | _ => r

/-- The task of a record ends: the waiters that get its outcome, in order. -/
def settle (r : Registry X W) (id : ModuleId) (outcome : LoadResult X) :
    Registry X W × List W :=
  (r.put id (.ofOutcome outcome), ((r.find? id).map Record.waiters).getD [])

def remove (r : Registry X W) (id : ModuleId) : Registry X W := ⟨r.records.filter (·.1 ≠ id)⟩

def invalidate (r : Registry X W) (id : ModuleId) : Registry X W × Bool :=
  match r.find? id with
  | some record => if record.isSettled then (r.remove id, true) else (r, false)
  | none => (r, false)

def state? (r : Registry X W) (id : ModuleId) : Option RecordState := (r.find? id).map Record.state

def ids (r : Registry X W) : List ModuleId := r.records.map (·.1)

def size (r : Registry X W) : Nat := r.records.length

def isEmpty (r : Registry X W) : Bool := r.records.isEmpty

end Registry

end ScriptHost
