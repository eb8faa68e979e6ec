import ScriptHost.Callback.Adapt

/-!
# The course of an adaptation

A host function and the one who waits for its result. The callback holds the
sending end of a channel for one result: a call sends the result, and a callback
that goes without a call closes the channel. The function makes its moves one by
one, before the wait begins or in a job of its own, and the waiting one looks at
the channel at any moment until there is something to see. Time passes where the
function waits, once the wait began and while there is nothing to see.
-/

set_option autoImplicit false

namespace ScriptHost

inductive Channel (α : Type) where
  | empty
  | holds (result : HostResult α)
  | closed

namespace Channel

def after {α : Type} (channel : Channel α) (callback : Callback) (u : CallbackUse α) : Channel α :=
  match callback.use u with
  | (_, some result) => .holds result
  | (.gone, none) => if callback = .waiting then .closed else channel
  | (_, none) => channel

def seen? {α : Type} : Channel α → Option (HostResult α)
  | .empty => none
  | .holds result => some result
  | .closed => some (.error .callbackDropped)

end Channel

namespace Adaptation

structure Course (α : Type) where
  now : Nat
  /-- The moves that the function made. -/
  made : List (HostMove α)
  rest : List (HostMove α)
  callback : Callback
  channel : Channel α
  isAwaited : Bool
  /-- What was sent, and when, oldest first. -/
  sent : List (HostResult α × Nat)
  /-- The results of the wait, and when they came, oldest first. -/
  resolved : List (HostResult α × Nat)

namespace Course

variable {α : Type}

def start (moves : List (HostMove α)) : Course α :=
  ⟨0, [], moves ++ [.use .drop], .waiting, .empty, false, [], []⟩

def isQuiet (c : Course α) : Bool :=
  !c.resolved.isEmpty || (c.isAwaited && c.channel.seen?.isNone)

def use? (c : Course α) : Option (Course α) :=
  match c.rest with
  | .use u :: rest => some { c with
      made := c.made ++ [.use u]
      rest
      callback := (c.callback.use u).1
      channel := c.channel.after c.callback u
      sent := c.sent ++ (c.callback.use u).2.toList.map (·, c.now) }
  | _ => none

/-- The function waits. A wait of no time suspends nobody. -/
def pass? (c : Course α) : Option (Course α) :=
  match c.rest with
  | .wait ms :: rest =>
    if ms = 0 || c.isQuiet then
      some { c with now := c.now + ms, made := c.made ++ [.wait ms], rest }
    else none
  | _ => none

/-- The waiting one looks at the channel. What is there is taken, and ends the wait. -/
def look? (c : Course α) : Option (Course α) :=
  if c.resolved.isEmpty then
    match c.channel.seen? with
    | none => some { c with isAwaited := true }
    | some result => some { c with
        isAwaited := true
        channel := .closed
        resolved := c.resolved ++ [(result, c.now)] }
  else none

inductive Step where
  | use
  | pass
  | look
  deriving DecidableEq, Repr

def step? (c : Course α) : Step → Option (Course α)
  | .use => c.use?
  | .pass => c.pass?
  | .look => c.look?

def run (c : Course α) : List Step → Option (Course α)
  | [] => some c
  | a :: rest => (c.step? a).bind (run · rest)

/-- The function made all its moves, and the waiting one has nothing to do any more. -/
def isOver (c : Course α) : Bool := c.rest.isEmpty && c.isQuiet

end Course

end Adaptation

end ScriptHost
