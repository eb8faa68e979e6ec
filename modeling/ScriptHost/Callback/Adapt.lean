import ScriptHost.Callback.Basic

/-!
# Waiting for a callback

A host function that is given a callback is turned into one result at one time.
The function is a list of uses of the callback with waits between them, and it
drops the callback at its end. The result is the first one delivered; if the
callback goes without any, that is the result, at the time it went.
-/

set_option autoImplicit false

namespace ScriptHost

inductive HostMove (α : Type) where
  | use (u : CallbackUse α)
  | wait (ms : Nat)

structure Adaptation (α : Type) where
  now : Nat
  callback : Callback
  settled : Option (HostResult α × Nat)

namespace Adaptation

def start {α : Type} : Adaptation α := ⟨0, .waiting, none⟩

def outcomeOf {α : Type} (callback : Callback) (delivered : Option (HostResult α)) :
    Option (HostResult α) :=
  match delivered, callback with
  | some result, _ => some result
  | none, .gone => some (.error .callbackDropped)
  | none, _ => none

def settle {α : Type} (a : Adaptation α) (callback : Callback)
    (delivered : Option (HostResult α)) : Adaptation α :=
  match a.settled with
  | some _ => { a with callback := callback }
  | none =>
    { a with callback := callback, settled := (outcomeOf callback delivered).map (·, a.now) }

def move {α : Type} (a : Adaptation α) : HostMove α → Adaptation α
  | .wait ms => { a with now := a.now + ms }
  | .use u => a.settle (a.callback.use u).1 (a.callback.use u).2

def run {α : Type} (moves : List (HostMove α)) : Adaptation α :=
  (moves ++ [HostMove.use CallbackUse.drop]).foldl move start

end Adaptation

def adapt {α : Type} (moves : List (HostMove α)) : HostResult α × Nat :=
  (Adaptation.run moves).settled.getD (.error .callbackDropped, 0)

end ScriptHost
