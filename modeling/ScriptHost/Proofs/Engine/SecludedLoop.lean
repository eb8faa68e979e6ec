import ScriptHost.Proofs.Engine.Loop
import ScriptHost.Proofs.Engine.SecludedConversion
import ScriptHost.Proofs.Host.OwnMoves

/-!
# The event loop apart from the host

The loop runs jobs first, and while there are any it has no part in the host. If
none is left before the condition holds, no callback waits and so nothing brings
a job any more: the host goes on by itself, and the loop comes to no end.
-/

set_option autoImplicit false

namespace ScriptHost.Engine

open NativeHost (OwnMove)

variable {α β : Type} {s t : State} {host host' : NativeHost Nat}
  {history history' : List CallbackEvent}

section Jobs

end Jobs

/-- Only the host itself did something, of which nothing but fires of its timers is told. -/
structure LeftAlone (files : FileSystem) (host : NativeHost Nat) (history : List CallbackEvent)
    (host' : NativeHost Nat) (history' : List CallbackEvent) : Prop where
  moves : Relation.ReflTransGen (OwnMove files) host host'
  fires : ∃ timers : List Nat, history' = timers.map .fired ++ history

section Quiet

variable {P Q : α → Prop} {R : β → Prop} {files : FileSystem}

theorem LeftAlone.refl (files : FileSystem) (host : NativeHost Nat)
    (history : List CallbackEvent) : LeftAlone files host history host history :=
  ⟨.refl, [], rfl⟩

theorem LeftAlone.trans {middle : NativeHost Nat} {between : List CallbackEvent}
    (h : LeftAlone files host history middle between)
    (h' : LeftAlone files middle between host' history') :
    LeftAlone files host history host' history' := by
  obtain ⟨moves, earlier, rfl⟩ := h
  obtain ⟨moves', later, rfl⟩ := h'
  exact ⟨moves.trans moves', later ++ earlier, by simp⟩

end Quiet

end ScriptHost.Engine
