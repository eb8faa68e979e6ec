import ScriptHost.Proofs.Engine.Runs
import ScriptHost.Proofs.Engine.SecludedLoop

/-!
# Runs apart from the host

A run waits for the evaluation of its module, for the end of `main` and for the
engine to be idle. Each wait either comes to its end before the host has a turn,
and then the run goes on beside any host alike, or it has no end.
-/

set_option autoImplicit false

namespace ScriptHost.Engine

variable {α β : Type} {s t : State}

def Given (Q : α → Prop) (result : Option α) : Prop := ∃ a, result = some a ∧ Q a

/-- How code that waits comes out, beside any host and however long it may last. -/
inductive Ends (Q : α → Prop) (s : State) (code : Nat → Run (Option α)) : Prop
  /-- It comes to an end of its own, the same beside every host, which stays as it was. -/
  | finished (r : EStateM.Result Value State (Option α)) (hr : Yields (Given Q) r)
      (h : ∀ limit host history,
        (code limit).run (s.beside host history) = resultBeside host history r)
  /-- It has no result beside any host, which goes on by itself. -/
  | endless (t : State) (ht : t.Tame) (h : ∀ limit host history, ∃ host' history',
      (code limit).run (s.beside host history) = .ok none (t.beside host' history') ∧
        LeftAlone t.sources.files host history host' history')

section Ends

variable {P Q : α → Prop} {R : β → Prop}

section Waiting

variable {isOver : State → Bool}

end Waiting

end Ends

section Loads

variable {id : ModuleId} {source : String}

end Loads

section Mains

variable {id : ModuleId}
variable {f : Callable} {argument : EntryArgument}

variable {view : HostView} {exports : ModuleId}

end Mains

section Entries

variable {view : HostView} {id : ModuleId}

end Entries

end ScriptHost.Engine
