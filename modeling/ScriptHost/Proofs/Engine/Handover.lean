import ScriptHost.Proofs.Engine.HostObject

/-!
# Handing over callbacks

A call of the host that is given a callback either throws, and then it did
nothing but give out references, or it returns, and then the callback is
recorded: under a new key of the primitive that accepted it, or under the
handle of the timer that was started.
-/

set_option autoImplicit false

namespace ScriptHost.Engine

variable {context : Context} {α β : Type} {s s' t : State}

def Renumbered (s s' : State) : Prop := ∃ issued, s.issued ≤ issued ∧ s' = { s with issued }

section Renumbering

theorem Renumbered.refl (s : State) : Renumbered s s := ⟨s.issued, Nat.le_refl _, rfl⟩

theorem Renumbered.trans (h : Renumbered s t) (h' : Renumbered t s') : Renumbered s s' := by
  obtain ⟨i, hi, rfl⟩ := h
  obtain ⟨j, hj, rfl⟩ := h'
  exact ⟨j, Nat.le_trans hi hj, rfl⟩

instance : Issues Renumbered := ⟨fun s => ⟨s.issued + 1, Nat.le_succ _, rfl⟩⟩

theorem renumbered_left {code : Run α} (hw : WalksBy Renumbered code) (s : State) :
    Renumbered s (left (code.run s)) :=
  walks_keep (fun hr h => h.trans hr) hw (.refl s)

end Renumbering

section Arguments

/-- An argument is of the kind that was wanted and is what the value holds. -/
inductive Fits : Kind → Value → Argument → Prop
  | any (value : Value) : Fits .any value (.any value)
  | text (text : String) : Fits .text (.string text) (.text text)
  | number {value : Value} {x : Float} (h : value.number? = some x) :
      Fits .number value (.number x)
  | texts (ref : Nat) (items : List Value) (given : List String) :
      Fits .texts (.array ref items) (.texts given)
  | function (ref : Nat) (f : Callable) : Fits .function (.function ref f) (.function f)

variable {P : α → Prop} {Q : β → Prop}

end Arguments

section Primitives

/-- A callback was recorded under a new key as accepted. -/
def Accepts (f : Callable) (s s' : State) : Prop :=
  ∃ key events, s.issued < key ∧ s'.history = events ++ .accepted key f :: s.history

theorem Accepts.after {f : Callable} (h : Renumbered s t) (ha : Accepts f t s') :
    Accepts f s s' := by
  obtain ⟨issued, hi, rfl⟩ := h
  obtain ⟨key, events, hk, hh⟩ := ha
  exact ⟨key, events, Nat.lt_of_le_of_lt hi hk, hh⟩

/-- Code that hands over a callback: if it throws, it only gave out references. -/
structure HandsOver (f : Callable) (code : Run α) : Prop where
  returns : ∀ s a s', code.run s = .ok a s' → Accepts f s s'
  throws : ∀ s value s', code.run s = .error value s' → Renumbered s s'

variable {f : Callable} {primitive : Primitive}

theorem HandsOver.after {code : Run α} {next : α → Run β} (hw : WalksBy Renumbered code)
    (h : ∀ a, HandsOver f (next a)) : HandsOver f (code >>= next) := by
  constructor
  · intro s b s' hr
    have hs := renumbered_left hw s
    rw [bind_run] at hr
    cases hc : code.run s with
    | ok a t =>
      rw [hc] at hr hs
      exact ((h a).returns t b s' hr).after hs
    | error value t =>
      rw [hc] at hr
      cases hr
  · intro s value s' hr
    have hs := renumbered_left hw s
    rw [bind_run] at hr
    cases hc : code.run s with
    | ok a t =>
      rw [hc] at hr hs
      exact hs.trans ((h a).throws t value s' hr)
    | error thrown t =>
      rw [hc] at hr hs
      cases hr
      exact hs

end Primitives

end ScriptHost.Engine
