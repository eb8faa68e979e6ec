import Mathlib.Data.List.Induction

/-!
# Runs of steps

A machine takes the steps of a list one after another, and its run ends without
a state at the first step that cannot be taken. What the start has and every
step keeps holds at the end, whatever the machine is.
-/

set_option autoImplicit false

namespace ScriptHost

/-- A machine takes the steps of a list in their order. -/
structure RunsBy {S A : Type} (step : S → A → Option S) (run : S → List A → Option S) : Prop where
  nil : ∀ s, run s [] = some s
  cons : ∀ s a rest, run s (a :: rest) = (step s a).bind (run · rest)

namespace RunsBy

variable {S A : Type} {step : S → A → Option S} {run : S → List A → Option S}
variable {s s' t : S} {a : A} {steps : List A}

theorem append (h : RunsBy step run) (s : S) (steps rest : List A) :
    run s (steps ++ rest) = (run s steps).bind (run · rest) := by
  induction steps generalizing s with
  | nil => rw [List.nil_append, h.nil, Option.bind_some]
  | cons a steps ih =>
    rw [List.cons_append, h.cons, h.cons, Option.bind_assoc]
    exact congrArg _ (funext ih)

theorem snoc (h : RunsBy step run) : run s (steps ++ [a]) = (run s steps).bind (step · a) := by
  have hlast : ∀ s', run s' [a] = step s' a := fun s' => by
    rw [h.cons, funext h.nil, Option.bind_fun_some]
  rw [h.append, funext hlast]

/-- What holds of no steps, and of one step more if it held before, holds of every run. -/
theorem induct (h : RunsBy step run) {P : List A → S → Prop} (hstart : P [] s)
    (hstep : ∀ steps t a t', run s steps = some t → P steps t → step t a = some t' →
      P (steps ++ [a]) t') (hr : run s steps = some t) : P steps t := by
  induction steps using List.reverseRecOn generalizing t with
  | nil =>
    rw [h.nil] at hr
    exact Option.some.inj hr ▸ hstart
  | append_singleton steps a ih =>
    rw [h.snoc] at hr
    obtain ⟨before, hb, ha⟩ := Option.bind_eq_some_iff.mp hr
    exact hstep steps before a t hb (ih hb) ha

theorem keeps (h : RunsBy step run) {P : S → Prop}
    (hstep : ∀ t a t', a ∈ steps → P t → step t a = some t' → P t') (hr : run s steps = some s')
    (hs : P s) : P s' := by
  induction steps generalizing s with
  | nil =>
    rw [h.nil] at hr
    exact Option.some.inj hr ▸ hs
  | cons a rest ih =>
    rw [h.cons] at hr
    obtain ⟨next, ha, hn⟩ := Option.bind_eq_some_iff.mp hr
    exact ih (fun t b t' hb => hstep t b t' (List.mem_cons_of_mem a hb)) hn
      (hstep s a next List.mem_cons_self hs ha)

end RunsBy

end ScriptHost
