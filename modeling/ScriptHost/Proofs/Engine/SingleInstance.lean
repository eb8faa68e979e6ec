import ScriptHost.Proofs.Engine.Evaluations
import ScriptHost.Proofs.Engine.Scripts

/-!
# One instance of a module

A run declares its entry module first, when nothing is there that could have its
name, and every import looks for a name before it declares one. So no two
instances of a run have one name, whoever asks for it, and as its body is
executed only when its evaluation begins, it is executed once.
-/

set_option autoImplicit false

namespace ScriptHost.Engine

variable {α : Type} {s t : State}

section Evaluating

theorem preserves_of {code : Run α} (h : ∀ s, Sound s → Sound (left (code.run s))) :
    WalksBy Preserves code :=
  fun s => .single fun hs => ⟨h s hs, fun _ _ hp => hp.elim⟩

theorem preserves_conclude {key : Nat} {result : Except Value Unit} :
    WalksBy Preserves (conclude key result) :=
  conclude_spares fun _ hp => hp.elim

theorem preserves_evaluateInstance {key : Nat} : WalksBy Preserves (evaluateInstance key) :=
  walks_bind walks_instanceCount fun _ => walks_bind (walks_link _ key) fun _ =>
    preserves_of fun _ h => (spares_left (visit_spares _ key) h).sound

def evaluating (bring : Run Nat) (event : Nat → ModuleEvent) : Run Nat := do
  let key ← bring
  tell (event key)
  evaluateInstance key
  return key

theorem evaluating_sound {bring : Run Nat} {event : Nat → ModuleEvent}
    (h : Results (fun key t => Sound t ∧ t.Explains (event key)) Sound (bring.run s))
    (hn : ∀ key, executedKey? (event key) = none) :
    Sound (left ((evaluating bring event).run s)) := by
  refine left_bind (fun value t hc => ?_) fun key t hc => ?_
  · rw [hc] at h
    exact h
  · rw [hc] at h
    have told := h.1.tell h.2 (hn key)
    exact (spares_left (walks_bind preserves_evaluateInstance fun _ => walks_pure key) told).sound

theorem preserves_endThread {key : Nat} {thread : Thread} {result : Except Value Outcome} :
    WalksBy Preserves (endThread key thread result) := by
  refine walks_bind (walks_modify fun _ => Covers.quiet (.inner _ _ _ _ _ (Nat.le_refl _))
    ⟨rfl, rfl⟩) fun _ => ?_
  split
  · exact walks_endMain
  · exact walks_bind preserves_conclude fun _ =>
      walks_bind walks_instanceCount fun _ => release_preserves _

theorem preserves_loadInstance {thread : Nat} {base specifier : String} :
    WalksBy Preserves (loadInstance thread base specifier) := by
  have loaded : WalksBy Preserves
      (evaluating (importInstance (declare deepest) base specifier) (.loaded base specifier)) := by
    refine preserves_of fun s h => evaluating_sound ?_ fun _ => rfl
    exact (importInstance_imports (declare_declares deepest) h).mono
      (fun key t ht => ⟨ht.1.sound, ht.2⟩) fun t ht => ht.sound
  refine walks_bind (walks_attempted loaded) fun result => ?_
  split
  · exact walks_pure _
  · refine walks_bind walks_stageOf fun stage => ?_
    split
    · exact walks_pure _
    · exact walks_pure _
    · exact walks_pure _
    · exact walks_bind (walks_changeInside fun _ => rfl) fun _ => walks_pure _

theorem runStep_issued (h : RunStep s t) : s.issued ≤ t.issued := by
  cases h with
  | turn h => exact step_issued h
  | _ => exact Nat.le_refl _

instance : Conducts Preserves where
  quiet h hm := Covers.quiet h hm
  ended _ _ _ := preserves_endThread
  loads _ _ _ := preserves_loadInstance
  turn h hm hs := ⟨hs.undisturbed ⟨hm, step_issued h⟩, fun _ _ hp => hp.elim⟩
  between h hm hs := ⟨hs.undisturbed ⟨hm, runStep_issued h⟩, fun _ _ hp => hp.elim⟩

end Evaluating

section Runs

variable (id : ModuleId) (limit : Nat)

/-- Before a run declared its entry module. -/
structure Untouched (s : State) : Prop where
  standings : s.standings = []
  events : s.moduleEvents = []

theorem Untouched.sound (h : Untouched s) : Sound s := by
  constructor <;> simp [h.standings, h.events]

end Runs

section Reaching

/-- The ways in which a module is reached under a name: it is the entry, or an instance imports it,
statically or dynamically. An import of a module that could not be declared reaches nothing. -/
inductive Reaches (s : State) : String → Nat → Prop
  | entry {id : ModuleId} {key : Nat} (h : .entered id key ∈ s.moduleEvents) : Reaches s id.text key
  | dynamic {base specifier name : String} {key : Nat}
      (h : .loaded base specifier key ∈ s.moduleEvents)
      (hr : resolution base specifier = .ok name) : Reaches s name key
  | static {i j : Instance} {import_ : Import} {name : String} (hi : i ∈ s.instances)
      (h : (import_, j.key) ∈ i.program.imports.zip i.imports) (hj : j ∈ s.instances)
      (hr : resolution i.name import_.specifier = .ok name) : Reaches s name j.key

theorem Reaches.holds {name : String} {key : Nat} (h : Reaches s name key) (hs : Sound s) :
    s.Holds key name := by
  cases h with
  | entry h => exact hs.told _ h
  | dynamic h hr =>
    obtain ⟨other, ho, hh⟩ := hs.told _ h
    rw [hr, Except.ok.injEq] at ho
    exact ho ▸ hh
  | @static i j import_ _ hi h hj hr =>
    obtain ⟨other, ho, -, hn⟩ := hs.links i.standing (List.mem_map_of_mem hi) _ h
    replace ho : resolution i.name import_.specifier = .ok other := ho
    rw [hr, Except.ok.injEq] at ho
    have hm : j.standing ∈ s.standings := List.mem_map_of_mem hj
    exact ⟨j.standing, hm, rfl, ho ▸ hn _ hm rfl⟩

theorem Sound.found (hs : Sound s) {name : String} {key : Nat} (h : s.Holds key name) :
    ∃ i, s.instances.find? (·.key = key) = some i ∧ i.name = name := by
  obtain ⟨standing, hm, rfl, rfl⟩ := h
  cases hf : s.instances.find? (·.key = standing.key) with
  | none =>
    obtain ⟨j, hj, rfl⟩ := List.mem_map.mp hm
    exact absurd rfl (of_decide_eq_false (Bool.eq_false_iff.mpr (List.find?_eq_none.mp hf j hj)))
  | some i =>
    obtain ⟨hi, hk⟩ := found_standing hf
    exact ⟨i, rfl, congrArg Standing.name (hs.eq_of_key hi hm hk)⟩

end Reaching

/-! Two modules that import each other, under an entry that imports both and one of them once more
while its `main` runs. -/

namespace Meeting

open Rethrown (statement view)

def importing (specifiers : List String) (main : List Json) : String := Json.write (.object [
  ("imports", .array (specifiers.map fun specifier => .object [("from", .string specifier)])),
  ("main", .string "async"), ("main_body", .array main)])

def sources : Sources :=
  { Rethrown.sources with memory := ⟨[
    ("file:///app.js", ⟨.ok (importing ["./a.js", "./b.js"]
      [statement "import" [("value", .string "./a.js")]]), none⟩),
    ("file:///a.js", ⟨.ok (importing ["./b.js"] []), none⟩),
    ("file:///b.js", ⟨.ok (importing ["./a.js"] []), none⟩)]⟩ }

set_option maxRecDepth 100000 in
example : (runWithin 0 (start default sources view) view).1.moduleEvents = [
    .entered Script.app 13, .executed "file:///b.js" 17, .executed "file:///a.js" 15,
    .executed "file:///app.js" 13, .loaded "file:///app.js" "./a.js" 15] := by
  decide +kernel

end Meeting

end ScriptHost.Engine
