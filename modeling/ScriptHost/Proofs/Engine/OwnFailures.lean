import ScriptHost.Proofs.Engine.Scripts

/-!
# Failures of a program's own

A value that was thrown for no import should make the run fail with its own
report. It does unless the report happens to name the import that failed last
in the phase, also one that the program caught; a name that is empty is in
every report.
-/

set_option autoImplicit false

namespace ScriptHost.Engine

theorem mem_errorsOf {trail : List Milestone} {i : ImportFailure} {ref : Nat} {e : ErrorValue}
    (h : .importFailed i (.error ref e) ∈ trail) : (some i, ref, e) ∈ errorsOf trail :=
  List.mem_filterMap.mpr ⟨_, h, rfl⟩

/-- The verdict of a phase is its own failure unless the report names the import that failed last,
and then it is the failure of that one. -/
theorem Phase.verdict_cases (p : Phase) (value : Value) :
    ((∀ last, p.failed.getLast? = some last → contains value.report last.1.name = false) ∧
      p.verdict value = ownFailure p.module p.isMain value.report) ∨
    ∃ last, p.failed.getLast? = some last ∧ contains value.report last.1.name = true ∧
      p.verdict value = last.1.failure := by
  cases hl : p.failed.getLast? with
  | none => exact .inl ⟨by simp, by simp [verdict, blamed?, hl]⟩
  | some last =>
    by_cases hc : contains value.report last.1.name = true
    · have hb : p.blamed? value = some last.1 := by simp [blamed?, hl, Option.filter, hc]
      exact .inr ⟨last, rfl, hc, by rw [verdict, hb]⟩
    · have hb : p.blamed? value = none := by simp [blamed?, hl, Option.filter, hc]
      refine .inl ⟨?_, by rw [verdict, hb]⟩
      intro other ho
      cases ho
      exact Bool.eq_false_iff.mpr hc

/-! A program whose `main` catches the failed import of nothing and then throws an error. -/

namespace Blamed

open Rethrown (statement attempt view)

def program : Json := .object [("main", .string "async"), ("main_body", .array [
  attempt "" [],
  statement "throw" [("value", .object [("error", .string "boom")])]])]

def state : State := Script.stateOf .curated program

def caught : ImportFailure := ⟨"", .invalidSpecifier "" "empty specifier"⟩

def complaint : ErrorValue :=
  ⟨"ReferenceError",
    "Error resolving module '' from 'file:///app.js': Invalid module specifier '': empty specifier",
    none, some ""⟩

def boom : ErrorValue := ⟨"Error", "boom", none, some "    at file:///app.js\n"⟩

set_option maxRecDepth 100000 in
theorem seen :
    errorsOf (runWithin 0 state view).1.trail = [
      (some caught, 18, complaint),
      (none, 19, boom)] ∧
    runFailure? (runWithin 0 state view).2.result = some caught.failure := by
  decide +kernel

theorem escaped :
    .escaped (.error 19 boom) ∈ (runWithin 0 state view).1.trail.drop state.trail.length := by
  have h : .escaped (.error 19 boom) ∈ (runWithin 0 state view).1.trail :=
    escaped_of_errorsOf (by rw [seen.1]; simp)
  have hs : state.trail.length = 0 := rfl
  rw [hs, List.drop_zero]
  exact h

theorem own (i : ImportFailure) :
    .importFailed i (.error 19 boom) ∉ (runWithin 0 state view).1.trail := by
  intro h
  have hm := mem_errorsOf h
  rw [seen.1] at hm
  simp at hm

end Blamed

/-- When a value escapes that was thrown for no import, the run fails with the phase's own failure
unless the report names the import that failed last in the phase. Then the run fails with the
failure of that one, although its error is another. -/
theorem escaped_own_failure {s : State} {duration : Nat} {view : HostView} {v : Value}
    (escaped : .escaped v ∈ (runWithin duration s view).1.trail.drop s.trail.length)
    (own : ∀ i, .importFailed i v ∉ (runWithin duration s view).1.trail) :
    ∃ p, Phase.last? (runWithin duration s view).1.trail = some p ∧
      (((∀ last, p.failed.getLast? = some last → contains v.report last.1.name = false) ∧
        (runWithin duration s view).2.result =
          some (.error (ownFailure p.module p.isMain v.report))) ∨
      ∃ last, p.failed.getLast? = some last ∧ last.2 ≠ v ∧
        contains v.report last.1.name = true ∧
        (runWithin duration s view).2.result = some (.error last.1.failure)) := by
  obtain ⟨earlier, p, ht, hr⟩ := escape_verdict escaped
  have hown : ∀ f ∈ p.failed, f.2 ≠ v := by
    intro f hf he
    apply own f.1
    have hm : thrownFor f ∈ p.trail := List.mem_cons_of_mem _ (List.mem_map_of_mem hf)
    rw [ht, ← he]
    exact List.mem_append_right _ (List.mem_append_right _ (List.mem_append_left _ hm))
  refine ⟨p, ?_, ?_⟩
  · rw [ht, ← List.append_assoc]
    exact p.last?_escape _ v
  · rw [hr]
    obtain ⟨hn, hv⟩ | ⟨last, hl, hc, hv⟩ := p.verdict_cases v
    · exact .inl ⟨hn, by rw [hv]⟩
    · exact .inr ⟨last, hl, hown last (List.mem_of_getLast? hl), hc, by rw [hv]⟩

section Blamed

open Blamed
open Rethrown (view)

theorem own_failure_condition : ∃ p, Phase.last? (runWithin 0 state view).1.trail = some p ∧
    (((∀ last, p.failed.getLast? = some last →
        contains (Value.error 19 boom).report last.1.name = false) ∧
      (runWithin 0 state view).2.result =
        some (.error (ownFailure p.module p.isMain (Value.error 19 boom).report))) ∨
    ∃ last, p.failed.getLast? = some last ∧ last.2 ≠ .error 19 boom ∧
      contains (Value.error 19 boom).report last.1.name = true ∧
      (runWithin 0 state view).2.result = some (.error last.1.failure)) :=
  escaped_own_failure escaped own

/-- An error that was thrown for no import escapes, and the run fails with the failure of an import
that the program caught. -/
theorem own_failure_lost : ¬ ∀ (s : State) (duration : Nat) (view : HostView) (v : Value),
    Reached s → .escaped v ∈ (runWithin duration s view).1.trail.drop s.trail.length →
    (∀ i, .importFailed i v ∉ (runWithin duration s view).1.trail) →
    ∃ (module : ModuleId) (isMain : Bool),
      (runWithin duration s view).2.result = some (.error (ownFailure module isMain v.report)) := by
  intro h
  obtain ⟨module, isMain, hr⟩ := h state 0 view (.error 19 boom) (Script.reached _ _) escaped own
  have hf := seen.2
  rw [hr] at hf
  cases isMain with
  | true => simp [runFailure?, ownFailure, caught] at hf
  | false => simp [runFailure?, ownFailure, caught] at hf

end Blamed

end ScriptHost.Engine
