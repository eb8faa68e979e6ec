import ScriptHost.Json.Writer
import ScriptHost.Proofs.Engine.Failures
import ScriptHost.Proofs.Text.Utf8

/-!
# The failures of imports

When the error of a failed import escapes, the slot decides whether the run
fails with that import's failure: it does if this import failed last and its
name is not cut from its complaint, and it does not after another one failed.
-/

set_option autoImplicit false

namespace ScriptHost.Engine

/-- The errors of a trail, with the imports that they were thrown for and those that escaped. -/
def errorsOf (trail : List Milestone) : List (Option ImportFailure × Nat × ErrorValue) :=
  trail.filterMap fun
    | .importFailed i (.error ref e) => some (some i, ref, e)
    | .escaped (.error ref e) => some (none, ref, e)
    | _ => none

theorem importFailed_of_errorsOf {trail : List Milestone} {i : ImportFailure} {ref : Nat}
    {e : ErrorValue} (h : (some i, ref, e) ∈ errorsOf trail) :
    .importFailed i (.error ref e) ∈ trail := by
  obtain ⟨m, hm, he⟩ := List.mem_filterMap.mp h
  split at he <;> simp_all

theorem escaped_of_errorsOf {trail : List Milestone} {ref : Nat} {e : ErrorValue}
    (h : (none, ref, e) ∈ errorsOf trail) : .escaped (.error ref e) ∈ trail := by
  obtain ⟨m, hm, he⟩ := List.mem_filterMap.mp h
  split at he <;> simp_all

def runFailure? : Option RunResult → Option LoadFailure
  | some (.error failure) => some failure
  | _ => none

/-! A program whose `main` keeps the error of one import, catches that of another and throws the
first. -/

namespace Rethrown

def statement (kind : String) (members : List (String × Json)) : Json :=
  .object (("do", .string kind) :: members)

def attempt (specifier : String) (rescue : List Json) : Json :=
  statement "try" [
    ("body", .array [statement "import" [("value", .string specifier)]]), ("catch", .array rescue)]

def valueOf (name : String) : Json := .object [("var", .string name)]

def program : Json := .object [("main", .string "async"), ("main_body", .array [
  statement "let" [("as", .string "first"), ("value", .null)],
  attempt "./a.js" [statement "set" [("as", .string "first"), ("value", valueOf "e")]],
  attempt "./b.js" [],
  statement "throw" [("value", valueOf "first")]])]

def sources : Sources where
  provider := .single (.memory none true)
  memory := ⟨[("file:///app.js", ⟨.ok program.write, none⟩)]⟩
  files := .empty

def view : HostView :=
  ⟨⟨⟨"file".toList, some ⟨[], none, none⟩, .rooted [[]], none⟩⟩, ["zoe", "app.js"]⟩

def state : State := start default sources view

theorem reached : Reached state := .start _ default sources view

def missing (name : String) : ImportFailure := ⟨name, .notFound name⟩

def error (name : String) : ErrorValue :=
  ⟨"ReferenceError", s!"Error loading module '{name}': Cannot find module '{name}'", none, some ""⟩

def first : ImportFailure := missing "file:///a.js"

def thrown : Value := .error 18 (error "file:///a.js")

set_option maxRecDepth 100000 in
theorem seen :
    errorsOf (runWithin 0 state view).1.trail = [
      (some first, 18, error "file:///a.js"),
      (some (missing "file:///b.js"), 19, error "file:///b.js"),
      (none, 18, error "file:///a.js")] ∧
    runFailure? (runWithin 0 state view).2.result = some (.entryFailed "file:///app.js"
      "Error: Error loading module 'file:///a.js': Cannot find module 'file:///a.js'\n") := by
  decide +kernel

theorem failed : .importFailed first thrown ∈ (runWithin 0 state view).1.trail :=
  importFailed_of_errorsOf (by rw [seen.1]; simp)

theorem escaped : .escaped thrown ∈ (runWithin 0 state view).1.trail.drop state.trail.length := by
  have h : .escaped thrown ∈ (runWithin 0 state view).1.trail :=
    escaped_of_errorsOf (by rw [seen.1]; simp)
  have hs : state.trail.length = 0 := rfl
  rw [hs, List.drop_zero]
  exact h

end Rethrown

/-- When the error of a failed import escapes, it was thrown for no other import, and the run
fails with the failure of this import exactly if the failure of the last import in the phase is
the same and the report names that one, or if none is blamed and the text alone makes the same. -/
theorem escaped_import_failure {s : State} (hs : Reached s) {duration : Nat} {view : HostView}
    {v : Value} {i : ImportFailure}
    (escaped : .escaped v ∈ (runWithin duration s view).1.trail.drop s.trail.length)
    (thrown : .importFailed i v ∈ (runWithin duration s view).1.trail) :
    (∀ j, .importFailed j v ∈ (runWithin duration s view).1.trail → j = i) ∧
      ∃ p, Phase.last? (runWithin duration s view).1.trail = some p ∧
        ((runWithin duration s view).2.result = some (.error i.failure) ↔
          (∃ last, p.blamed? v = some last ∧ last.failure = i.failure) ∨
            p.blamed? v = none ∧ ownFailure p.module p.isMain v.report = i.failure) := by
  have hn : Numbered (runWithin duration s view).1 := reached_numbered (.ran duration view hs)
  refine ⟨fun j hj => hn.unique i j v thrown hj, ?_⟩
  obtain ⟨earlier, p, ht, hr⟩ := escape_verdict escaped
  refine ⟨p, ?_, ?_⟩
  · rw [ht, ← List.append_assoc]
    exact p.last?_escape _ v
  · rw [hr, ← p.verdict_eq_iff]
    simp

section Rethrown

open Rethrown

/-- The error of the first import escapes, and the run does not fail with its failure. -/
theorem first_failure_lost : ∃ i v, .importFailed i v ∈ (runWithin 0 state view).1.trail ∧
    .escaped v ∈ (runWithin 0 state view).1.trail.drop state.trail.length ∧
    (runWithin 0 state view).2.result ≠ some (.error i.failure) := by
  refine ⟨first, thrown, failed, escaped, fun h => ?_⟩
  have hf := seen.2
  rw [h] at hf
  simp [runFailure?, first, missing] at hf

theorem first_failure_condition :
    .escaped thrown ∈ (runWithin 0 state view).1.trail.drop state.trail.length ∧
    .importFailed first thrown ∈ (runWithin 0 state view).1.trail ∧
    (∀ j, .importFailed j thrown ∈ (runWithin 0 state view).1.trail → j = first) ∧
    ∃ p, Phase.last? (runWithin 0 state view).1.trail = some p ∧
      ((runWithin 0 state view).2.result = some (.error first.failure) ↔
        (∃ last, p.blamed? thrown = some last ∧ last.failure = first.failure) ∨
          p.blamed? thrown = none ∧
            ownFailure p.module p.isMain thrown.report = first.failure) :=
  ⟨escaped, failed, escaped_import_failure reached escaped failed⟩

end Rethrown

section Complaints

theorem isPrefixOf_append (part rest : List Char) : part.isPrefixOf (part ++ rest) = true := by
  induction part with
  | nil => rfl
  | cons c part ih => simp [ih]

theorem occursIn_append (before part after : List Char) :
    occursIn part (before ++ (part ++ after)) = true := by
  induction before with
  | nil =>
    rw [List.nil_append]
    cases h : part ++ after with
    | nil =>
      have hp : part = [] := (List.append_eq_nil_iff.mp h).1
      simp [occursIn, hp]
    | cons c rest => simp [occursIn, ← h, isPrefixOf_append]
  | cons c before ih => simp [occursIn, ih]

theorem contains_append (before part after : String) :
    contains (before ++ part ++ after) part = true := by
  have h := occursIn_append before.toList part.toList after.toList
  simpa [contains] using h

theorem cut_append (before after : String)
    (h : (Utf8.encodeString before).length ≤ longestComplaint) :
    ∃ rest, cut (before ++ after) = before ++ rest := by
  have he : Utf8.encodeString (before ++ after) =
      Utf8.encodeString before ++ Utf8.encodeString after := by
    simp [Utf8.encodeString, Utf8.encode]
  refine ⟨Utf8.textLossy ((Utf8.encodeString after).take
    (longestComplaint - (Utf8.encodeString before).length)), ?_⟩
  rw [cut, he, List.take_append, List.take_of_length_le h, Utf8.textLossy, Utf8.encodeString,
    Utf8.decodeLossy_encode_append]
  simp [Utf8.textLossy]

theorem report_importError {name complaint : String} (ref : Nat) (failure : LoadFailure)
    (hc : Names complaint name)
    (short : (Utf8.encodeString name).length ≤ longestComplaint - longestOpening) :
    contains (importError ref complaint failure).report name = true := by
  obtain ⟨before, after, rfl, hb⟩ := hc
  have hl : (Utf8.encodeString (before ++ name)).length ≤ longestComplaint := by
    have h : (Utf8.encodeString (before ++ name)).length =
        (Utf8.encodeString before).length + (Utf8.encodeString name).length := by
      simp [Utf8.encodeString, Utf8.encode]
    simp only [longestComplaint, longestOpening] at *
    omega
  obtain ⟨rest, hr⟩ := cut_append (before ++ name) (after ++ ": " ++ failure.message) hl
  have ht : (importError ref (before ++ name ++ after) failure).report =
      "Error: " ++ before ++ name ++ (rest ++ "\n" ++ Value.noTrace) := by
    have hm : cut s!"{before ++ name ++ after}: {failure.message}" = before ++ name ++ rest := by
      rw [← hr]
      simp [toString, String.append_assoc]
    simp only [importError, Value.report, hm]
    simp [toString, String.append_assoc]
  rw [ht]
  exact contains_append _ _ _

end Complaints

/-- When the import that failed last is the one whose error escapes and its name is not too long,
the run fails with the failure of this import. -/
theorem last_import_failure_kept {s : State} (hs : Reached s) {duration : Nat} {view : HostView}
    {v : Value} {i : ImportFailure}
    (escaped : .escaped v ∈ (runWithin duration s view).1.trail.drop s.trail.length)
    (last : [.importFailed i v, .escaped v] <:+ (runWithin duration s view).1.trail)
    (short : (Utf8.encodeString i.name).length ≤ longestComplaint - longestOpening) :
    (runWithin duration s view).2.result = some (.error i.failure) := by
  obtain ⟨before, hb⟩ := last
  have hn : Numbered (runWithin duration s view).1 := reached_numbered (.ran duration view hs)
  obtain ⟨ref, complaint, -, rfl, hc⟩ := hn.made i v (by rw [← hb]; simp)
  obtain ⟨earlier, p, ht, hr⟩ := escape_verdict escaped
  have hl : p.failed.getLast? = some (i, importError ref complaint i.failure) := by
    rw [ht, ← List.append_assoc] at hb
    exact p.failed_getLast? hb
  have hv : p.blamed? (importError ref complaint i.failure) = some i := by
    simp [Phase.blamed?, hl, Option.filter, report_importError ref i.failure hc short]
  rw [hr]
  simp [Phase.verdict, hv]

end ScriptHost.Engine
