import Mathlib.Data.List.Induction
import ScriptHost.Proofs.Association
import ScriptHost.Proofs.Module.Identity
import ScriptHost.Source.Provider

/-!
# The provider of a scheme

Schemes are registered in any case and looked up as they stand in an identifier,
which is in lower case, since the identifier was read, resolved or converted. So
of all that was registered the last one for the scheme of an identifier answers
for it, however it is asked, and nobody else is asked.
-/

set_option autoImplicit false

namespace ScriptHost

namespace ModuleId

theorem Obtained.lower_scheme {id : ModuleId} (h : id.Obtained) :
    Ascii.lowerString id.scheme = id.scheme := by
  rw [Ascii.lowerString, scheme, String.toList_ofList, h.written.named.lower]

end ModuleId

/-- Schemes that differ in case at most. -/
def SameScheme (a b : String) : Prop := Ascii.lowerString a = Ascii.lowerString b

instance decidableSameScheme (a b : String) : Decidable (SameScheme a b) :=
  inferInstanceAs (Decidable (_ = _))

namespace SchemeTable

variable {P X : Type} {calls : List (String × P)} {scheme text : String} {p : P}
  {found : Option P} {id : ModuleId}

def ofCalls (calls : List (String × P)) : SchemeTable P :=
  calls.foldl (fun table call => table.register call.1 call.2) empty

/-- Who was registered last for a scheme. -/
inductive LastFor (calls : List (String × P)) (scheme : String) : Option P → Prop
  | registered (before after : List (String × P)) (text : String) (p : P)
      (split : calls = before ++ (text, p) :: after) (same : SameScheme text scheme)
      (later : ∀ call ∈ after, ¬ SameScheme call.1 scheme) : LastFor calls scheme (some p)
  | nobody (never : ∀ call ∈ calls, ¬ SameScheme call.1 scheme) : LastFor calls scheme none

theorem LastFor.other (h : LastFor calls scheme found) (other : ¬ SameScheme text scheme) :
    LastFor (calls ++ [(text, p)]) scheme found := by
  cases h with
  | registered before after name q split same later =>
    refine .registered before (after ++ [(text, p)]) name q (by simp [split]) same ?_
    exact List.forall_mem_append.mpr ⟨later, List.forall_mem_singleton.mpr other⟩
  | nobody never =>
    exact .nobody (List.forall_mem_append.mpr ⟨never, List.forall_mem_singleton.mpr other⟩)

theorem lookup_register (table : SchemeTable P) (text : String) (p : P)
    (lower : Ascii.lowerString scheme = scheme) : (table.register text p).lookup scheme =
      if SameScheme text scheme then some p else table.lookup scheme := by
  have same : scheme = Ascii.lowerString text ↔ SameScheme text scheme := by
    rw [SameScheme, lower, eq_comm]
  simp only [register, Association.lookup_cons, Association.lookup_removed, same]
  split <;> rfl

theorem ofCalls_append (calls : List (String × P)) (text : String) (p : P) :
    ofCalls (calls ++ [(text, p)]) = (ofCalls calls).register text p := by
  rw [ofCalls, List.foldl_append]
  rfl

theorem lookup_ofCalls (calls : List (String × P)) (lower : Ascii.lowerString scheme = scheme) :
    LastFor calls scheme ((ofCalls calls).lookup scheme) := by
  induction calls using List.reverseRecOn with
  | nil => exact .nobody (by simp)
  | append_singleton calls call ih =>
    obtain ⟨text, p⟩ := call
    rw [ofCalls_append, lookup_register _ _ _ lower]
    by_cases same : SameScheme text scheme
    · rw [if_pos same]
      exact .registered calls [] text p rfl same (by simp)
    · rw [if_neg same]
      exact ih.other same

theorem ask_some {table : SchemeTable P} (h : table.lookup id.scheme = some p)
    (refuse : LoadFailure → X) (question : P → ModuleId → X) :
    table.ask refuse question id = question p id := by
  rw [ask, provider, h]

theorem ask_none {table : SchemeTable P} (h : table.lookup id.scheme = none)
    (refuse : LoadFailure → X) (question : P → ModuleId → X) :
    table.ask refuse question id = refuse (.unsupportedScheme id.text id.scheme) := by
  rw [ask, provider, h]
  rfl

theorem ask_register (table : SchemeTable P) (ho : id.Obtained)
    (other : ¬ SameScheme text id.scheme) (p : P) (refuse : LoadFailure → X)
    (question : P → ModuleId → X) :
    (table.register text p).ask refuse question id = table.ask refuse question id := by
  have same : (table.register text p).lookup id.scheme = table.lookup id.scheme := by
    rw [lookup_register _ _ _ ho.lower_scheme, if_neg other]
  rw [ask, ask, provider, provider, same]

end SchemeTable

namespace Provider

theorem storeIn_eq (entries : List (String × Provider)) (id : ModuleId) :
    storeIn entries id = SchemeTable.ask entries .error store? id := by
  induction entries with
  | nil =>
    rw [storeIn]
    rfl
  | cons entry rest ih =>
    obtain ⟨scheme, provider⟩ := entry
    rw [storeIn, ih]
    simp only [SchemeTable.ask, SchemeTable.provider, Association.lookup_cons,
      eq_comm (a := id.scheme)]
    split <;> rfl

end Provider

namespace Sources

def refused (failure : LoadFailure) : LoadResult String × List Enquiry := (.error failure, [])

theorem fetch_table (s : Sources) (entries : List (String × Provider)) (id : ModuleId) :
    { s with provider := .table entries }.fetch id =
      SchemeTable.ask entries refused (fun p id => { s with provider := p }.fetch id) id := by
  unfold fetch SchemeTable.ask
  simp only [Provider.store?, Provider.storeIn_eq, SchemeTable.ask]
  cases SchemeTable.provider entries id <;> rfl

theorem fetchInstantly_table (s : Sources) (entries : List (String × Provider)) (id : ModuleId) :
    { s with provider := .table entries }.fetchInstantly id =
      SchemeTable.ask entries refused
        (fun p id => { s with provider := p }.fetchInstantly id) id := by
  unfold fetchInstantly SchemeTable.ask
  simp only [Provider.store?, Provider.storeIn_eq, SchemeTable.ask]
  cases SchemeTable.provider entries id <;> rfl

end Sources

namespace SchemeTable

/-- Of all providers that were registered the last one for the scheme of an identifier, in any case,
answers for it with a wait and at once, and is the only one asked. Without one both questions fail
with the identifier and its scheme. Registering for another scheme makes no difference. The stores
of the host are providers like any others. -/
theorem last_registered_answers {id : ModuleId} (h : id.Obtained) :
    (∀ (A B : Type) (refuse : LoadFailure → A) (refuseInstantly : LoadFailure → B)
      (calls : List (String × Retrieval A B)),
      ∃ found, LastFor calls id.scheme found ∧
        ((ofCalls calls).retrieval refuse refuseInstantly).fetch id =
          found.elim (refuse (.unsupportedScheme id.text id.scheme)) (·.fetch id) ∧
        ((ofCalls calls).retrieval refuse refuseInstantly).fetchInstantly id =
          found.elim (refuseInstantly (.unsupportedScheme id.text id.scheme))
            (·.fetchInstantly id) ∧
        (ofCalls calls).ask (fun _ => []) (fun p asked => [(p, asked)]) id =
          found.toList.map (·, id) ∧
        ((ofCalls calls).provider id = .error (.unsupportedScheme id.text id.scheme) ↔
          found = none)) ∧
    (∀ (A B : Type) (refuse : LoadFailure → A) (refuseInstantly : LoadFailure → B)
      (table : SchemeTable (Retrieval A B)) (text : String) (p : Retrieval A B),
      ¬ SameScheme text id.scheme →
        ((table.register text p).retrieval refuse refuseInstantly).fetch id =
          (table.retrieval refuse refuseInstantly).fetch id ∧
        ((table.register text p).retrieval refuse refuseInstantly).fetchInstantly id =
          (table.retrieval refuse refuseInstantly).fetchInstantly id) ∧
    ∀ (s : Sources) (calls : List (String × Provider)), ∃ found, LastFor calls id.scheme found ∧
      { s with provider := .table (ofCalls calls) }.fetch id =
        found.elim (.error (.unsupportedScheme id.text id.scheme), [])
          (fun p => { s with provider := p }.fetch id) ∧
      { s with provider := .table (ofCalls calls) }.fetchInstantly id =
        found.elim (.error (.unsupportedScheme id.text id.scheme), [])
          (fun p => { s with provider := p }.fetchInstantly id) := by
  refine ⟨fun A B refuse refuseInstantly calls => ?_, fun A B refuse refuseInstantly table text p
    other => ⟨ask_register table h other p _ _, ask_register table h other p _ _⟩,
    fun s calls => ?_⟩
  · refine ⟨_, lookup_ofCalls calls h.lower_scheme, ?_⟩
    cases found : (ofCalls calls).lookup id.scheme with
    | some p =>
      refine ⟨ask_some found _ _, ask_some found _ _, ask_some found _ _, ?_⟩
      simp [provider, found]
    | none =>
      refine ⟨ask_none found _ _, ask_none found _ _, ask_none found _ _, ?_⟩
      simp [provider, found, Provider.unsupported]
  · refine ⟨_, lookup_ofCalls calls h.lower_scheme, ?_⟩
    rw [Sources.fetch_table, Sources.fetchInstantly_table]
    cases found : (ofCalls calls).lookup id.scheme with
    | some p => exact ⟨ask_some found _ _, ask_some found _ _⟩
    | none => exact ⟨ask_none found _ _, ask_none found _ _⟩

/-- A scheme in capitals takes the place of the same one in lower case, and registering for another
scheme changes nothing. -/
theorem capital_scheme_answers : ∃ (id : ModuleId) (calls : List (String × Retrieval Nat Nat))
    (found : Option (Retrieval Nat Nat)), ModuleId.parse "Mem:a" = .ok id ∧ id.Obtained ∧
      calls = [("mem", ⟨fun _ => 1, fun _ => 2⟩), ("MEM", ⟨fun _ => 3, fun _ => 4⟩),
        ("file", ⟨fun _ => 5, fun _ => 6⟩)] ∧
      LastFor calls id.scheme found ∧ found.elim 0 (·.fetch id) = 3 ∧
      found.elim 0 (·.fetchInstantly id) = 4 ∧ ¬ SameScheme "meme" id.scheme ∧
      (((ofCalls calls).register "meme" ⟨fun _ => 7, fun _ => 8⟩).retrieval (fun _ => 0)
        (fun _ => 0)).fetch id = 3 := by
  let id : ModuleId := ⟨⟨"mem".toList, none, .rootless "a".toList, none⟩⟩
  let calls : List (String × Retrieval Nat Nat) := [("mem", ⟨fun _ => 1, fun _ => 2⟩),
    ("MEM", ⟨fun _ => 3, fun _ => 4⟩), ("file", ⟨fun _ => 5, fun _ => 6⟩)]
  have parsed : ModuleId.parse "Mem:a" = .ok id := by decide +kernel
  have other : ¬ SameScheme "meme" id.scheme := by decide +kernel
  obtain ⟨answers, unchanged, -⟩ := last_registered_answers (.parse parsed)
  obtain ⟨found, last, fetched, instantly, -⟩ :=
    answers Nat Nat (fun _ => 0) (fun _ => 0) calls
  have kept := (unchanged Nat Nat (fun _ => 0) (fun _ => 0) (ofCalls calls) "meme"
    ⟨fun _ => 7, fun _ => 8⟩ other).1
  exact ⟨id, calls, found, parsed, .parse parsed, rfl, last, fetched.symm.trans (by decide +kernel),
    instantly.symm.trans (by decide +kernel), other, kept.trans (by decide +kernel)⟩

end SchemeTable

end ScriptHost
