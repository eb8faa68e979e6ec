import Mathlib
import ScriptHost.Proofs.Config.Layers
import ScriptHost.Proofs.Text.Pieces

/-!
# Merging texts into a configuration

A text is taken as a whole or refused as a whole. It is taken if it is an object
in which the last value of every field it mentions suits the field, and then these
values replace the ones that are there. So after any texts a field has the value
of the last taken text that mentions it. An overlay is the same as writing the
configuration out, appending the members of the object and reading everything
again over the defaults.
-/

set_option autoImplicit false

namespace ScriptHost

namespace Json

variable {name : String} {value : Json} {members : List (String × Json)}

def IsLast (members : List (String × Json)) (name : String) (value : Json) : Prop :=
  ∃ before after, members = before ++ (name, value) :: after ∧ ∀ m ∈ after, m.1 ≠ name

theorem lookup_eq_none_iff : lookup name members = none ↔ ∀ m ∈ members, m.1 ≠ name := by
  induction members with
  | nil => simp [lookup]
  | cons m rest ih =>
    obtain ⟨n, v⟩ := m
    rw [lookup, List.forall_mem_cons]
    cases found : lookup name rest with
    | some later =>
      rw [found] at ih
      simpa using fun _ => ih.not.mp (by simp)
    | none =>
      rw [found] at ih
      have absent := ih.mp rfl
      by_cases h : n = name
      · simp [h]
      · simpa [h] using absent

theorem lookup_eq_some_iff : lookup name members = some value ↔ IsLast members name value := by
  induction members with
  | nil => simp [lookup, IsLast]
  | cons m rest ih =>
    obtain ⟨n, v⟩ := m
    rw [lookup]
    constructor
    · intro h
      cases found : lookup name rest with
      | some later =>
        rw [found] at h
        obtain rfl := Option.some.inj h
        obtain ⟨before, after, rfl, last⟩ := ih.mp found
        exact ⟨(n, v) :: before, after, rfl, last⟩
      | none =>
        simp only [found, Option.ite_none_right_eq_some, Option.some.injEq] at h
        obtain ⟨rfl, rfl⟩ := h
        exact ⟨[], rest, rfl, lookup_eq_none_iff.mp found⟩
    · rintro ⟨before, after, split, last⟩
      cases before with
      | nil =>
        obtain ⟨same, rfl⟩ := List.cons.inj split
        cases same
        rw [lookup_eq_none_iff.mpr last]
        simp
      | cons first before =>
        obtain ⟨-, rfl⟩ := List.cons.inj split
        rw [ih.mpr ⟨before, after, rfl, last⟩]

theorem lookup_filter (keep : String → Bool) (h : keep name = true) :
    lookup name (members.filter (keep ·.1)) = lookup name members := by
  induction members with
  | nil => rfl
  | cons m rest ih =>
    obtain ⟨n, v⟩ := m
    rw [List.filter_cons]
    by_cases kept : keep n = true
    · rw [if_pos kept, lookup, lookup, ih]
    · have other : n ≠ name := fun he => kept (he ▸ h)
      rw [if_neg kept, ih, lookup, if_neg other]
      cases lookup name rest <;> rfl

theorem lookup_append (front back : List (String × Json)) :
    lookup name (front ++ back) = (lookup name back).or (lookup name front) := by
  induction front with
  | nil => simp [lookup]
  | cons m front ih =>
    obtain ⟨n, v⟩ := m
    rw [List.cons_append, lookup, ih, lookup]
    cases lookup name back with
    | some later => rfl
    | none => rfl

end Json

namespace Config

section Fields

inductive Field where
  | runtimeName
  | description
  | entryMode
  deriving DecidableEq, Repr

namespace Field

def name : Field → String
  | .runtimeName => "runtime_name"
  | .description => "description"
  | .entryMode => "entry_mode"

abbrev Value : Field → Type
  | .runtimeName | .description => String
  | .entryMode => EntryMode

/-- The values of a text that suit a field, and what they stand for. A mode is its name, or an
object that has only this name, with no value the last time. -/
inductive Takes : (f : Field) → Json → f.Value → Prop
  | runtimeName (s : String) : Takes .runtimeName (.string s) s
  | description (s : String) : Takes .description (.string s) s
  | modeName (mode : EntryMode) : Takes .entryMode (.string mode.name) mode
  | modeObject (mode : EntryMode) (members : List (String × Json))
      (only : ∀ m ∈ members, m.1 = mode.name)
      (last : members.getLast? = some (mode.name, .null)) :
    Takes .entryMode (.object members) mode

def read : (f : Field) → Json → Except String f.Value
  | .runtimeName | .description => textOf
  | .entryMode => modeOf

end Field

def get (config : Config) : (f : Field) → f.Value
  | .runtimeName => config.runtimeName
  | .description => config.description
  | .entryMode => config.entryMode

variable {config other : Config} {f : Field} {value : Json} {members : List (String × Json)}
  {mode : EntryMode}

theorem ext_get (h : ∀ f, config.get f = other.get f) : config = other := by
  obtain ⟨name, description, mode⟩ := config
  obtain ⟨name', description', mode'⟩ := other
  obtain rfl : name = name' := h .runtimeName
  obtain rfl : description = description' := h .description
  obtain rfl : mode = mode' := h .entryMode
  rfl

theorem lastValues_eq_nil : lastValues members = [] ↔ members = [] := by
  induction members with
  | nil => simp [lastValues]
  | cons m rest ih =>
    rw [lastValues]
    split
    · next repeated =>
      have hne : rest ≠ [] := by
        rintro rfl
        simp at repeated
      simp [ih, hne]
    · simp

theorem lastValues_eq_singleton {name : String} : lastValues members = [(name, value)] ↔
    (∀ m ∈ members, m.1 = name) ∧ members.getLast? = some (name, value) := by
  induction members with
  | nil => simp [lastValues]
  | cons m rest ih =>
    obtain ⟨n, v⟩ := m
    rw [lastValues, List.forall_mem_cons]
    split
    · next repeated =>
      obtain ⟨m, hm, hn⟩ := List.any_eq_true.mp repeated
      have hn : m.1 = n := by simpa using hn
      have hne : rest ≠ [] := List.ne_nil_of_mem hm
      rw [ih, List.getLast?_cons_of_ne_nil hne]
      exact ⟨fun ⟨only, last⟩ => ⟨⟨hn.symm.trans (only m hm), only⟩, last⟩,
        fun ⟨only, last⟩ => ⟨only.2, last⟩⟩
    · next single =>
      constructor
      · intro h
        obtain ⟨same, none⟩ := List.cons.inj h
        cases same
        rw [lastValues_eq_nil.mp none]
        simp
      · rintro ⟨⟨rfl, only⟩, last⟩
        cases rest with
        | nil =>
          cases last
          rfl
        | cons m rest => exact (single (by simp [only m])).elim

theorem textOf_eq_ok {s : String} : textOf value = .ok s ↔ value = .string s := by
  cases value <;> simp [textOf]

theorem name_injective : Function.Injective EntryMode.name := by
  intro a b same
  rw [← Layer.ofName?_eq_some_iff, Layer.ofName?_eq_some_iff.mpr rfl] at same
  exact Option.some.inj same

theorem modeNamed_eq_ok {s : String} : modeNamed s = .ok mode ↔ s = mode.name := by
  rw [modeNamed, ← Layer.ofName?_eq_some_iff]
  cases EntryMode.ofName? s <;> simp

theorem modeOf_object : modeOf (.object members) = .ok mode ↔
    lastValues members = [(mode.name, .null)] := by
  unfold modeOf
  simp only
  split
  · next name value single =>
    rw [single]
    cases named : modeNamed name with
    | error text =>
      simp only [reduceCtorEq, List.cons.injEq, Prod.mk.injEq, and_true, false_iff, not_and]
      rintro rfl
      rw [modeNamed_eq_ok.mpr rfl] at named
      cases named
    | ok read =>
      obtain rfl := modeNamed_eq_ok.mp named
      cases value <;> simp [name_injective.eq_iff]
  · next other =>
    simp only [reduceCtorEq, false_iff]
    exact other mode.name .null

theorem read_eq_ok {v : f.Value} : f.read value = .ok v ↔ f.Takes value v := by
  cases f with
  | runtimeName =>
    refine textOf_eq_ok.trans ⟨?_, ?_⟩
    · rintro rfl
      exact .runtimeName v
    · rintro ⟨⟩
      rfl
  | description =>
    refine textOf_eq_ok.trans ⟨?_, ?_⟩
    · rintro rfl
      exact .description v
    · rintro ⟨⟩
      rfl
  | entryMode =>
    constructor
    · intro h
      cases value with
      | string s =>
        obtain rfl := modeNamed_eq_ok.mp h
        exact .modeName v
      | object members =>
        obtain ⟨only, last⟩ := lastValues_eq_singleton.mp (modeOf_object.mp h)
        exact .modeObject v members only last
      | null | bool _ | number _ | array _ => cases h
    · intro h
      cases h with
      | modeName => exact modeNamed_eq_ok.mpr rfl
      | modeObject _ members only last =>
        exact modeOf_object.mpr (lastValues_eq_singleton.mpr ⟨only, last⟩)

end Fields

section Objects

variable {config other merged : Config} {f : Field} {members : List (String × Json)}

def Mentions (members : List (String × Json)) (f : Field) : Prop := ∃ m ∈ members, m.1 = f.name

instance decidableMentions (members : List (String × Json)) (f : Field) :
    Decidable (Mentions members f) :=
  decidable_of_iff (f.name ∈ members.map (·.1)) List.mem_map

/-- The last values of an object suit the fields that it mentions. -/
def Suits (members : List (String × Json)) : Prop :=
  ∀ (f : Field) (value : Json), Json.IsLast members f.name value → ∃ v, f.Takes value v

theorem not_mentions : ¬ Mentions members f ↔ Json.lookup f.name members = none := by
  simp only [Json.lookup_eq_none_iff, Mentions, not_exists, not_and, ne_eq]

def overlaidField (config : Config) (members : List (String × Json)) (f : Field) :
    Except String f.Value :=
  overlaid members f.name f.read (config.get f)

theorem overlaidField_eq_ok {v : f.Value} : config.overlaidField members f = .ok v ↔
    (∃ value, Json.IsLast members f.name value ∧ f.Takes value v) ∨
      ¬ Mentions members f ∧ v = config.get f := by
  simp only [overlaidField, overlaid, not_mentions, ← Json.lookup_eq_some_iff, ← read_eq_ok]
  cases Json.lookup f.name members with
  | some value => simp
  | none => simp [eq_comm]

theorem overlay_fields (config : Config) (members : List (String × Json)) :
    config.overlay members = (do
      let description ← config.overlaidField members .description
      let entryMode ← config.overlaidField members .entryMode
      let runtimeName ← config.overlaidField members .runtimeName
      return ⟨runtimeName, description, entryMode⟩) := rfl

theorem overlay_eq_ok : config.overlay members = .ok merged ↔
    ∀ f, config.overlaidField members f = .ok (merged.get f) := by
  constructor
  · intro h f
    rw [overlay_fields] at h
    obtain ⟨description, hdescription, h⟩ := ok_of_bind h
    obtain ⟨mode, hmode, h⟩ := ok_of_bind h
    obtain ⟨name, hname, h⟩ := ok_of_bind h
    cases h
    cases f <;> assumption
  · intro h
    rw [overlay_fields, h .description, h .entryMode, h .runtimeName]
    rfl

theorem overlay_congr {others : List (String × Json)}
    (h : ∀ f, config.overlaidField members f = other.overlaidField others f) :
    config.overlay members = other.overlay others := by
  rw [overlay_fields, overlay_fields, h, h, h]

theorem get_of_absent (absent : ¬ Mentions members f) (h : config.overlay members = .ok merged) :
    merged.get f = config.get f := by
  have field := overlay_eq_ok.mp h f
  rw [overlaidField_eq_ok.mpr (.inr ⟨absent, rfl⟩)] at field
  exact (Except.ok.inj field).symm

theorem get_congr {merged' : Config} (same : config.get f = other.get f)
    (h : config.overlay members = .ok merged) (h' : other.overlay members = .ok merged') :
    merged.get f = merged'.get f := by
  have field := overlay_eq_ok.mp h f
  rw [overlaidField, same, ← overlaidField, overlay_eq_ok.mp h' f] at field
  exact (Except.ok.inj field).symm

theorem overlay_suits : (∃ merged, config.overlay members = .ok merged) ↔ Suits members := by
  constructor
  · rintro ⟨merged, h⟩ f value last
    rcases overlaidField_eq_ok.mp (overlay_eq_ok.mp h f) with ⟨other, last', takes⟩ | ⟨absent, -⟩
    · rw [← Json.lookup_eq_some_iff] at last last'
      obtain rfl := Option.some.inj (last.symm.trans last')
      exact ⟨_, takes⟩
    · rw [not_mentions, Json.lookup_eq_some_iff.mpr last] at absent
      cases absent
  · intro suits
    have each (f : Field) : ∃ v, config.overlaidField members f = .ok v := by
      cases found : Json.lookup f.name members with
      | none => exact ⟨_, overlaidField_eq_ok.mpr (.inr ⟨not_mentions.mpr found, rfl⟩)⟩
      | some value =>
        have last := Json.lookup_eq_some_iff.mp found
        obtain ⟨v, takes⟩ := suits f value last
        exact ⟨v, overlaidField_eq_ok.mpr (.inl ⟨value, last, takes⟩)⟩
    obtain ⟨name, hname⟩ := each .runtimeName
    obtain ⟨description, hdescription⟩ := each .description
    obtain ⟨mode, hmode⟩ := each .entryMode
    refine ⟨⟨name, description, mode⟩, overlay_eq_ok.mpr fun f => ?_⟩
    cases f <;> assumption

/-- Overlaying once more changes nothing. -/
theorem overlay_again (h : config.overlay members = .ok merged) :
    merged.overlay members = .ok merged := by
  refine overlay_eq_ok.mpr fun f => ?_
  rcases overlaidField_eq_ok.mp (overlay_eq_ok.mp h f) with taken | ⟨absent, -⟩
  · exact overlaidField_eq_ok.mpr (.inl taken)
  · exact overlaidField_eq_ok.mpr (.inr ⟨absent, rfl⟩)

theorem overlay_comm {others : List (String × Json)} {a b c d : Config}
    (disjoint : ∀ f, ¬ (Mentions members f ∧ Mentions others f))
    (ha : config.overlay members = .ok a) (hb : a.overlay others = .ok b)
    (hc : config.overlay others = .ok c) (hd : c.overlay members = .ok d) : b = d := by
  refine ext_get fun f => ?_
  rcases not_and_or.mp (disjoint f) with absent | absent
  · calc b.get f = c.get f := get_congr (get_of_absent absent ha) hb hc
      _ = d.get f := (get_of_absent absent hd).symm
  · calc b.get f = a.get f := get_of_absent absent hb
      _ = d.get f := get_congr (get_of_absent absent hc).symm ha hd

def written (config : Config) : List (String × Json) :=
  [("runtime_name", .string config.runtimeName), ("description", .string config.description),
    ("entry_mode", .string config.entryMode.name)]

theorem read_written (config : Config) (f : Field) : ∃ value,
    Json.lookup f.name config.written = some value ∧ f.read value = .ok (config.get f) := by
  cases f with
  | runtimeName => exact ⟨_, rfl, rfl⟩
  | description => exact ⟨_, rfl, rfl⟩
  | entryMode => exact ⟨.string config.entryMode.name, rfl, modeNamed_eq_ok.mpr rfl⟩

/-- An overlay writes the configuration out, appends the members and reads everything again. -/
theorem overlay_reread (config : Config) (members : List (String × Json)) :
    config.overlay members = initial.overlay (config.written ++ members) := by
  refine overlay_congr fun f => ?_
  obtain ⟨value, found, read⟩ := config.read_written f
  rw [overlaidField, overlaidField, overlaid, overlaid, Json.lookup_append, found]
  cases Json.lookup f.name members with
  | some later => rfl
  | none => exact read.symm

end Objects

section Texts

variable {config merged : Config} {f : Field} {text : String} {texts : List String}
  {members : List (String × Json)}

/-- A text that is merged: an object whose last values suit the fields it mentions. -/
structure Taken (text : String) (members : List (String × Json)) : Prop where
  object : Json.parse text = .ok (.object members)
  suits : Suits members

/-- Merge a text, or leave the configuration as it is and say why. -/
def attempt (config : Config) (text : String) : Config × Except String Unit :=
  match config.merge text with
  | .ok merged => (merged, .ok ())
  | .error message => (config, .error message)

/-- Merge texts in order, passing over those that are refused. -/
def mergeAll (config : Config) (texts : List String) : Config :=
  texts.foldl (fun config text => (config.attempt text).1) config

theorem merge_object (h : Json.parse text = .ok (.object members)) (config : Config) :
    config.merge text = config.overlay members := by
  rw [merge, h]

theorem attempt_taken (h : Taken text members) (config : Config) : ∃ merged,
    config.attempt text = (merged, .ok ()) ∧ config.overlay members = .ok merged := by
  obtain ⟨merged, overlaid⟩ : ∃ merged, config.overlay members = .ok merged :=
    overlay_suits.mpr h.suits
  refine ⟨merged, ?_, overlaid⟩
  rw [attempt, merge_object h.object, overlaid]

theorem attempt_refused (h : ∀ members, ¬ Taken text members) (config : Config) :
    ∃ message, config.attempt text = (config, .error message) := by
  cases merged : config.merge text with
  | error message => exact ⟨message, by rw [attempt, merged]⟩
  | ok result =>
    unfold merge at merged
    split at merged
    · cases merged
    · next members object =>
      exact (h members ⟨object, overlay_suits.mp ⟨result, merged⟩⟩).elim
    · cases merged

theorem attempt_ok_iff : (config.attempt text).2 = .ok () ↔ ∃ members, Taken text members := by
  by_cases h : ∃ members, Taken text members
  · obtain ⟨members, taken⟩ := h
    obtain ⟨merged, same, -⟩ := attempt_taken taken config
    simp only [same, true_iff]
    exact ⟨members, taken⟩
  · obtain ⟨message, same⟩ := attempt_refused (not_exists.mp h) config
    simp [same, h]

theorem attempt_again (config : Config) (text : String) :
    (config.attempt text).1.attempt text = config.attempt text := by
  by_cases h : ∃ members, Taken text members
  · obtain ⟨members, taken⟩ := h
    obtain ⟨merged, same, overlaid⟩ := attempt_taken taken config
    rw [same, attempt, merge_object taken.object, overlay_again overlaid]
  · obtain ⟨message, same⟩ := attempt_refused (not_exists.mp h) config
    rw [same, same]

theorem mergeAll_append (config : Config) (texts : List String) (text : String) :
    config.mergeAll (texts ++ [text]) = ((config.mergeAll texts).attempt text).1 := by
  rw [mergeAll, List.foldl_append]
  rfl

/-- Where the value of a field comes from after some texts: from the last taken one that mentions
the field, or from the start. -/
inductive Origin (config : Config) (texts : List String) (f : Field) : f.Value → Prop
  | text (before after : List String) (text : String) (members : List (String × Json))
      (value : Json) (v : f.Value) (split : texts = before ++ text :: after)
      (taken : Taken text members) (last : Json.IsLast members f.name value)
      (takes : f.Takes value v)
      (later : ∀ other ∈ after, ∀ members, Taken other members → ¬ Mentions members f) :
    Origin config texts f v
  | start (never : ∀ text ∈ texts, ∀ members, Taken text members → ¬ Mentions members f) :
    Origin config texts f (config.get f)

theorem Origin.passed {v : f.Value} (h : Origin config texts f v)
    (silent : ∀ members, Taken text members → ¬ Mentions members f) :
    Origin config (texts ++ [text]) f v := by
  cases h with
  | text before after source members value _ split taken last takes later =>
    refine .text before (after ++ [text]) source members value v (by simp [split]) taken last takes
      ?_
    exact List.forall_mem_append.mpr ⟨later, List.forall_mem_singleton.mpr silent⟩
  | start never =>
    exact .start (List.forall_mem_append.mpr ⟨never, List.forall_mem_singleton.mpr silent⟩)

theorem origin_attempt {current : Config} (text : String)
    (h : Origin config texts f (current.get f)) :
    Origin config (texts ++ [text]) f ((current.attempt text).1.get f) := by
  by_cases mentions : ∃ members, Taken text members ∧ Mentions members f
  · obtain ⟨members, taken, mentioned⟩ := mentions
    obtain ⟨merged, same, overlaid⟩ := attempt_taken taken current
    rw [same]
    rcases overlaidField_eq_ok.mp (overlay_eq_ok.mp overlaid f) with
      ⟨value, last, takes⟩ | ⟨absent, -⟩
    · exact .text texts [] text members value _ rfl taken last takes (by simp)
    · exact (absent mentioned).elim
  · have silent : ∀ members, Taken text members → ¬ Mentions members f :=
      fun members taken mentioned => mentions ⟨members, taken, mentioned⟩
    have kept : (current.attempt text).1.get f = current.get f := by
      by_cases taken : ∃ members, Taken text members
      · obtain ⟨members, taken⟩ := taken
        obtain ⟨merged, same, overlaid⟩ := attempt_taken taken current
        rw [same]
        exact get_of_absent (silent members taken) overlaid
      · obtain ⟨message, same⟩ := attempt_refused (not_exists.mp taken) current
        rw [same]
    rw [kept]
    exact h.passed silent

theorem mergeAll_origin (config : Config) (texts : List String) (f : Field) :
    Origin config texts f ((config.mergeAll texts).get f) := by
  induction texts using List.reverseRecOn with
  | nil => exact .start (by simp)
  | append_singleton texts text ih =>
    rw [mergeAll_append]
    exact origin_attempt text ih

def isKnown (name : String) : Bool :=
  name = "runtime_name" || name = "description" || name = "entry_mode"

theorem isKnown_name (f : Field) : isKnown f.name = true := by
  cases f <;> rfl

/-- Texts that differ in unknown names only are merged alike. -/
theorem attempt_known {other : String} {others : List (String × Json)}
    (h : Json.parse text = .ok (.object members)) (h' : Json.parse other = .ok (.object others))
    (same : members.filter (isKnown ·.1) = others.filter (isKnown ·.1)) (config : Config) :
    config.attempt text = config.attempt other := by
  have overlays : config.overlay members = config.overlay others := by
    refine overlay_congr fun f => ?_
    have values : Json.lookup f.name members = Json.lookup f.name others := by
      rw [← Json.lookup_filter isKnown (isKnown_name f), same,
        Json.lookup_filter isKnown (isKnown_name f)]
    rw [overlaidField, overlaidField, overlaid, overlaid, values]
  rw [attempt, attempt, merge_object h, merge_object h', overlays]

theorem mergeAll_comm {other : String} {others : List (String × Json)}
    (h : Taken text members) (h' : Taken other others)
    (disjoint : ∀ f, ¬ (Mentions members f ∧ Mentions others f)) (config : Config) :
    config.mergeAll [text, other] = config.mergeAll [other, text] := by
  obtain ⟨a, toA, ha⟩ := attempt_taken h config
  obtain ⟨b, toB, hb⟩ := attempt_taken h' a
  obtain ⟨c, toC, hc⟩ := attempt_taken h' config
  obtain ⟨d, toD, hd⟩ := attempt_taken h c
  have same : b = d := overlay_comm disjoint ha hb hc hd
  simp only [mergeAll, List.foldl_cons, List.foldl_nil, toA, toB, toC, toD, same]

/-- A text is merged exactly if it is an object whose last values suit the fields it mentions, and
otherwise nothing changes. In the end every field has the value of the last merged text that
mentions it. Names that are no fields do not count, a text merged again changes nothing, and texts
that mention different fields can be merged in any order. -/
theorem merged_texts (config : Config) :
    (∀ text, (config.attempt text).2 = .ok () ↔ ∃ members, Taken text members) ∧
    (∀ text message, (config.attempt text).2 = .error message →
      (config.attempt text).1 = config) ∧
    (∀ texts f, Origin config texts f ((config.mergeAll texts).get f)) ∧
    (∀ text other members others, Json.parse text = .ok (.object members) →
      Json.parse other = .ok (.object others) →
      members.filter (isKnown ·.1) = others.filter (isKnown ·.1) →
      config.attempt text = config.attempt other) ∧
    (∀ text, (config.attempt text).1.attempt text = config.attempt text) ∧
    (∀ text other members others, Taken text members → Taken other others →
      (∀ f, ¬ (Mentions members f ∧ Mentions others f)) →
      config.mergeAll [text, other] = config.mergeAll [other, text]) ∧
    ∀ members, config.overlay members = initial.overlay (config.written ++ members) := by
  refine ⟨fun text => attempt_ok_iff, fun text message failed => ?_, config.mergeAll_origin,
    fun text other members others h h' same => attempt_known h h' same config,
    config.attempt_again, fun text other members others h h' disjoint =>
      mergeAll_comm h h' disjoint config, config.overlay_reread⟩
  have refused : ∀ members, ¬ Taken text members := fun members taken => by
    rw [attempt_ok_iff.mpr ⟨members, taken⟩] at failed
    cases failed
  obtain ⟨message, same⟩ := attempt_refused refused config
  rw [same]

/-- Repeated names count the last time, and a value that does not suit its field is refused
together with one that does. -/
theorem repeated_names_merged : ∃ (config : Config) (mode text extra mixed message : String)
    (ms ts es : List (String × Json)), config.runtimeName = "zoe-dev" ∧
      mode = "\x7b\"entry_mode\":\x7b\"raw\":true,\"raw\":null\x7d\x7d" ∧
      text = "\x7b\"description\":null,\"description\":\"\\u0041\"\x7d" ∧
      extra = "\x7b\"description\":null,\"x\":[],\"description\":\"A\"\x7d" ∧
      mixed = "\x7b\"runtime_name\":\"b\",\"entry_mode\":\"sys\"\x7d" ∧
      Taken mode ms ∧ Taken text ts ∧ (∀ f, ¬ (Mentions ms f ∧ Mentions ts f)) ∧
      Json.parse text = .ok (.object ts) ∧ Json.parse extra = .ok (.object es) ∧
      ts.filter (isKnown ·.1) = es.filter (isKnown ·.1) ∧
      (config.attempt mixed).2 = .error message ∧ (config.attempt mixed).1 = config ∧
      config.attempt text = config.attempt extra ∧
      config.mergeAll [mode, text] = config.mergeAll [text, mode] ∧
      config.mergeAll [mode, mixed, text] = ⟨"zoe-dev", "A", .raw⟩ := by
  let config : Config := ⟨"zoe-dev", initial.description, .bare⟩
  let ms : List (String × Json) :=
    [("entry_mode", .object [("raw", .bool true), ("raw", .null)])]
  let ts : List (String × Json) :=
    [("description", .null), ("description", .string "A")]
  have mode : Taken "\x7b\"entry_mode\":\x7b\"raw\":true,\"raw\":null\x7d\x7d" ms :=
    ⟨by cbv, overlay_suits.mp ⟨⟨"zoe-dev", initial.description, .raw⟩,
      show config.overlay ms = _ by decide +kernel +zetaReduce⟩⟩
  have text : Taken "\x7b\"description\":null,\"description\":\"\\u0041\"\x7d" ts :=
    ⟨by cbv, overlay_suits.mp ⟨⟨"zoe-dev", "A", .bare⟩,
      show config.overlay ts = _ by decide +kernel +zetaReduce⟩⟩
  have extra : Json.parse "\x7b\"description\":null,\"x\":[],\"description\":\"A\"\x7d" =
      .ok (.object [("description", .null), ("x", .array []),
        ("description", .string "A")]) := by
    cbv
  have disjoint : ∀ f, ¬ (Mentions ms f ∧ Mentions ts f) := by
    intro f
    cases f <;> decide +zetaReduce
  have refused : (config.attempt "\x7b\"runtime_name\":\"b\",\"entry_mode\":\"sys\"\x7d").2 =
      .error (unknownVariant "sys") := by
    decide +kernel
  obtain ⟨-, failing, -, unknown, -, commute, -⟩ := merged_texts config
  exact ⟨config, _, _, _, _, _, ms, ts, _, rfl, rfl, rfl, rfl, rfl, mode, text, disjoint,
    text.object, extra, rfl, refused, failing _ _ refused, unknown _ _ _ _ text.object extra rfl,
    commute _ _ _ _ mode text disjoint, by decide +kernel⟩

end Texts

end Config

end ScriptHost
