import ScriptHost.Proofs.Url.Authority
import ScriptHost.Proofs.Url.Path

/-!
# The written form of identifiers

Whatever text and base an identifier comes from, its parts are in their written
forms and fit together: a file has at most the name of a server that is not this
machine, a special scheme has a server part and a path, and only an identifier
of another scheme can do without either of them.
-/

set_option autoImplicit false

namespace ScriptHost.Url

section Schemes

variable {scheme text rest : List Char} {c : Char}

structure IsScheme (scheme : List Char) : Prop where
  begins : ∃ first name, scheme = first :: name ∧ Ascii.isAlpha first = true
  chars : ∀ c ∈ scheme, isSchemeChar c = true
  lower : scheme.map Ascii.lower = scheme

theorem schemeChar_small (h : isSchemeChar c = true) : c.toNat < 128 := by
  simp only [isSchemeChar, Ascii.isAlpha, Ascii.isUpper, Ascii.isLower, Ascii.isDigit,
    Bool.or_eq_true, Bool.and_eq_true, decide_eq_true_eq] at h
  rcases h with (((h | h) | rfl) | rfl) | rfl
  · omega
  · omega
  all_goals decide

theorem schemeChar_lower (h : isSchemeChar c = true) : isSchemeChar (Ascii.lower c) = true ∧
    Ascii.lower (Ascii.lower c) = Ascii.lower c ∧
      (Ascii.isAlpha c = true → Ascii.isAlpha (Ascii.lower c) = true) := by
  have all : ∀ c : Char, c.toNat < 128 → isSchemeChar c = true →
      isSchemeChar (Ascii.lower c) = true ∧ Ascii.lower (Ascii.lower c) = Ascii.lower c ∧
        (Ascii.isAlpha c = true → Ascii.isAlpha (Ascii.lower c) = true) :=
    Utf8.forall_ascii (by decide +kernel)
  exact all c (schemeChar_small h) h

theorem schemeChar_literal (h : isSchemeChar c = true) :
    IsLiteral c ∧ Blank.isBlank c = false := by
  have all : ∀ c : Char, c.toNat < 128 → isSchemeChar c = true →
      IsLiteral c ∧ Blank.isBlank c = false := Utf8.forall_ascii (by decide +kernel)
  exact all c (schemeChar_small h) h

theorem isScheme_of_split (h : splitScheme text = some (scheme, rest)) :
    IsScheme scheme ∧ ∀ c ∈ rest, c ∈ text := by
  unfold splitScheme at h
  split at h
  · rename_i first name rest' htake hdrop
    split at h
    · rename_i alpha
      cases h
      have chars : ∀ c ∈ first :: name, isSchemeChar c = true := fun c hc =>
        List.all_eq_true.mp List.all_takeWhile c (htake ▸ hc)
      have begins := (schemeChar_lower (chars first List.mem_cons_self)).2.2 alpha
      refine ⟨⟨⟨_, _, List.map_cons, begins⟩, fun c hc => ?_, ?_⟩, fun c hc => ?_⟩
      · obtain ⟨d, hd, rfl⟩ := List.mem_map.mp hc
        exact (schemeChar_lower (chars d hd)).1
      · rw [List.map_map]
        exact List.map_congr_left fun c hc => (schemeChar_lower (chars c hc)).2.1
      · exact (List.dropWhile_suffix _).subset (hdrop ▸ List.mem_cons_of_mem ':' hc)
    · cases h
  · cases h

theorem IsScheme.split (h : IsScheme scheme) (rest : List Char) :
    splitScheme (scheme ++ ':' :: rest) = some (scheme, rest) := by
  have take : (scheme ++ ':' :: rest).takeWhile isSchemeChar = scheme := by
    rw [List.takeWhile_append_of_pos h.chars, List.takeWhile_cons_of_neg (by decide),
      List.append_nil]
  have drop : (scheme ++ ':' :: rest).dropWhile isSchemeChar = ':' :: rest := by
    rw [List.dropWhile_append_of_pos h.chars, List.dropWhile_cons_of_neg (by decide)]
  obtain ⟨first, name, he, alpha⟩ := h.begins
  have lower := h.lower
  unfold splitScheme
  rw [take, drop, he]
  rw [he] at lower
  simp only [alpha, if_true, lower]

theorem isScheme_file : IsScheme fileScheme :=
  ⟨⟨'f', "ile".toList, by decide, by decide⟩, List.all_eq_true.mp (by decide), by decide⟩

theorem special_of_file (h : isFileScheme scheme = true) : isSpecialScheme scheme = true := by
  rw [isFileScheme, decide_eq_true_eq] at h
  rw [h]
  decide

end Schemes

section Parts

variable {scheme text : List Char} {r : Reference} {c : Char}

def queryPlace (special : Bool) : Percent.Place := if special then .specialQuery else .query

def IsQuery (special : Bool) (query : Option (List Char)) : Prop :=
  ∀ q, query = some q → ∀ c ∈ q, (queryPlace special).keeps c = true

theorem isQuery_queryOf (r : Reference) (special : Bool) : IsQuery special (r.queryOf special) := by
  intro q hq
  obtain ⟨text, -, rfl⟩ := Option.map_eq_some_iff.mp hq
  exact Percent.keeps_encode (by cases special <;> decide)

/-- The part before the query has neither the sign of a query nor that of a fragment. -/
def Reference.IsClean (r : Reference) : Prop := ∀ c ∈ r.body, c ≠ '#' ∧ c ≠ '?'

theorem isClean_ofText (text : List Char) : (Reference.ofText text).IsClean := by
  intro c hc
  have query := List.all_eq_true.mp List.all_takeWhile c hc
  have hash := List.all_eq_true.mp List.all_takeWhile c ((List.takeWhile_sublist _).subset hc)
  exact ⟨of_decide_eq_true hash, of_decide_eq_true query⟩

structure IsRootless (text : List Char) (query : Option (List Char)) : Prop where
  kept : ∀ c ∈ text, Percent.Place.keeps .control c = true ∧ c ≠ '#' ∧ c ≠ '?'
  head : text.head? ≠ some '/'
  trimmed : query = none → Blank.trimEndBy (· = ' ') text = text

theorem isRootless_path (clean : ∀ c ∈ text, c ≠ '#' ∧ c ≠ '?') (head : text.head? ≠ some '/')
    (special : Bool) : ∃ written, rootlessPath text r = .rootless written ∧
      IsRootless written (r.queryOf special) := by
  have chars : ∀ c ∈ Percent.encode .control text,
      Percent.Place.keeps .control c = true ∧ c ≠ '#' ∧ c ≠ '?' := fun c hc =>
    ⟨Percent.keeps_encode (by decide) c hc, Percent.forall_mem_encode (by decide) clean c hc⟩
  have first : (Percent.encode .control text).head? ≠ some '/' := fun hh =>
    (Percent.encode_head hh).elim head (by decide)
  cases hq : r.query with
  | some q =>
    refine ⟨Percent.encode .control text, by simp [rootlessPath, hq], chars, first, fun hn => ?_⟩
    simp [Reference.queryOf, hq] at hn
  | none =>
    have front := List.rdropWhile_prefix (· = ' ') (Percent.encode .control text)
    refine ⟨(Percent.encode .control text).rdropWhile (· = ' '), ?_,
      fun c hc => chars c (front.subset hc), fun hh => first ?_, fun _ => ?_⟩
    · simp [rootlessPath, hq, trimEndBy_eq]
    · obtain ⟨rest, he⟩ := front
      rw [← he, List.head?_append, hh]
      rfl
    · rw [trimEndBy_eq, List.rdropWhile_idempotent]

end Parts

section Bodies

variable {scheme text : List Char} {query : Option (List Char)} {segments : List Segment}
  {host : Option Host} {a : Authority}

def IsFileHost (host : Option Host) : Prop :=
  ∀ h, host = some h → h.IsWritten true ∧ isLocalHost h = false

/-- How the parts of an identifier fit together. -/
inductive IsBody (scheme : List Char) : Option Authority → Path → Option (List Char) → Prop
  | file {host : Option Host} {segments : List Segment} {query : Option (List Char)}
      (hs : isFileScheme scheme = true) (hh : IsFileHost host) (hp : IsRooted true true segments) :
      IsBody scheme (some ⟨[], host, none⟩) (.rooted segments) query
  | server {a : Authority} {segments : List Segment} {query : Option (List Char)}
      (hs : isFileScheme scheme = false) (ha : a.IsWritten scheme)
      (hp : segments = [] ∧ isSpecialScheme scheme = false ∨
        IsRooted (isSpecialScheme scheme) false segments) :
      IsBody scheme (some a) (.rooted segments) query
  | rooted {segments : List Segment} {query : Option (List Char)}
      (hs : isSpecialScheme scheme = false) (hp : IsRooted false false segments) :
      IsBody scheme none (.rooted segments) query
  | rootless {text : List Char} {query : Option (List Char)}
      (hs : isSpecialScheme scheme = false) (hp : IsRootless text query) :
      IsBody scheme none (.rootless text) query

end Bodies

/-- An identifier all of whose parts are in their written forms. -/
structure IsWritten (url : Url) : Prop where
  named : IsScheme url.scheme
  fits : IsBody url.scheme url.authority url.path url.query
  asked : IsQuery (isSpecialScheme url.scheme) url.query

section Servers

variable {scheme text : List Char} {r : Reference} {base url : Url}

theorem plain_of_not_special (h : isSpecialScheme scheme = false) :
    isFileScheme scheme = false := by
  rw [Bool.eq_false_iff] at h ⊢
  exact fun hf => h (special_of_file hf)

theorem withAuthority_written (hn : IsScheme scheme) (hs : isFileScheme scheme = false)
    (h : withAuthority scheme text r = .ok url) : url.IsWritten := by
  obtain ⟨⟨a, rest⟩, ha, rfl⟩ := ok_of_map h
  obtain ⟨segments, hp, hr⟩ := pathAfterServer_rooted (isSpecialScheme scheme)
    (rest ++ text.dropWhile (!isSeparator (isSpecialScheme scheme) ·))
  refine ⟨hn, ?_, isQuery_queryOf r _⟩
  simp only [hp]
  exact .server hs (written_of_readAuthority ha) hr

theorem base_segments (hb : base.IsWritten) (hs : isFileScheme base.scheme = false) :
    ∀ s ∈ base.path.segments.dropLast.reverse, IsSegment (isSpecialScheme base.scheme) s := by
  intro s hs'
  have hm : s ∈ base.path.segments := List.dropLast_subset _ (List.mem_reverse.mp hs')
  clear hs'
  obtain ⟨-, fits, -⟩ := hb
  cases base with
  | mk scheme authority path query =>
    simp only at hs fits hm ⊢
    cases fits with
    | file hf => rw [hs] at hf; cases hf
    | server _ _ hp =>
      rcases hp with ⟨rfl, -⟩ | hp
      · cases hm
      · exact hp.segment s hm
    | rooted hp' hp => rw [hp']; exact hp.segment s hm
    | rootless => cases hm

/-- Another path and query in the place of a base's. -/
theorem written_below (hb : base.IsWritten) (hs : isFileScheme base.scheme = false)
    {stack : List Segment} (hstack : ∀ s ∈ stack, IsSegment (isSpecialScheme base.scheme) s)
    (text : List Char) (r : Reference) :
    IsWritten { base with
      path := pathBelow (isSpecialScheme base.scheme) false stack text
      query := r.queryOf (isSpecialScheme base.scheme) } := by
  obtain ⟨segments, he, hr⟩ := pathBelow_rooted _ false hstack text
  obtain ⟨hn, fits, -⟩ := hb
  refine ⟨hn, ?_, isQuery_queryOf r _⟩
  simp only [he]
  cases base with
  | mk scheme authority path query =>
    simp only at hs fits hr ⊢
    cases fits with
    | file hf => rw [hs] at hf; cases hf
    | server _ ha _ => exact .server hs ha (Or.inr hr)
    | rooted hp _ => rw [hp] at hr; exact .rooted hp hr
    | rootless hp _ => rw [hp] at hr; exact .rooted hp hr

theorem written_query (hb : base.IsWritten) (hq : r.query ≠ none) :
    IsWritten { base with query := r.queryOf (isSpecialScheme base.scheme) } := by
  obtain ⟨hn, fits, -⟩ := hb
  refine ⟨hn, ?_, isQuery_queryOf r _⟩
  have given : r.queryOf (isSpecialScheme base.scheme) ≠ none := by
    simpa [Reference.queryOf] using hq
  generalize r.queryOf (isSpecialScheme base.scheme) = asked at given
  cases base with
  | mk scheme authority path query =>
    simp only at fits ⊢
    cases fits with
    | file hf hh hp => exact .file hf hh hp
    | server hf ha hp => exact .server hf ha hp
    | rooted hf hp => exact .rooted hf hp
    | rootless hf hp => exact .rootless hf ⟨hp.kept, hp.head, fun he => absurd he given⟩

theorem relative_written (hb : base.IsWritten) (hs : isFileScheme base.scheme = false)
    (h : relative base text r = .ok url) : url.IsWritten := by
  unfold relative at h
  simp only at h
  split at h
  · split at h
    · cases h
      exact hb
    · rename_i q hq
      cases h
      exact written_query hb (by simp [hq])
  · split at h
    · split at h
      · split at h
        all_goals exact withAuthority_written hb.named hs h
      · cases h
        exact written_below hb hs (no_segments _) _ r
    · cases h
      exact written_below hb hs (base_segments hb hs) _ r

theorem plain_written (hn : IsScheme scheme) (hs : isSpecialScheme scheme = false)
    (clean : ∀ c ∈ text, c ≠ '#' ∧ c ≠ '?') (h : plain scheme text r = .ok url) :
    url.IsWritten := by
  unfold plain at h
  split at h
  · exact withAuthority_written hn (plain_of_not_special hs) h
  · rename_i after _
    cases h
    obtain ⟨segments, he, hr⟩ := pathBelow_rooted false false (no_segments false) after
    have hq := isQuery_queryOf r false
    refine ⟨hn, ?_, by simpa [hs] using hq⟩
    simp only [he]
    exact .rooted hs hr
  · rename_i _ other
    cases h
    have head : text.head? ≠ some '/' := by
      intro hh
      cases text with
      | nil => cases hh
      | cons c rest =>
        cases hh
        exact other rest rfl
    obtain ⟨written, he, hp⟩ := isRootless_path (r := r) clean head false
    have hq := isQuery_queryOf r false
    refine ⟨hn, ?_, by simpa [hs] using hq⟩
    simp only [he]
    exact .rootless hs hp

end Servers

section Files

variable {text : List Char} {r : Reference} {base : Option Url} {url b : Url} {host : Option Host}
  {stack : List Segment}

theorem isFileScheme_file : isFileScheme fileScheme = true := by decide

theorem isFileHost_none : IsFileHost none := nofun

theorem isFileHost_unless {h : Host} (absent : Bool) (hw : h.IsWritten true)
    (hl : isLocalHost h = false) : IsFileHost (if absent then none else some h) := by
  intro h' he
  cases absent with
  | true => cases he
  | false =>
    cases he
    exact ⟨hw, hl⟩

structure IsFileBase (b : Url) : Prop where
  written : b.IsWritten
  file : b.isFile = true

theorem IsFileBase.cases (h : IsFileBase b) : ∃ host segments, b = ⟨fileScheme,
    some ⟨[], host, none⟩, .rooted segments, b.query⟩ ∧ IsFileHost host ∧
      IsRooted true true segments := by
  obtain ⟨⟨-, fits, -⟩, hf⟩ := h
  have hs : b.scheme = fileScheme := of_decide_eq_true hf
  have special : isSpecialScheme fileScheme = true := by decide
  cases b with
  | mk scheme authority path query =>
    simp only at hs fits
    subst hs
    cases fits with
    | file _ hh hp => exact ⟨_, _, rfl, hh, hp⟩
    | server hn => exact absurd hn (by decide)
    | rooted hn => exact absurd hn (by decide)
    | rootless hn => exact absurd hn (by decide)

theorem IsFileBase.server (h : IsFileBase b) : IsFileHost b.host? := by
  obtain ⟨host, segments, he, hh, -⟩ := h.cases
  rw [he]
  exact hh

theorem IsFileBase.segments (h : IsFileBase b) :
    ∀ s ∈ b.path.segments, IsSegment true s := by
  obtain ⟨host, segments, he, -, hp⟩ := h.cases
  rw [he]
  exact hp.segment

theorem fileWith_written (hh : IsFileHost host) (hs : ∀ s ∈ stack, IsSegment true s)
    (hne : stack ≠ []) (r : Reference) : (fileWith host (settle true stack) r).IsWritten := by
  obtain ⟨segments, he, hp⟩ := settle_rooted true hs hne
  rw [he]
  exact ⟨isScheme_file, .file isFileScheme_file hh hp, isQuery_queryOf r true⟩

theorem filePath_written (hh : IsFileHost host) (hs : ∀ s ∈ stack, IsSegment true s)
    (text : List Char) (r : Reference) : (fileWith host (filePath stack text) r).IsWritten := by
  obtain ⟨all, nonempty⟩ := walk_segments true hs (whole_segmentsOf true text)
  exact fileWith_written hh all (nonempty (Or.inr (List.splitOnP_ne_nil _ _))) r

theorem fileAfterSlashes_written (h : fileAfterSlashes text r = .ok url) : url.IsWritten := by
  unfold fileAfterSlashes at h
  simp only at h
  split at h
  · cases h
    exact filePath_written isFileHost_none (no_segments _) _ r
  split at h
  · cases h
    exact filePath_written isFileHost_none (no_segments _) _ r
  split at h
  · cases h
  rename_i host hh
  split at h
  · cases h
    exact filePath_written isFileHost_none (no_segments _) _ r
  · rename_i named
    cases h
    unfold fileOnServer
    simp only
    obtain ⟨all, nonempty⟩ := walk_segments true (no_segments true) (whole_segmentsOf true _)
    exact fileWith_written (isFileHost_unless _ (Host.written_of_domainText hh)
      (Bool.eq_false_iff.mpr named)) all (nonempty (Or.inr (List.splitOnP_ne_nil _ _))) r

theorem fileAfterSlash_written (hb : ∀ b, base = some b → IsFileBase b) (text : List Char)
    (r : Reference) : (fileAfterSlash base text r).IsWritten := by
  unfold fileAfterSlash
  split
  · rename_i b
    have hf := hb b rfl
    split
    · exact filePath_written isFileHost_none (no_segments _) _ r
    split
    · rename_i first rest hs
      split
      · refine filePath_written isFileHost_none ?_ _ r
        simpa using hf.segments first (hs ▸ List.mem_cons_self)
      · exact filePath_written hf.server (no_segments _) _ r
    · exact filePath_written hf.server (no_segments _) _ r
  · exact filePath_written isFileHost_none (no_segments _) _ r

theorem fileBeside_written (hb : IsFileBase b) (text : List Char) (r : Reference) :
    (fileBeside b text r).IsWritten := by
  have whole := whole_segmentsOf true text
  have nonempty : segmentsOf true text ≠ [] := List.splitOnP_ne_nil _ _
  have segments : ∀ s ∈ b.path.segments.reverse, IsSegment true s := fun s hs =>
    hb.segments s (List.mem_reverse.mp hs)
  obtain ⟨host, old, he, hh, -⟩ := hb.cases
  have written (stack : List Segment) (hs : ∀ s ∈ stack, IsSegment true s) (hne : stack ≠ []) :
      IsWritten { b with path := settle true stack, query := r.queryOf true } := by
    rw [he]
    exact fileWith_written hh hs hne r
  unfold fileBeside
  simp only
  split
  · obtain ⟨all, some_left⟩ := walk_segments true (no_segments true) whole
    exact written _ all (some_left (Or.inr nonempty))
  · rename_i last below hl
    rw [hl] at segments
    split
    · rename_i drive
      obtain ⟨all, some_left⟩ := walkBesideDrive_segments drive segments whole
      exact written _ all some_left
    · obtain ⟨all, some_left⟩ := walk_segments true
        (fun s hs => segments s (List.mem_cons_of_mem last hs)) whole
      exact written _ all (some_left (Or.inr nonempty))

theorem besideOrAlone_written (hb : ∀ b, base = some b → IsFileBase b) (text : List Char)
    (r : Reference) : (file.besideOrAlone r base text).IsWritten := by
  unfold file.besideOrAlone
  split
  · exact filePath_written isFileHost_none (no_segments _) _ r
  · rename_i b
    split
    · exact filePath_written isFileHost_none (no_segments _) _ r
    · exact fileBeside_written (hb b rfl) text r

theorem file_written (hb : ∀ b, base = some b → IsFileBase b) (h : file base text r = .ok url) :
    url.IsWritten := by
  unfold file at h
  split at h
  · split at h
    · exact fileAfterSlashes_written h
    split at h
    · cases h
      exact fileAfterSlash_written hb _ r
    · cases h
      exact besideOrAlone_written hb _ r
  · split at h
    · cases h
      exact fileAfterSlash_written hb _ r
    · cases h
      exact besideOrAlone_written hb _ r
  · split at h
    · cases h
      exact filePath_written isFileHost_none (no_segments _) _ r
    · cases h
      exact (hb url rfl).written
    · rename_i b q hq
      cases h
      have hf := hb b rfl
      have special : isSpecialScheme b.scheme = true := special_of_file hf.file
      have hw := written_query hf.written (r := r) (by simp [hq])
      rwa [special] at hw

end Files

section Identifiers

variable {scheme text : List Char} {r : Reference} {base : Option Url} {url : Url}

theorem withScheme_written (hb : ∀ b, base = some b → b.IsWritten) (hn : IsScheme scheme)
    (clean : ∀ c ∈ text, c ≠ '#' ∧ c ≠ '?') (h : withScheme base scheme text r = .ok url) :
    url.IsWritten := by
  unfold withScheme at h
  split at h
  · refine file_written (fun b he => ?_) h
    obtain ⟨hbase, hf⟩ := Option.filter_eq_some_iff.mp he
    exact ⟨hb b hbase, hf⟩
  · rename_i hf
    rw [Bool.not_eq_true] at hf
    split at h
    · split at h
      · rename_i b
        split at h
        · rename_i same
          rw [Bool.and_eq_true, decide_eq_true_eq] at same
          exact relative_written (hb b rfl) (same.1 ▸ hf) h
        · exact withAuthority_written hn hf h
      · exact withAuthority_written hn hf h
    · rename_i hs
      exact plain_written hn (Bool.eq_false_iff.mpr hs) clean h

theorem ofReference_written (hb : ∀ b, base = some b → b.IsWritten) (hr : r.IsClean)
    (h : ofReference base r = .ok url) : url.IsWritten := by
  unfold ofReference at h
  split at h
  · rename_i scheme text hs
    obtain ⟨hn, sub⟩ := isScheme_of_split hs
    exact withScheme_written hb hn (fun c hc => hr c (sub c hc)) h
  · split at h
    · cases h
    · rename_i b
      split at h
      · cases h
      split at h
      · rename_i hf
        refine file_written (fun b' he => ?_) h
        cases he
        exact ⟨hb b rfl, hf⟩
      · rename_i hf
        exact relative_written (hb b rfl) (Bool.eq_false_iff.mpr hf) h

theorem parse_written {text : String} (h : Url.parse text = .ok url) : url.IsWritten :=
  ofReference_written (by simp) (isClean_ofText _) h

theorem join_written {text : String} {base : Url} (hb : base.IsWritten)
    (h : base.join text = .ok url) : url.IsWritten :=
  ofReference_written (fun _ he => Option.some.inj he ▸ hb) (isClean_ofText _) h

end Identifiers

end ScriptHost.Url
