import ScriptHost.Proofs.Url.Written

/-!
# Reading back an identifier

The text of an identifier is divided where its parts meet, and each part is read
as it stands, so whatever the base is, an identifier resolves to itself. There is
one exception: a drive letter at the front of a path takes the place of the server
in front of it, so the text of a file on a server with such a path names a local file.
-/

set_option autoImplicit false

namespace ScriptHost.Url

section Bodies

variable {scheme : List Char} {authority : Option Authority} {path : Path}
  {query : Option (List Char)} {url : Url} {c : Char}

/-- What stands between the colon of the scheme and the query. -/
def hierarchy (authority : Option Authority) (path : Path) : List Char :=
  authorityText authority ++ shield authority path ++ path.text

def body (url : Url) : List Char := url.scheme ++ ':' :: hierarchy url.authority url.path

theorem text_eq (url : Url) : url.text = url.body ++ queryText url.query := by
  simp [Url.text, body, hierarchy]

theorem hierarchy_server (a : Authority) (segments : List Segment) :
    hierarchy (some a) (.rooted segments) = '/' :: '/' :: (a.text ++ segmentsText segments) := by
  simp [hierarchy, authorityText, shield, Path.text]

theorem literal_slash : IsLiteral '/' := by decide

theorem literal_hierarchy (a : Authority) {segments : List Segment} {special : Bool}
    (ha : ∀ c ∈ a.text, IsLiteral c) (hs : ∀ s ∈ segments, IsSegment special s) :
    ∀ c ∈ hierarchy (some a) (.rooted segments), IsLiteral c := by
  intro c hc
  rw [hierarchy_server, List.mem_cons, List.mem_cons, List.mem_append] at hc
  rcases hc with rfl | rfl | hc | hc
  · exact literal_slash
  · exact literal_slash
  · exact ha c hc
  · exact literal_segmentsText hs c hc

theorem fileAuthority_text (host : Option Host) :
    Authority.text ⟨[], host, none⟩ = hostText host := by
  simp [Authority.text, portText]

theorem hostText_chars {host : Option Host} (h : IsFileHost host) :
    ∀ c ∈ hostText host, IsLiteral c ∧ isSlash c = false := by
  intro c hc
  cases host with
  | none => cases hc
  | some host =>
    have char := (h host rfl).1.chars c hc
    exact ⟨char.literal, char.slash⟩

/-- Only a path without a slash at its front can hold a space. -/
theorem IsBody.literal (h : IsBody scheme authority path query) :
    (∀ c ∈ hierarchy authority path, IsLiteral c) ∨
      ∃ text, hierarchy authority path = text ∧ IsRootless text query := by
  cases h with
  | @file host segments _ hs hh hp =>
    refine Or.inl (literal_hierarchy _ (fun c hc => ?_) hp.segment)
    rw [fileAuthority_text] at hc
    exact (hostText_chars hh c hc).1
  | server hs ha hp =>
    have literal := fun c hc => (ha.chars c hc).1
    rcases hp with ⟨rfl, -⟩ | hp
    · exact Or.inl (literal_hierarchy _ literal (no_segments true))
    · exact Or.inl (literal_hierarchy _ literal hp.segment)
  | @rooted segments _ hs hp =>
    refine Or.inl fun c hc => ?_
    rw [hierarchy, authorityText, List.nil_append, List.mem_append] at hc
    rcases hc with hc | hc
    · unfold shield at hc
      split at hc
      · have dots : ['/', '.'].all (IsLiteral ·) := by decide
        exact List.all_iff_forall_prop.mp dots c hc
      · cases hc
    · exact literal_segmentsText hp.segment c hc
  | rootless hs hp => exact Or.inr ⟨_, rfl, hp⟩

theorem queryChar {special : Bool} (h : (queryPlace special).keeps c = true) :
    0x20 < c.toNat ∧ c ≠ '#' := by
  have low := (Percent.keeps_bounds h).1
  have escaped : ∀ special, (queryPlace special).keeps ' ' = false ∧
      (queryPlace special).keeps '#' = false := by decide
  have space : c.toNat ≠ 0x20 := fun hn => by
    rw [show c = ' ' from Char.toNat_inj.mp hn, (escaped special).1] at h
    cases h
  refine ⟨by omega, ?_⟩
  rintro rfl
  rw [(escaped special).2] at h
  cases h

theorem IsRootless.last {text : List Char} (h : IsRootless text none) :
    ∀ c ∈ text.getLast?, 0x20 < c.toNat := by
  intro c hc
  have trimmed := h.trimmed rfl
  rw [trimEndBy_eq, List.rdropWhile_eq_self_iff] at trimmed
  obtain ⟨hne, he⟩ := List.mem_getLast?_eq_getLast hc
  have space := trimmed hne
  rw [← he, decide_eq_true_eq] at space
  have low := (Percent.keeps_bounds (h.kept c (List.mem_of_getLast? hc)).1).1
  have other : c.toNat ≠ 0x20 := fun hn => space (Char.toNat_inj.mp hn)
  omega

theorem IsBody.bodyChar (h : IsBody scheme authority path query) :
    ∀ c ∈ hierarchy authority path, 0x20 ≤ c.toNat ∧ c ≠ '#' ∧ c ≠ '?' := by
  intro c hc
  rcases h.literal with literal | ⟨text, he, hr⟩
  · exact (literal c hc).bodyChar
  · have hk := hr.kept c (he ▸ hc)
    exact ⟨(Percent.keeps_bounds hk.1).1, hk.2⟩

theorem IsBody.last (h : IsBody scheme authority path none) :
    ∀ c ∈ (':' :: hierarchy authority path).getLast?, 0x20 < c.toNat := by
  intro c hc
  rcases h.literal with literal | ⟨text, he, hr⟩
  · rcases List.mem_cons.mp (List.mem_of_getLast? hc) with rfl | hm
    · decide
    · exact (literal c hm).1
  · rw [he] at hc
    cases text with
    | nil =>
      cases hc
      decide
    | cons d text => exact hr.last c hc

/-- The text of an identifier has no blank at its ends and no number sign. -/
theorem IsWritten.isText (h : url.IsWritten) : IsText url.body url.query := by
  obtain ⟨hn, fits, asked⟩ := h
  have named : ∀ c ∈ url.scheme, IsLiteral c := fun c hc =>
    (schemeChar_literal (hn.chars c hc)).1
  have first : ∀ c ∈ url.body.head?, 0x20 < c.toNat := by
    obtain ⟨first, name, he, -⟩ := hn.begins
    intro c hc
    rw [body, he] at hc
    exact (named c (by rw [he, ← Option.some.inj hc]; simp)).1
  have query : ∀ q, url.query = some q → ∀ c ∈ q, 0x20 < c.toNat ∧ c ≠ '#' := fun q hq c hc =>
    queryChar (asked q hq c hc)
  refine ⟨fun c hc => ?_, first, fun hq c hc => ?_, query⟩
  · rw [body, List.mem_append, List.mem_cons] at hc
    rcases hc with hc | rfl | hc
    · exact (named c hc).bodyChar
    · exact (show IsLiteral ':' by decide).bodyChar
    · exact fits.bodyChar c hc
  · rw [body, List.getLast?_append_cons] at hc
    exact IsBody.last (hq ▸ fits) c hc

end Bodies

/-- A file on a server whose path begins with a drive letter. -/
def hostedDrive (url : Url) : Bool :=
  url.isFile && url.host?.isSome && url.path.segments.head?.any isDriveLetter

def onDrive (url : Url) : Url :=
  match url.path with
  | .rooted (drive :: rest) => { url with
      authority := some ⟨[], none, none⟩
      path := .rooted (writtenSegment true [] drive :: rest) }
  | _ => url

def reread (url : Url) : Url := if url.hostedDrive then url.onDrive else url

section Files

variable {segments : List Segment} {host : Option Host} {h : Host} {r : Reference} {s : Segment}

theorem queryOf_same {special : Bool} {query : Option (List Char)} (h : IsQuery special query)
    (hr : r.query = query) : r.queryOf special = query := by
  rw [Reference.queryOf, hr]
  cases query with
  | none => rfl
  | some q => exact congrArg some (Percent.encode_kept (h q rfl))

theorem divide_server (isEnd : Char → Bool) (slash : isEnd '/' = true) {server : List Char}
    (hs : ∀ c ∈ server, isEnd c = false) (segments : List Segment) :
    (server ++ segmentsText segments).takeWhile (!isEnd ·) = server ∧
      (server ++ segmentsText segments).dropWhile (!isEnd ·) = segmentsText segments := by
  have free : ∀ c ∈ server, (!isEnd c) = true := fun c hc => by rw [hs c hc]; rfl
  rw [List.takeWhile_append_of_pos free, List.dropWhile_append_of_pos free]
  cases segments with
  | nil => simp [segmentsText]
  | cons s segments => simp [segmentsText, slash]

theorem filePath_segmentsText (h : IsRooted true true segments) :
    filePath [] (segmentsText segments) = .rooted segments := by
  have hw : walk true [] ([] :: segments) = segments.reverse ++ [[]] :=
    walk_kept isSegment_nil h.segment
  rw [filePath, pathBelow, segmentsOf_segmentsText h.segment, hw, settle, if_pos rfl,
    List.reverse_append, List.reverse_reverse]
  exact congrArg Path.rooted (h.settled rfl)

theorem drive_writtenSegment (hs : IsSegment true s) :
    isWrittenDriveLetter (writtenSegment true [] s) = isDriveLetter s ∧
      (isDriveLetter s = false → writtenSegment true [] s = s) ∧
        (isDriveLetter s = true → writtenSegment true [] s ≠ []) := by
  cases hd : isDriveLetter s with
  | false =>
    have same : writtenSegment true [] s = s := writtenSegment_kept hs fun _ _ => hd
    refine ⟨?_, fun _ => same, fun ht => absurd ht Bool.false_ne_true⟩
    rw [same, Bool.eq_false_iff]
    intro hw
    obtain ⟨a, rfl, alpha⟩ := isWrittenDriveLetter_cases hw
    simp [isDriveLetter, alpha, isDriveMark] at hd
  | true =>
    unfold isDriveLetter at hd
    split at hd
    · rename_i a b
      have hw : writtenSegment true [] [a, b] = [a, ':'] := by
        simp [writtenSegment, isDriveLetter, hd]
      rw [Bool.and_eq_true] at hd
      refine ⟨?_, fun hf => absurd hf Bool.true_eq_false_eq_False, fun _ => ?_⟩
      · rw [hw]
        simp [isWrittenDriveLetter, hd.1]
      · rw [hw]
        exact List.cons_ne_nil _ _
    · cases hd

theorem fileOnServer_segmentsText (hp : IsRooted true true segments) (r : Reference) :
    fileOnServer h (segmentsText segments) r =
      reread ⟨fileScheme, some ⟨[], some h, none⟩, .rooted segments, r.queryOf true⟩ := by
  cases segments with
  | nil => exact absurd rfl hp.ne_nil
  | cons s rest =>
    have hs := hp.segment s List.mem_cons_self
    obtain ⟨marked, kept, nonempty⟩ := drive_writtenSegment hs
    have hw : walk true [] (segmentsOf true (s ++ segmentsText rest)) =
        rest.reverse ++ [writtenSegment true [] s] := by
      rw [segmentsOf_text hp.segment]
      exact walk_kept hs fun t ht => hp.segment t (List.mem_cons_of_mem s ht)
    have hrev : (rest.reverse ++ [writtenSegment true [] s]).reverse =
        writtenSegment true [] s :: rest := by simp
    simp only [fileOnServer, segmentsText, List.cons_append, hw, settle, hrev, marked, if_true]
    cases hd : isDriveLetter s with
    | false =>
      rw [kept hd, hp.settled rfl]
      simp [reread, hostedDrive, Url.host?, Path.segments, hd, fileWith]
    | true =>
      have hl : withoutLeadingEmpty (writtenSegment true [] s :: rest) =
          writtenSegment true [] s :: rest := by
        simp [withoutLeadingEmpty, nonempty hd]
      rw [hl]
      have file : isFileScheme fileScheme = true := isFileScheme_file
      simp [reread, hostedDrive, onDrive, Url.isFile, Url.host?, Path.segments, hd, fileWith, file]

theorem fileAfterSlashes_text (hh : IsFileHost host) (hp : IsRooted true true segments)
    (r : Reference) : fileAfterSlashes (hostText host ++ segmentsText segments) r =
      .ok (reread ⟨fileScheme, some ⟨[], host, none⟩, .rooted segments, r.queryOf true⟩) := by
  obtain ⟨server, after⟩ := divide_server isSlash (by decide)
    (fun c hc => (hostText_chars hh c hc).2) segments
  unfold fileAfterSlashes
  simp only [server, after]
  cases host with
  | none =>
    rw [filePath_segmentsText hp]
    simp [hostText, isDriveLetter, reread, hostedDrive, Url.host?, fileWith]
  | some h =>
    obtain ⟨hw, named⟩ := hh h rfl
    have nonempty : h.text.isEmpty = false := List.isEmpty_eq_false_iff.mpr hw.ne_nil
    simp only [hostText, hw.not_drive, nonempty, hw.read_domainText, named,
      fileOnServer_segmentsText hp, Bool.false_eq_true, if_false]

end Files

section Servers

variable {scheme : List Char} {segments : List Segment} {a : Authority} {r : Reference}
  {base : Option Url}

theorem separator_of_slash {special : Bool} {c : Char} (h : isSlash c = false) :
    isSeparator special c = false := by
  simp only [isSlash, Bool.or_eq_false_iff] at h
  simp [isSeparator, h.1, h.2]

theorem withAuthority_text (ha : a.IsWritten scheme)
    (hp : segments = [] ∧ isSpecialScheme scheme = false ∨
      IsRooted (isSpecialScheme scheme) false segments) (r : Reference) :
    withAuthority scheme (a.text ++ segmentsText segments) r =
      .ok ⟨scheme, some a, .rooted segments, r.queryOf (isSpecialScheme scheme)⟩ := by
  obtain ⟨server, after⟩ := divide_server (isSeparator (isSpecialScheme scheme))
    (by simp [isSeparator]) (fun c hc => separator_of_slash (ha.chars c hc).2) segments
  simp only [withAuthority, server, after, ha.read, Except.map, List.nil_append,
    pathAfterServer_text hp]

theorem withScheme_server (hs : isFileScheme scheme = false) (ha : a.IsWritten scheme)
    (hp : segments = [] ∧ isSpecialScheme scheme = false ∨
      IsRooted (isSpecialScheme scheme) false segments) :
    withScheme base scheme (hierarchy (some a) (.rooted segments)) r =
      .ok ⟨scheme, some a, .rooted segments, r.queryOf (isSpecialScheme scheme)⟩ := by
  have read := withAuthority_text ha hp r
  rw [hierarchy_server]
  unfold withScheme
  rw [hs]
  cases special : isSpecialScheme scheme with
  | false =>
    rw [special] at read
    exact read
  | true =>
    rw [special] at read
    have slashes : ('/' :: '/' :: (a.text ++ segmentsText segments)).dropWhile isSlash =
        a.text ++ segmentsText segments := by
      have hne := ha.ne_nil special
      have chars := ha.chars
      cases ht : a.text with
      | nil => exact absurd ht hne
      | cons c rest =>
        have hc := (chars c (by rw [ht]; exact List.mem_cons_self)).2
        rw [List.dropWhile_cons_of_pos (by decide), List.dropWhile_cons_of_pos (by decide),
          List.cons_append, List.dropWhile_cons_of_neg (by simp [hc])]
    have many : ¬ leadingSlashes ('/' :: '/' :: (a.text ++ segmentsText segments)) < 2 := by
      simp [leadingSlashes, isSlash]
    cases base with
    | none => simp only [slashes]; exact read
    | some base => simp [slashes, many, read]

end Servers

section Plain

variable {scheme text : List Char} {segments : List Segment} {r : Reference} {base : Option Url}

theorem withScheme_plain (hs : isSpecialScheme scheme = false) (text : List Char) :
    withScheme base scheme text r = plain scheme text r := by
  unfold withScheme
  rw [hs, plain_of_not_special hs]
  rfl

theorem plain_slash (text : List Char) (h : text.head? ≠ some '/') :
    plain scheme ('/' :: text) r =
      .ok ⟨scheme, none, pathBelow false false [] text, r.queryOf false⟩ := by
  cases text with
  | nil => rfl
  | cons c text =>
    have hc : c ≠ '/' := fun he => h (by rw [he]; rfl)
    unfold plain
    split
    · rename_i he
      exact absurd (List.cons.inj (List.cons.inj he).2).1 hc
    · rename_i he
      rw [(List.cons.inj he).2]
    · rename_i other
      exact absurd rfl (other _)

theorem pathBelow_text {first : Segment} (h : ∀ t ∈ first :: segments, IsSegment false t) :
    pathBelow false false [] (first ++ segmentsText segments) = .rooted (first :: segments) := by
  have hw : walk false [] (first :: segments) = (first :: segments).reverse ++ [] :=
    walk_rooted h nofun
  rw [pathBelow, segmentsOf_text h, hw, settle]
  simp

/-- A path that begins with two slashes is read from behind its shield. -/
theorem pathBelow_shield (hp : IsRooted false false segments) :
    pathBelow false false [] ('.' :: segmentsText segments) = .rooted segments := by
  have split : segmentsOf false (['.'] ++ segmentsText segments) = ['.'] :: segments :=
    segmentsOf_append (fun t ht => (hp.segment t ht).whole) (List.forall_mem_singleton.mpr rfl)
  have hw : walk false [] segments = segments.reverse ++ [] := walk_rooted hp.segment nofun
  have skip : walk false [] (['.'] :: segments) = walk false [] segments := by
    cases segments with
    | nil => exact absurd rfl hp.ne_nil
    | cons s rest => rfl
  rw [← List.singleton_append, pathBelow, split, skip, hw, settle]
  simp

theorem plain_rooted (hp : IsRooted false false segments) :
    plain scheme (hierarchy none (.rooted segments)) r =
      .ok ⟨scheme, none, .rooted segments, r.queryOf false⟩ := by
  rcases segments with _ | ⟨s, rest⟩
  · exact absurd rfl hp.ne_nil
  · have whole := (hp.segment s List.mem_cons_self).whole
    by_cases hs : s = [] ∧ rest ≠ []
    · obtain ⟨rfl, hr⟩ := hs
      obtain ⟨t, rest, rfl⟩ := List.exists_cons_of_ne_nil hr
      have text : hierarchy none (.rooted ([] :: t :: rest)) =
          '/' :: '.' :: segmentsText ([] :: t :: rest) := rfl
      have dot : ('.' :: segmentsText ([] :: t :: rest)).head? ≠ some '/' := by
        simp only [List.head?_cons]
        decide
      rw [text, plain_slash _ dot, pathBelow_shield hp]
    · have bare : shield none (.rooted (s :: rest)) = [] := by
        cases s with
        | cons c s => rfl
        | nil =>
          have hr : rest = [] := by simpa using hs
          rw [hr]
          rfl
      have text : hierarchy none (.rooted (s :: rest)) = '/' :: (s ++ segmentsText rest) := by
        simp [hierarchy, bare, authorityText, Path.text, segmentsText]
      have head : (s ++ segmentsText rest).head? ≠ some '/' := by
        cases s with
        | nil =>
          have hr : rest = [] := by simpa using hs
          simp [hr, segmentsText]
        | cons c s =>
          have hc := whole c List.mem_cons_self
          intro he
          rw [Option.some.inj he] at hc
          cases hc
      rw [text, plain_slash _ head, pathBelow_text hp.segment]

theorem plain_rootless (hp : IsRootless text (r.queryOf false)) :
    plain scheme (hierarchy none (.rootless text)) r =
      .ok ⟨scheme, none, .rootless text, r.queryOf false⟩ := by
  have same := Percent.encode_kept fun c hc => (hp.kept c hc).1
  have path : rootlessPath text r = .rootless text := by
    rw [rootlessPath, same]
    cases hq : r.query with
    | some q => rfl
    | none => exact congrArg Path.rootless (hp.trimmed (by simp [Reference.queryOf, hq]))
  have head := hp.head
  show plain scheme text r = _
  unfold plain
  split
  · exact absurd rfl head
  · exact absurd rfl head
  · rw [path]

end Plain

section Identifiers

variable {scheme : List Char} {authority : Option Authority} {path : Path}
  {query : Option (List Char)} {r : Reference} {url : Url}

theorem reread_other (h : isFileScheme scheme = false) :
    reread ⟨scheme, authority, path, query⟩ = ⟨scheme, authority, path, query⟩ := by
  simp [reread, hostedDrive, Url.isFile, h]

/-- The text behind the colon of a scheme is read as the parts that it is made of. -/
theorem IsBody.read (h : IsBody scheme authority path query)
    (same : r.queryOf (isSpecialScheme scheme) = query) (base : Option Url) :
    withScheme base scheme (hierarchy authority path) r =
      .ok (reread ⟨scheme, authority, path, query⟩) := by
  cases h with
  | @file host segments _ hs hh hp =>
    have hf : scheme = fileScheme := of_decide_eq_true hs
    rw [special_of_file hs] at same
    have read := fileAfterSlashes_text hh hp r
    rw [same, ← hf] at read
    rw [hierarchy_server, fileAuthority_text, withScheme.eq_def, hs, if_pos rfl]
    exact read
  | server hs ha hp => rw [withScheme_server hs ha hp, same, reread_other hs]
  | rooted hs hp =>
    rw [hs] at same
    rw [withScheme_plain hs, plain_rooted hp, same, reread_other (plain_of_not_special hs)]
  | rootless hs hp =>
    rw [hs] at same
    rw [withScheme_plain hs, plain_rootless (same ▸ hp), same,
      reread_other (plain_of_not_special hs)]

/-- The text of an identifier is read as the identifier, whatever the base is; only a drive takes
the place of the server in front of it. -/
theorem IsWritten.read (h : url.IsWritten) (base : Option Url) :
    ofReference base (Reference.ofText url.text) = .ok url.reread := by
  have nonempty : url.body ≠ [] := by simp [body]
  have same := queryOf_same (r := ⟨url.body, url.query, false⟩) h.asked rfl
  rw [text_eq, h.isText.ofText nonempty, ofReference.eq_def]
  simp only
  rw [body, h.named.split]
  exact h.fits.read same base

end Identifiers

end ScriptHost.Url
