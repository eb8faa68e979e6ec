import ScriptHost.Proofs.Module.Identity
import ScriptHost.Proofs.Url.ReadBack

/-!
# Specifiers with fragments

What follows the first number sign is left out before a specifier is read, so it
changes nothing, with one exception. A server part that is a lone at sign is
refused if anything follows it, be it only a fragment; at the end of the text it
names no server, which the schemes without rules of their own allow.
-/

set_option autoImplicit false

namespace ScriptHost

namespace Url

section Texts

variable {text fragment : List Char} {p : Char → Bool} {c : Char}

theorem mem_trimBy (h : c ∈ Blank.trimBy p text) : c ∈ text :=
  (List.dropWhile_suffix p).subset ((List.rdropWhile_prefix p (text.dropWhile p)).subset h)

theorem trimBy_fragment (last : ∀ c ∈ text.getLast?, 0x20 < c.toNat) :
    Blank.trimBy isOuterBlank (text ++ '#' :: fragment) =
      Blank.trimBy isOuterBlank text ++ '#' :: Blank.trimEndBy isOuterBlank fragment := by
  have sign : isOuterBlank '#' = false := by decide
  rcases List.eq_nil_or_concat' text with rfl | ⟨front, c, rfl⟩
  · exact trimBy_append sign [] fragment
  · have hc := last c (by simp)
    have kept : isOuterBlank c = false := by simpa [isOuterBlank] using hc
    have after := trimEndBy_append sign [] fragment
    rw [List.nil_append, List.nil_append] at after
    rw [List.append_assoc, List.singleton_append, trimBy_append kept, trimBy_append kept, after,
      List.append_assoc]
    rfl

theorem ofText_fragment (free : '#' ∉ text) (last : ∀ c ∈ text.getLast?, 0x20 < c.toNat) :
    Reference.ofText (text ++ '#' :: fragment) =
      { Reference.ofText text with fragment := true } := by
  have kept : ∀ c ∈ (Blank.trimBy isOuterBlank text).filter (!isLineBlank ·),
      decide (c ≠ '#') = true := fun c hc =>
    decide_eq_true fun he => free (he ▸ mem_trimBy (List.mem_filter.mp hc).1)
  have lines (rest : List Char) : ('#' :: rest).filter (!isLineBlank ·) =
      '#' :: rest.filter (!isLineBlank ·) := List.filter_cons_of_pos (by decide)
  have stop (rest : List Char) : ('#' :: rest).takeWhile (· ≠ '#') = [] :=
    List.takeWhile_cons_of_neg (by simp)
  simp only [Reference.ofText, trimBy_fragment last, List.filter_append, lines,
    List.takeWhile_append_of_pos kept, stop, List.append_nil, List.takeWhile_eq_self_iff.mpr kept]
  simp

theorem fragment_ofText (free : '#' ∉ text) : (Reference.ofText text).fragment = false := by
  rw [Reference.ofText, List.contains_eq_mem, decide_eq_false_iff_not]
  exact fun hm => free (mem_trimBy (List.mem_filter.mp hm).1)

end Texts

section Servers

variable {scheme text server : List Char} {r : Reference} {base : Url}

theorem splitUserinfo_sign (h : splitUserinfo text = some ([], [])) : text = ['@'] := by
  unfold splitUserinfo at h
  split at h
  · rename_i hm
    simp only [Option.some.injEq, Prod.mk.injEq] at h
    obtain ⟨front, after⟩ := h
    rcases List.eq_nil_or_concat' text with rfl | ⟨before, last, rfl⟩
    · cases hm
    · rw [after] at front
      have first : before = [] := by simpa using front
      have sign : last = '@' := by simpa [List.takeWhile_cons] using after
      rw [first, sign]
      rfl
  · cases h

/-- Only a lone at sign is read with regard to what follows the server part. -/
theorem readAuthority_ended (h : text = ['@'] → isSpecialScheme scheme = true) (ended : Bool) :
    readAuthority scheme text ended = readAuthority scheme text true := by
  unfold readAuthority
  split
  · rfl
  · rename_i after hs
    cases after with
    | nil =>
      have special := h (splitUserinfo_sign hs)
      have server : readServer scheme [] = .error .emptyHost := by
        simp [readServer, splitHost, readHost, special]
      rw [server]
      cases ended <;> rfl
    | cons c after => rfl
  · rfl

theorem withAuthority_fragment
    (h : r.query = none → text = ['@'] → isSpecialScheme scheme = true) :
    withAuthority scheme text { r with fragment := true } = withAuthority scheme text r := by
  let isEnd := isSeparator (isSpecialScheme scheme)
  have whole := List.takeWhile_append_dropWhile (p := (!isEnd ·)) (l := text)
  let marked : Reference := { r with fragment := true }
  -- What stands behind the server part hides the fragment, so only at the end is it noticed.
  have same : readAuthority scheme (text.takeWhile (!isEnd ·))
      (!(text.dropWhile (!isEnd ·)).isEmpty || marked.continues) =
      readAuthority scheme (text.takeWhile (!isEnd ·))
        (!(text.dropWhile (!isEnd ·)).isEmpty || r.continues) := by
    cases after : text.dropWhile (!isEnd ·) with
    | cons c rest => rfl
    | nil =>
      rw [after, List.append_nil] at whole
      cases hq : r.query with
      | some query => simp [marked, Reference.continues, hq]
      | none =>
        rw [whole]
        exact (readAuthority_ended (h hq) _).trans (readAuthority_ended (h hq) _).symm
  simp only [withAuthority, Reference.queryOf]
  exact congrArg (Except.map _) same

def behindSlashes (text : List Char) : List Char :=
  match text with
  | '/' :: '/' :: server => server
  | _ => text.dropWhile isSlash

/-- The scheme and the server part of a reference to a server, for a scheme without rules of its
own. -/
def plainServer? (base : Url) (body : List Char) : Option (List Char × List Char) :=
  match splitScheme body with
  | some (scheme, text) =>
    if isSpecialScheme scheme then none
    else match text with
      | '/' :: '/' :: server => some (scheme, server)
      | _ => none
  | none =>
    if isSpecialScheme base.scheme || leadingSlashes body < 2 then none
    else some (base.scheme, behindSlashes body)

theorem plainServer?_special
    (h : plainServer? base text = some (scheme, server)) : isSpecialScheme scheme = false := by
  unfold plainServer? at h
  split at h
  · split at h
    · cases h
    · rename_i special
      split at h
      · cases h
        exact (Bool.not_eq_true _).mp special
      · cases h
  · split at h
    · cases h
    · rename_i plain
      cases h
      simp only [Bool.or_eq_true, not_or, Bool.not_eq_true] at plain
      exact plain.1

theorem behindSlashes_other (h : ∀ server, text ≠ '/' :: '/' :: server) :
    behindSlashes text = text.dropWhile isSlash := by
  unfold behindSlashes
  split
  · rename_i server
    exact absurd rfl (h server)
  · rfl

theorem relative_server (many : 2 ≤ leadingSlashes text) :
    relative base text r = withAuthority base.scheme (behindSlashes text) r := by
  unfold relative
  cases text with
  | nil => cases many
  | cons c rest =>
    have slash : isSlash c = true := by
      by_contra hn
      rw [leadingSlashes, List.takeWhile_cons_of_neg hn] at many
      cases many
    simp only [slash, many, if_true]
    split
    · rename_i he
      rw [he]
      rfl
    · rename_i other
      rw [behindSlashes_other other]

theorem relative_fragment (h : isSpecialScheme base.scheme = true ∨ leadingSlashes text < 2) :
    relative base text { r with fragment := true } = relative base text r := by
  by_cases many : 2 ≤ leadingSlashes text
  · rw [relative_server many, relative_server many]
    exact withAuthority_fragment fun _ _ => h.resolve_right (Nat.not_lt.mpr many)
  · unfold relative
    cases text with
    | nil => rfl
    | cons c rest =>
      simp only [many, if_false]
      rfl

theorem plain_fragment (h : ∀ server, text ≠ '/' :: '/' :: server) :
    plain scheme text { r with fragment := true } = plain scheme text r := by
  unfold plain
  split
  · rename_i server
    exact absurd rfl (h server)
  · rfl
  · rfl

theorem ofReference_fragment (h : plainServer? base r.body = none) :
    ofReference (some base) { r with fragment := true } = ofReference (some base) r := by
  unfold plainServer? at h
  unfold ofReference
  cases hs : splitScheme r.body with
  | some named =>
    obtain ⟨scheme, text⟩ := named
    simp only [hs] at h ⊢
    -- in a special scheme a lone at sign is refused with and without a fragment
    have server (after : List Char) (special : isSpecialScheme scheme = true) :
        withAuthority scheme after { r with fragment := true } = withAuthority scheme after r :=
      withAuthority_fragment fun _ _ => special
    unfold withScheme
    split
    · rfl
    split
    · rename_i special
      simp only
      split
      · rename_i few
        have below : base.scheme = scheme ∧ leadingSlashes text < 2 := by simpa using few
        exact relative_fragment (Or.inr below.2)
      · exact server _ special
    · rename_i special
      rw [if_neg special] at h
      refine plain_fragment fun after he => ?_
      rw [he] at h
      cases h
  | none =>
    simp only [hs] at h ⊢
    split at h
    · rename_i few
      have same : relative base r.body { r with fragment := true } = relative base r.body r :=
        relative_fragment (by simpa using few)
      rw [same]
      rfl
    · cases h

theorem ofReference_server (rooted : base.canBeBase = true)
    (h : plainServer? base r.body = some (scheme, server)) :
    ofReference (some base) r = withAuthority scheme server r := by
  have plain := plainServer?_special h
  unfold plainServer? at h
  unfold ofReference
  cases hs : splitScheme r.body with
  | some named =>
    obtain ⟨name, text⟩ := named
    simp only [hs] at h ⊢
    split at h
    · cases h
    · split at h
      · cases h
        rw [withScheme, if_neg (by simp [plain_of_not_special plain]), if_neg (by simp [plain])]
        rfl
      · cases h
  | none =>
    simp only [hs, rooted] at h ⊢
    split at h
    · cases h
    · rename_i many
      simp only [Bool.or_eq_true, not_or, decide_eq_true_eq, Nat.not_lt] at many
      cases h
      have file : base.isFile = false := plain_of_not_special plain
      rw [file]
      exact relative_server many.2

/-- A lone at sign at the end names no server, and is refused in front of a fragment. -/
theorem withAuthority_sign (plain : isSpecialScheme scheme = false) (query : r.query = none) :
    withAuthority scheme ['@'] { r with fragment := false } =
        .ok ⟨scheme, some ⟨[], none, none⟩, .rooted [], none⟩ ∧
      withAuthority scheme ['@'] { r with fragment := true } = .error .emptyHost := by
  have server : readServer scheme [] = .ok (none, none, []) := by
    simp [readServer, splitHost, readHost, plain, Host.ofPlainText]
  have split : splitUserinfo ['@'] = some ([], []) := by decide
  have none_follows : readAuthority scheme ['@'] false = .ok (⟨[], none, none⟩, []) := by
    simp [readAuthority, split, server, Except.map]
  have some_follows : readAuthority scheme ['@'] true = .error .emptyHost := by
    simp [readAuthority, split]
  have sign : isSeparator false '@' = false := by decide
  simp only [withAuthority, plain, Reference.continues, query]
  simp [sign, none_follows, some_follows, Except.map, Reference.queryOf, pathAfterServer]

/-- A reference that ends with a lone at sign for the server part, where the scheme has no rules of
its own. -/
def Reference.EndsAtSign (r : Reference) (base : Url) : Prop :=
  r.query = none ∧ (plainServer? base r.body).map Prod.snd = some ['@']
  deriving Decidable

theorem ofReference_unless (rooted : base.canBeBase = true) (h : ¬ r.EndsAtSign base) :
    ofReference (some base) { r with fragment := true } = ofReference (some base) r := by
  cases hs : plainServer? base r.body with
  | none => exact ofReference_fragment hs
  | some named =>
    obtain ⟨scheme, server⟩ := named
    have first : ofReference (some base) r = _ := ofReference_server rooted hs
    have second : ofReference (some base) { r with fragment := true } = _ :=
      ofReference_server rooted hs
    rw [first, second]
    refine withAuthority_fragment fun query sign => absurd ⟨query, ?_⟩ h
    rw [hs, sign]
    rfl

theorem ofReference_sign (rooted : base.canBeBase = true) (h : r.EndsAtSign base) :
    (∃ url, ofReference (some base) { r with fragment := false } = .ok url) ∧
      ofReference (some base) { r with fragment := true } = .error .emptyHost := by
  obtain ⟨query, named⟩ := h
  obtain ⟨⟨scheme, server⟩, hs, rfl⟩ := Option.map_eq_some_iff.mp named
  obtain ⟨read, refused⟩ := withAuthority_sign (plainServer?_special hs) query
  have first : ofReference (some base) { r with fragment := false } = _ :=
    ofReference_server rooted hs
  have second : ofReference (some base) { r with fragment := true } = _ :=
    ofReference_server rooted hs
  exact ⟨⟨_, first.trans read⟩, second.trans refused⟩

theorem join_fragment {s : String} (free : '#' ∉ s.toList)
    (last : ∀ c ∈ s.toList.getLast?, 0x20 < c.toNat) (f : String) :
    Url.join base (s ++ "#" ++ f) =
      ofReference (some base) { Reference.ofText s.toList with fragment := true } := by
  have text : (s ++ "#" ++ f).toList = s.toList ++ '#' :: f.toList := by simp
  rw [Url.join, text, ofText_fragment free last]

end Servers

end Url

namespace ModuleId

open Url

variable {base id : ModuleId} {s : String}

theorem Obtained.no_fragment (h : id.Obtained) : '#' ∉ id.text.toList := by
  rw [ModuleId.text, Url.toString, String.toList_ofList, Url.text_eq]
  exact fun hm => (h.written.isText.mem '#' hm).2 rfl

/-- Both specifiers name one module, whose identifier has no fragment, or both are refused for one
reason. -/
def SameResult (base : ModuleId) (s t : String) : Prop :=
  (∃ id, ModuleId.resolve s base = .ok id ∧ ModuleId.resolve t base = .ok id ∧
      '#' ∉ id.text.toList) ∨
    ∃ reason, ModuleId.resolve s base = .error (.invalidSpecifier s reason) ∧
      ModuleId.resolve t base = .error (.invalidSpecifier t reason)

/-- A specifier that ends with a lone at sign for the server part, where the scheme has no rules of
its own. -/
def EndsAtSign (s : String) (base : ModuleId) : Prop :=
  base.url.canBeBase = true ∧ (Reference.ofText s.toList).EndsAtSign base.url
  deriving Decidable

theorem resolve_join (shown : Blank.isBlankText s = false) (rooted : base.url.canBeBase = true) :
    ModuleId.resolve s base = match Url.join base.url s with
      | .ok url => .ok ⟨url⟩
      | .error failure => .error (.invalidSpecifier s failure.message) := by
  rw [ModuleId.resolve, shown, rooted]
  rfl

theorem resolve_rootless (shown : Blank.isBlankText s = false)
    (rootless : base.url.canBeBase = false) : ModuleId.resolve s base =
      .error (.invalidSpecifier s s!"'{base.text}' cannot be used as a base") := by
  rw [ModuleId.resolve, shown, rootless]
  rfl

theorem fragment_shown (s f : String) : Blank.isBlankText (s ++ "#" ++ f) = false := by
  have sign : Blank.isBlank '#' = false := by decide
  simp [Blank.isBlankText, sign]

theorem sameResult_of_join {t : String} (ho : base.Obtained) (hs : Blank.isBlankText s = false)
    (ht : Blank.isBlankText t = false)
    (h : base.url.canBeBase = true → Url.join base.url t = Url.join base.url s) :
    SameResult base s t := by
  cases rooted : base.url.canBeBase with
  | false => exact Or.inr ⟨_, resolve_rootless hs rooted, resolve_rootless ht rooted⟩
  | true =>
    have first := resolve_join hs rooted
    have second := resolve_join ht rooted
    rw [h rooted] at second
    cases join : Url.join base.url s with
    | ok url =>
      rw [join] at first second
      exact Or.inl ⟨⟨url⟩, first, second, (Obtained.resolve ho first).no_fragment⟩
    | error failure =>
      rw [join] at first second
      exact Or.inr ⟨_, first, second⟩

theorem not_sameResult {t : String} {failure : LoadFailure}
    (read : ModuleId.resolve s base = .ok id) (refused : ModuleId.resolve t base = .error failure) :
    ¬ SameResult base s t := by
  rintro (⟨other, -, kept, -⟩ | ⟨reason, failed, -⟩)
  · rw [refused] at kept
    cases kept
  · rw [read] at failed
    cases failed

theorem resolve_sign (shown : Blank.isBlankText s = false) (free : '#' ∉ s.toList)
    (last : ∀ c ∈ s.toList.getLast?, 0x20 < c.toNat) (h : EndsAtSign s base) (f : String) :
    (∃ id, ModuleId.resolve s base = .ok id) ∧ ModuleId.resolve (s ++ "#" ++ f) base =
      .error (.invalidSpecifier (s ++ "#" ++ f) "empty host") := by
  obtain ⟨rooted, sign⟩ := h
  obtain ⟨⟨url, read⟩, refused⟩ := ofReference_sign rooted sign
  have bare : { Reference.ofText s.toList with fragment := false } = Reference.ofText s.toList := by
    rw [← fragment_ofText free]
  constructor
  · have join : Url.join base.url s = .ok url := by rw [Url.join, ← bare, read]
    exact ⟨⟨url⟩, by rw [resolve_join shown rooted, join]⟩
  · rw [resolve_join (fragment_shown s f) rooted, join_fragment free last, refused]
    rfl

/-- A fragment changes nothing, except where the specifier ends with a lone at sign for the server
part: there it is refused, and the specifier without it is not. -/
theorem fragment_dropped_iff (ho : base.Obtained) (shown : Blank.isBlankText s = false)
    (free : '#' ∉ s.toList) (last : ∀ c ∈ s.toList.getLast?, 0x20 < c.toNat) (f : String) :
    (SameResult base s (s ++ "#" ++ f) ↔ ¬ EndsAtSign s base) ∧
      (EndsAtSign s base → (∃ id, ModuleId.resolve s base = .ok id) ∧
        ModuleId.resolve (s ++ "#" ++ f) base =
          .error (.invalidSpecifier (s ++ "#" ++ f) "empty host")) := by
  refine ⟨⟨fun same sign => ?_, fun other => ?_⟩, fun sign => resolve_sign shown free last sign f⟩
  · obtain ⟨⟨id, read⟩, refused⟩ := resolve_sign shown free last sign f
    exact not_sameResult read refused same
  · refine sameResult_of_join ho shown (fragment_shown s f) fun rooted => ?_
    rw [join_fragment free last]
    exact ofReference_unless rooted fun sign => other ⟨rooted, sign⟩

/-- A path with dots, a blank and a query is named by itself and with a fragment; a server part that
is a lone at sign is refused with it. -/
theorem queried_fragment_dropped : ∃ base id other : ModuleId,
    ModuleId.parse "foo://host/lib/app.js" = .ok base ∧
      ModuleId.resolve ".././b c.js?@" base = .ok id ∧
      ModuleId.resolve ".././b c.js?@#y#z " base = .ok id ∧ id.text = "foo://host/b%20c.js?@" ∧
      ModuleId.resolve "//@" base = .ok other ∧ ModuleId.resolve "//@#y#z " base =
        .error (.invalidSpecifier "//@#y#z " "empty host") := by
  let base : ModuleId := ⟨⟨"foo".toList, some ⟨[], some (.domain "host".toList), none⟩,
    .rooted ["lib".toList, "app.js".toList], none⟩⟩
  have hb : ModuleId.parse "foo://host/lib/app.js" = .ok base := by decide +kernel
  obtain ⟨same, -⟩ := fragment_dropped_iff (s := ".././b c.js?@") (.parse hb) (by decide +kernel)
    (by decide +kernel) (outer_of_all (by decide +kernel)) "y#z "
  obtain ⟨-, refused⟩ := fragment_dropped_iff (s := "//@") (.parse hb) (by decide +kernel)
    (by decide +kernel) (outer_of_all (by decide +kernel)) "y#z "
  obtain ⟨⟨other, read⟩, error⟩ := refused (by decide +kernel)
  have text : (ModuleId.resolve ".././b c.js?@" base).toOption.map (·.text) =
      some "foo://host/b%20c.js?@" := by decide +kernel
  rcases same.mpr (by decide +kernel) with ⟨id, bare, fragment, -⟩ | ⟨reason, failed, -⟩
  · rw [bare] at text
    exact ⟨base, id, other, hb, bare, fragment, Option.some.inj text, read, error⟩
  · rw [failed] at text
    cases text

/-- An identifier without a server, and the same text with a fragment. -/
theorem lone_sign_refused : ∃ base id : ModuleId, ModuleId.parse "file:///work/" = .ok base ∧
    Blank.isBlankText "foo://@" = false ∧ '#' ∉ "foo://@".toList ∧
    (∀ c ∈ "foo://@".toList.getLast?, 0x20 < c.toNat) ∧
    ModuleId.resolve "foo://@" base = .ok id ∧ id.text = "foo://" ∧
    ModuleId.resolve ("foo://@" ++ "#" ++ "top") base =
      .error (.invalidSpecifier "foo://@#top" "empty host") ∧
    ¬ SameResult base "foo://@" ("foo://@" ++ "#" ++ "top") := by
  let base : ModuleId := ⟨localFile (.rooted ["work".toList, []])⟩
  let id : ModuleId := ⟨⟨"foo".toList, some ⟨[], none, none⟩, .rooted [], none⟩⟩
  have read : ModuleId.resolve "foo://@" base = .ok id := by decide +kernel
  have refused : ModuleId.resolve ("foo://@" ++ "#" ++ "top") base =
      .error (.invalidSpecifier "foo://@#top" "empty host") := by decide +kernel
  exact ⟨base, id, by decide +kernel, by decide +kernel, by decide +kernel,
    outer_of_all (by decide +kernel), read, by decide +kernel, refused,
    not_sameResult read refused⟩

end ModuleId

end ScriptHost
