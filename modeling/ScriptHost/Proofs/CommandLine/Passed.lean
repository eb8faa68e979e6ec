import ScriptHost.CommandLine.Run
import ScriptHost.Proofs.CommandLine.Arguments

/-!
# Arguments for the module

Options stand before the script, each at most once. What comes behind the script
reaches the module as it is, unless the first of it is an argument that the
program takes for its own: then the module never sees it.
-/

set_option autoImplicit false

namespace ScriptHost

theorem EntryMode.parse_head {text : String} {mode : EntryMode} (h : EntryMode.parse text = .ok mode) :
    text.toList.head? ≠ some '-' := by
  intro hd
  obtain ⟨rest, hl⟩ : ∃ rest, text.toList = '-' :: rest := by
    cases hl : text.toList with
    | nil => simp [hl] at hd
    | cons c rest => exact ⟨rest, by simpa [hl] using hd⟩
  have hend : ∀ before : List Char, ∃ kept,
      (before ++ ['-']).dropWhile Blank.isBlank = kept ++ ['-'] := by
    intro before
    induction before with
    | nil => exact ⟨[], by decide⟩
    | cons c before ih =>
      rw [List.cons_append, List.dropWhile_cons]
      split
      · exact ih
      · exact ⟨c :: before, rfl⟩
  have htrim : ∃ more, Blank.trim ('-' :: rest) = '-' :: more := by
    obtain ⟨kept, hk⟩ := hend rest.reverse
    refine ⟨kept.reverse, ?_⟩
    unfold Blank.trim Blank.trimBy Blank.trimEndBy
    rw [List.dropWhile_cons_of_neg (by decide), List.reverse_cons, hk, List.reverse_append]
    rfl
  obtain ⟨more, hm⟩ := htrim
  have hwanted : Ascii.lowerString (Blank.trimString text) =
      String.ofList ('-' :: more.map Ascii.lower) := by
    rw [Ascii.lowerString, Blank.trimString, String.toList_ofList, hl, hm]
    rfl
  have hnone : EntryMode.ofName? (String.ofList ('-' :: more.map Ascii.lower)) = none := by
    have hne : ∀ (c : Char) (name : List Char), c ≠ '-' →
        String.ofList ('-' :: more.map Ascii.lower) ≠ String.ofList (c :: name) := by
      intro c name hc he
      have hl := congrArg String.toList he
      rw [String.toList_ofList, String.toList_ofList] at hl
      exact hc (List.cons.inj hl).1.symm
    unfold EntryMode.ofName?
    rw [if_neg (hne 'r' ['a', 'w'] (by decide)),
      if_neg (hne 'c' ['u', 'r', 'a', 't', 'e', 'd'] (by decide)),
      if_neg (hne 'b' ['a', 'r', 'e'] (by decide))]
  unfold EntryMode.parse at h
  rw [hwanted] at h
  dsimp only at h
  rw [hnone] at h
  cases h

namespace CommandLine

open Utf8

/-- Options before the script, with the entry mode that they name and whether they ask for more
log lines. -/
inductive Flagged : List String → Option EntryMode → Bool → Prop
  | none : Flagged [] none false
  | verbose {flags : List String} {mode : Option EntryMode} (h : Flagged flags mode false) :
      Flagged (flags ++ ["--verbose"]) mode true
  | mode {flags : List String} {isVerbose : Bool} (text : String) {mode : EntryMode}
      (h : Flagged flags none isVerbose) (ht : EntryMode.parse text = .ok mode) :
      Flagged (flags ++ ["--entry-mode", text]) (some mode) isVerbose
  | attached {flags : List String} {isVerbose : Bool} (text : String) {mode : EntryMode}
      (h : Flagged flags none isVerbose) (ht : EntryMode.parse text = .ok mode) :
      Flagged (flags ++ ["--entry-mode=" ++ text]) (some mode) isVerbose

namespace Reading

variable {r : Reading} {mode : Option EntryMode} {isVerbose : Bool}

/-- What was read when only options were read. -/
structure AfterFlags (r : Reading) (mode : Option EntryMode) (isVerbose : Bool) : Prop where
  resolved : r.resolve = .ok ⟨⟨mode, isVerbose, none, []⟩, .nothing, false, false⟩
  script : r.hasScript = false
  trailing : r.isTrailing = false

theorem textOf_encode (text : String) : textOf (encodeString text) = .ok text := by
  rw [textOf, text?_encodeString]

theorem verbose_flag (h : AfterFlags r mode false) :
    ∃ next, r.step (encodeString "--verbose") = .ok next ∧ AfterFlags next mode true := by
  have he : encodeString "--verbose" = encode ('-' :: '-' :: "verbose".toList) := by decide
  have hname : textLossy ((encode "verbose".toList).takeWhile (· ≠ equals)) = "verbose" := by decide
  have hplain : equals ∉ encode "verbose".toList := by decide
  rw [he, step_long h.trailing (by decide), longOption]
  rw [hname, if_neg hplain]
  show ∃ next, r.verbose = .ok next ∧ _
  rw [verbose, h.resolved]
  exact ⟨_, rfl, rfl, rfl, rfl⟩

theorem setMode_text {text : String} {value : EntryMode} (ht : EntryMode.parse text = .ok value) :
    setMode ⟨⟨none, isVerbose, none, []⟩, .nothing, false, false⟩ (encodeString text) =
      .ok ⟨⟨some value, isVerbose, none, []⟩, .nothing, false, false⟩ := by
  simp only [setMode, textOf_encode, Option.isSome_none, Bool.false_eq_true, if_false, bind,
    Except.bind, ht]
  rfl

theorem mode_flag {text : String} {value : EntryMode} (h : AfterFlags r none isVerbose)
    (ht : EntryMode.parse text = .ok value) :
    ∃ middle next, r.step (encodeString "--entry-mode") = .ok middle ∧
      middle.step (encodeString text) = .ok next ∧ AfterFlags next (some value) isVerbose := by
  have he : encodeString "--entry-mode" = encode ('-' :: '-' :: "entry-mode".toList) := by decide
  have hname : textLossy ((encode "entry-mode".toList).takeWhile (· ≠ equals)) = "entry-mode" := by
    decide
  have hplain : equals ∉ encode "entry-mode".toList := by decide
  have hmiddle : r.step (encodeString "--entry-mode") =
      .ok ⟨⟨none, isVerbose, none, []⟩, .mode none, false, false⟩ := by
    rw [he, step_long h.trailing (by decide), longOption]
    rw [hname, if_neg hplain, h.resolved]
    rfl
  have hresolved : resolve
      ⟨⟨none, isVerbose, none, []⟩, .mode (some (encodeString text)), false, false⟩ =
        .ok ⟨⟨some value, isVerbose, none, []⟩, .nothing, false, false⟩ := by
    rw [resolve]
    exact setMode_text ht
  refine ⟨_, _, hmiddle, ?_, hresolved, rfl, rfl⟩
  rw [step_value rfl fun hd => absurd hd (EntryMode.parse_head ht)]
  rfl

theorem attached_parts {name : List Char} (hn : '=' ∉ name) (value : List Char) :
    (encode (name ++ '=' :: value)).takeWhile (· ≠ equals) = encode name ∧
      equals ∈ encode (name ++ '=' :: value) ∧
      (encode (name ++ '=' :: value)).drop ((encode name).length + 1) = encode value := by
  have hbody : encode (name ++ '=' :: value) = encode name ++ equals :: encode value := by
    rw [encode_append, encode_cons, char_of_ascii (by decide)]
    rfl
  refine ⟨?_, ?_, ?_⟩
  · have hall : ∀ c ∈ name, decide (c ≠ '=') = true := by
      intro c hc
      have hne : c ≠ '=' := fun he => hn (he ▸ hc)
      simpa using hne
    rw [longOption_name, List.takeWhile_append_of_pos hall, List.takeWhile_cons_of_neg (by decide),
      List.append_nil]
  · rw [hbody]
    exact List.mem_append_right _ List.mem_cons_self
  · rw [hbody, List.drop_append, List.drop_of_length_le (Nat.le_succ _), Nat.add_sub_cancel_left]
    rfl

theorem attached_flag {text : String} {value : EntryMode} (h : AfterFlags r none isVerbose)
    (ht : EntryMode.parse text = .ok value) :
    ∃ next, r.step (encodeString ("--entry-mode=" ++ text)) = .ok next ∧
      AfterFlags next (some value) isVerbose := by
  have he : encodeString ("--entry-mode=" ++ text) =
      encode ('-' :: '-' :: ("entry-mode".toList ++ '=' :: text.toList)) := by
    have hfront : "--entry-mode=".toList = '-' :: '-' :: ("entry-mode".toList ++ ['=']) := by decide
    rw [encodeString, String.toList_append, hfront, List.cons_append, List.cons_append,
      List.append_assoc, List.singleton_append]
  have hn : '=' ∉ "entry-mode".toList := by decide
  obtain ⟨hname, hmem, hvalue⟩ := attached_parts hn text.toList
  have hmode : textLossy (encode "entry-mode".toList) = "entry-mode" := by decide
  have hset : r.longOption (encode ('-' :: '-' :: ("entry-mode".toList ++ '=' :: text.toList)))
      (encode ("entry-mode".toList ++ '=' :: text.toList)) =
        r.resolve.bind (·.setMode (encodeString text)) := by
    generalize encode ('-' :: '-' :: ("entry-mode".toList ++ '=' :: text.toList)) = argument
    rw [longOption, hname, hmode, if_pos hmem, hvalue]
    rfl
  rw [he, step_long h.trailing (List.append_ne_nil_of_right_ne_nil _ (List.cons_ne_nil _ _)), hset,
    h.resolved]
  exact ⟨_, setMode_text ht, rfl, rfl, rfl⟩

theorem steps_append {before after : List Bytes} {middle : Reading}
    (h : before.foldlM step r = .ok middle) :
    (before ++ after).foldlM step r = after.foldlM step middle := by
  rw [List.foldlM_append, h]
  rfl

theorem flags_read {flags : List String} (h : Flagged flags mode isVerbose) :
    ∃ r, (flags.map encodeString).foldlM step start = .ok r ∧ AfterFlags r mode isVerbose := by
  induction h with
  | none => exact ⟨start, rfl, rfl, rfl, rfl⟩
  | verbose h ih =>
    obtain ⟨r, hr, hf⟩ := ih
    obtain ⟨next, hn, hf⟩ := verbose_flag hf
    refine ⟨next, ?_, hf⟩
    rw [List.map_append, steps_append hr]
    show (r.step _).bind _ = _
    rw [hn]
    rfl
  | mode text h ht ih =>
    obtain ⟨r, hr, hf⟩ := ih
    obtain ⟨middle, next, hm, hn, hf⟩ := mode_flag hf ht
    refine ⟨next, ?_, hf⟩
    rw [List.map_append, steps_append hr]
    show (r.step _).bind _ = _
    rw [hm]
    show (middle.step _).bind _ = _
    rw [hn]
    rfl
  | attached text h ht ih =>
    obtain ⟨r, hr, hf⟩ := ih
    obtain ⟨next, hn, hf⟩ := attached_flag hf ht
    refine ⟨next, ?_, hf⟩
    rw [List.map_append, steps_append hr]
    show (r.step _).bind _ = _
    rw [hn]
    rfl

/-! ## The script and what comes behind it -/

def afterScript (mode : Option EntryMode) (isVerbose : Bool) (script : String) : Reading :=
  ⟨⟨mode, isVerbose, none, []⟩, .script (encodeString script), true, false⟩

variable {script : String} {rest : List String}

theorem script_read (h : AfterFlags r mode isVerbose) (hs : script.toList.head? ≠ some '-') :
    r.step (encodeString script) = .ok (afterScript mode isVerbose script) := by
  rw [step_value h.trailing fun hd => absurd hd hs]
  have hplace : r.value (encodeString script) = r.place (encodeString script) := by
    unfold Reading.value
    split
    · next hp =>
      have hr := h.resolved
      rw [resolve, hp] at hr
      cases hr
    · rfl
  rw [hplace, place, h.script, h.resolved]
  rfl

theorem script_resolved (mode : Option EntryMode) (isVerbose : Bool) (script : String) :
    (afterScript mode isVerbose script).resolve =
      .ok ⟨⟨mode, isVerbose, some script, []⟩, .nothing, true, false⟩ := by
  simp only [afterScript, resolve, textOf_encode, bind, Except.bind]
  rfl

theorem first_read {first : String} (hf : isOwn first = false) :
    (afterScript mode isVerbose script).step (encodeString first) =
      .ok ⟨⟨mode, isVerbose, some script, []⟩, .rest [encodeString first], true, true⟩ := by
  rw [step_foreign rfl rfl hf]
  show (afterScript mode isVerbose script).place (encodeString first) = _
  unfold place
  show (afterScript mode isVerbose script).resolve.bind _ = _
  rw [script_resolved]
  rfl

theorem rest_read (a : Arguments) (more : List Bytes) : ∀ values : List Bytes,
    more.foldlM step ⟨a, .rest values, true, true⟩ = .ok ⟨a, .rest (values ++ more), true, true⟩ := by
  induction more with
  | nil =>
    intro values
    rw [List.append_nil]
    rfl
  | cons value more ih =>
    intro values
    rw [List.foldlM_cons]
    show List.foldlM step ⟨a, .rest (values ++ [value]), true, true⟩ more = _
    rw [ih, List.append_assoc, List.singleton_append]

theorem texts_read (texts : List String) : (texts.map encodeString).mapM textOf = .ok texts := by
  induction texts with
  | nil => rfl
  | cons text texts ih =>
    rw [List.map_cons, List.mapM_cons, textOf_encode, ih]
    rfl

end Reading

open Reading

theorem parse_eq (arguments : List Bytes) :
    Arguments.parse arguments = (arguments.foldlM step start).bind fun r =>
      r.resolve.bind fun r => .ok r.arguments := rfl

section

variable {flags : List String} {mode : Option EntryMode} {isVerbose : Bool} {script : String}
  {rest : List String}

theorem parse_script (hf : Flagged flags mode isVerbose) (hs : script.toList.head? ≠ some '-') :
    Arguments.parse ((flags ++ script :: rest).map encodeString) =
      ((rest.map encodeString).foldlM step (afterScript mode isVerbose script)).bind fun r =>
        r.resolve.bind fun r => .ok r.arguments := by
  obtain ⟨r, hr, hflags⟩ := flags_read hf
  rw [parse_eq, List.map_append, steps_append hr, List.map_cons, List.foldlM_cons,
    script_read hflags hs]
  rfl

theorem parse_passed (hf : Flagged flags mode isVerbose) (hs : script.toList.head? ≠ some '-')
    (hr : ∀ first, rest.head? = some first → isOwn first = false) :
    Arguments.parse ((flags ++ script :: rest).map encodeString) =
      .ok ⟨mode, isVerbose, some script, rest⟩ := by
  rw [parse_script hf hs]
  cases rest with
  | nil =>
    show (afterScript mode isVerbose script).resolve.bind _ = _
    rw [script_resolved]
    rfl
  | cons first more =>
    rw [List.map_cons, List.foldlM_cons, first_read (hr first rfl)]
    show ((more.map encodeString).foldlM step _).bind _ = _
    rw [rest_read]
    have htexts := texts_read (first :: more)
    simp only [List.map_cons] at htexts
    simp only [Except.bind, resolve, List.singleton_append, htexts, bind]
    rfl

/-- An argument that the program takes is missing from those of the module, so that they are fewer. -/
theorem parse_taken (hf : Flagged flags mode isVerbose) (hs : script.toList.head? ≠ some '-')
    {first : String} (hr : rest.head? = some first) (ho : isOwn first = true) {given : Arguments}
    (h : Arguments.parse ((flags ++ script :: rest).map encodeString) = .ok given) :
    given.rest.length < rest.length := by
  rw [parse_script hf hs] at h
  cases rest with
  | nil => cases hr
  | cons other more =>
    obtain rfl := Option.some.inj hr
    rw [List.map_cons, List.foldlM_cons] at h
    obtain ⟨last, hl, h⟩ := bind_ok h
    obtain ⟨next, hn, hl⟩ := bind_ok hl
    obtain ⟨resolved, hres, h⟩ := bind_ok h
    obtain rfl := Except.ok.inj h
    have hown : next.held = 0 := step_own rfl ho hn
    have hmore := steps_held hl
    obtain ⟨hp, hheld⟩ := resolve_held hres
    have hrest : resolved.arguments.rest.length = resolved.held := by rw [held, hp]
    rw [hrest, hheld, List.length_cons]
    rw [List.length_map] at hmore
    omega

end

/-- The arguments behind the script are those of the module, as they are and in their order, if the
first of them is not one that the program takes for its own, and in no other case. Then the options
are what stands before the script, and the module runs with its name, the script and the rest. -/
theorem passed_iff {flags : List String} {mode : Option EntryMode} {isVerbose : Bool}
    {script : String} (rest : List String) (hf : Flagged flags mode isVerbose)
    (hs : script.toList.head? ≠ some '-') :
    let arguments := (flags ++ script :: rest).map encodeString
    let read : Arguments := ⟨mode, isVerbose, some script, rest⟩
    (Arguments.parse arguments = .ok read ↔
      ∀ first, rest.head? = some first → isOwn first = false) ∧
    (∀ first, rest.head? = some first → isOwn first = true → ∀ given,
      Arguments.parse arguments = .ok given → given.rest.length < rest.length) ∧
    ((∀ first, rest.head? = some first → isOwn first = false) →
      ∀ s name config view, Config.load s.files s.dir s.env = .ok config →
        Host.viewIn (read.forModule name) s.dir = .ok view →
        view.args = name :: script :: rest ∧
          run s name arguments = runModule s.files (read.configure config) view) := by
  intro arguments read
  have htaken : ∀ first, rest.head? = some first → isOwn first = true → ∀ given,
      Arguments.parse arguments = .ok given → given.rest.length < rest.length :=
    fun first hr ho given hg => parse_taken hf hs hr ho hg
  refine ⟨⟨fun hp first hr => ?_, parse_passed hf hs⟩, htaken, fun hr s name config view hc hv => ?_⟩
  · cases ho : isOwn first with
    | false => rfl
    | true => exact absurd (htaken first hr ho read hp) (Nat.lt_irrefl _)
  · have hargs : view.args = name :: script :: rest := by
      unfold Host.viewIn at hv
      split at hv
      · cases hv
      · split at hv
        · obtain rfl := Except.ok.inj hv
          rfl
        · cases hv
    have hread : Arguments.parse arguments = .ok read := parse_passed hf hs hr
    refine ⟨hargs, ?_⟩
    rw [run, hread]
    show runArguments s name read = _
    rw [runArguments, hc]
    dsimp only
    rw [hv]

/-- Dashes behind the first argument of the module. -/
theorem dashes_passed :
    Arguments.parse (["--entry-mode", "raw", "app.js", "-x", "--verbose", "--"].map encodeString) =
      .ok ⟨some .raw, false, some "app.js", ["-x", "--verbose", "--"]⟩ := by
  have hflags : Flagged ([] ++ ["--entry-mode", "raw"]) (some .raw) false :=
    .mode "raw" .none (by decide)
  exact (passed_iff ["-x", "--verbose", "--"] hflags (by decide)).1.mpr (by decide)

/-- An option directly behind the script is the program's, and the module does not see it. -/
theorem verbose_taken :
    Flagged [] none false ∧ "app.js".toList.head? ≠ some '-' ∧
      Arguments.parse (([] ++ "app.js" :: ["--verbose", "x"]).map encodeString) =
        .ok ⟨none, true, some "app.js", ["x"]⟩ := ⟨.none, by decide, by decide⟩

end CommandLine

end ScriptHost
