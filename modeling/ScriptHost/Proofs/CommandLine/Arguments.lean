import ScriptHost.CommandLine.Arguments
import ScriptHost.Proofs.Text.Ascii

/-!
# What arguments are taken for

The program takes an argument behind the script for its own if it is an option
that it knows, or two dashes. The first argument that is not begins those of the
module, and from it on nothing is looked at.
-/

set_option autoImplicit false

namespace ScriptHost.CommandLine

open Utf8

def ownNames : List String := ["entry-mode", "verbose", "help", "version"]

/-- Arguments that the program takes for its own, also behind the script. -/
def isOwn (argument : String) : Bool :=
  match argument.toList with
  | '-' :: '-' :: body => body.isEmpty || ownNames.contains (String.ofList (body.takeWhile (· ≠ '=')))
  | '-' :: letters => !letters.isEmpty && letters.all Reading.isKnownShort
  | _ => false

/-- What an argument looks like: a value, two dashes, a long option, or letters behind one dash. -/
inductive Shape : String → Prop
  | value (text : String) (h : text.toList.head? = some '-' → text.toList = ['-']) : Shape text
  | dashes : Shape "--"
  | long (body : List Char) (h : body ≠ []) : Shape (String.ofList ('-' :: '-' :: body))
  | short (c : Char) (body : List Char) (h : c ≠ '-') : Shape (String.ofList ('-' :: c :: body))

theorem shape (text : String) : Shape text := by
  rw [← String.ofList_toList (s := text)]
  generalize text.toList = chars
  rcases chars with _ | ⟨a, _ | ⟨c, body⟩⟩
  · exact .value _ (by simp)
  · exact .value _ (by simp)
  · by_cases ha : a = '-'
    · subst ha
      by_cases hc : c = '-'
      · subst hc
        cases body with
        | nil => exact .dashes
        | cons d body => exact .long (d :: body) (List.cons_ne_nil _ _)
      · exact .short c body hc
    · exact .value _ (by simp [ha])

theorem isOwn_value {text : String} (h : text.toList.head? = some '-' → text.toList = ['-']) :
    isOwn text = false := by
  unfold isOwn
  split
  · next hl => simp [hl] at h
  · next letters hd hl => simp [hl] at h; simp [h]
  · rfl

theorem isOwn_long {body : List Char} (h : body ≠ []) :
    isOwn (String.ofList ('-' :: '-' :: body)) =
      ownNames.contains (String.ofList (body.takeWhile (· ≠ '='))) := by
  cases body with
  | nil => exact absurd rfl h
  | cons c body => simp [isOwn]

theorem isOwn_short {c : Char} (body : List Char) (h : c ≠ '-') :
    isOwn (String.ofList ('-' :: c :: body)) = (c :: body).all Reading.isKnownShort := by
  simp [isOwn, h]

namespace Reading

variable {r r' : Reading} {body : List Char}

/-! ## Steps on text -/

theorem encode_dash (text : List Char) : encode ('-' :: text) = dash :: encode text := by
  rw [encode_cons, char_of_ascii (by decide)]
  rfl

theorem step_value {text : String} (ht : r.isTrailing = false)
    (hd : text.toList.head? = some '-' → text.toList = ['-']) :
    r.step (encodeString text) = r.value (encodeString text) := by
  unfold step
  rw [ht, if_neg Bool.false_ne_true]
  unfold encodeString
  rcases hl : text.toList with _ | ⟨c, rest⟩
  · rfl
  · by_cases hc : c = '-'
    · subst hc
      obtain ⟨-, rfl⟩ := List.cons.inj (hl.symm.trans (hd (by rw [hl]; rfl)))
      rfl
    · split
      · next a b more he =>
        have ha : a ≠ dash := fun ha => hc ((encode_head (a := '-') (by decide) he).mp ha)
        rw [if_pos ha]
      · rfl

theorem step_dashes (ht : r.isTrailing = false) :
    r.step (encodeString "--") = .ok { r with isTrailing := true } := by
  have he : encodeString "--" = [dash, dash] := by decide
  unfold step
  rw [he]
  simp [ht]

theorem step_long (ht : r.isTrailing = false) (hb : body ≠ []) :
    r.step (encode ('-' :: '-' :: body)) =
      r.longOption (encode ('-' :: '-' :: body)) (encode body) := by
  have hne : (encode body).isEmpty = false := by
    cases body with
    | nil => exact absurd rfl hb
    | cons c rest =>
      obtain ⟨lead, tail, hlead, -⟩ := leading_char c []
      rw [encode_cons, hlead]
      rfl
  unfold step
  rw [encode_dash, encode_dash]
  simp [ht, hne]

theorem step_short {c : Char} (ht : r.isTrailing = false) (hc : c ≠ '-') :
    r.step (encode ('-' :: c :: body)) =
      r.shortOptions (encode ('-' :: c :: body)) (encode (c :: body)) := by
  obtain ⟨lead, tail, hlead, -⟩ := leading_char c []
  have htail : encode (c :: body) = lead :: (tail ++ encode body) := by rw [encode_cons, hlead]; rfl
  have hne : lead ≠ dash := fun hl => hc ((encode_head (a := '-') (by decide) htail).mp hl)
  unfold step
  rw [encode_dash, htail]
  simp [ht, hne]

theorem longOption_name (body : List Char) :
    (encode body).takeWhile (· ≠ equals) = encode (body.takeWhile (· ≠ '=')) :=
  takeWhile_encode (a := '=') (by decide) body

/-- Behind the script an argument that is not the program's is a value. -/
theorem step_foreign {text : String} (ht : r.isTrailing = false) (hs : r.hasScript = true)
    (hf : isOwn text = false) : r.step (encodeString text) = r.value (encodeString text) := by
  cases shape text with
  | value _ hd => exact step_value ht hd
  | dashes => exact absurd hf (by decide)
  | long body hb =>
    rw [isOwn_long hb] at hf
    rw [encodeString, String.toList_ofList, step_long ht hb]
    have hunknown : r.unknown (encode ('-' :: '-' :: body)) (encode (body.takeWhile (· ≠ '='))) =
        r.value (encode ('-' :: '-' :: body)) := by
      rw [unknown, hs, text?_encode]
      rfl
    unfold longOption
    dsimp only
    rw [longOption_name, textLossy_encode]
    split
    · next he => exact absurd hf (by rw [he]; decide)
    · next he => exact absurd hf (by rw [he]; decide)
    · next he => exact absurd hf (by rw [he]; decide)
    · next he => exact absurd hf (by rw [he]; decide)
    · exact hunknown
  | short c body hc =>
    rw [isOwn_short body hc] at hf
    rw [encodeString, String.toList_ofList, step_short ht hc, shortOptions, hs, decodeLossy_encode, hf]
    rfl

/-! ## What is held for the module -/

def held (r : Reading) : Nat :=
  match r.pending with
  | .rest values => values.length
  | _ => r.arguments.rest.length

theorem bind_ok {A B : Type} {x : Except Stop A} {f : A → Except Stop B} {b : B}
    (h : x.bind f = .ok b) : ∃ a, x = .ok a ∧ f a = .ok b := by
  cases x with
  | error failure => cases h
  | ok a => exact ⟨a, rfl, h⟩

theorem setMode_rest {value : Bytes} (h : r.setMode value = .ok r') :
    r'.pending = r.pending ∧ r'.arguments.rest = r.arguments.rest := by
  unfold setMode at h
  split at h
  · cases h
  · obtain ⟨text, -, h⟩ := bind_ok h
    split at h
    · obtain rfl := Except.ok.inj h
      exact ⟨rfl, rfl⟩
    · cases h

theorem mapM_length {values : List Bytes} {texts : List String}
    (h : values.mapM textOf = .ok texts) : texts.length = values.length := by
  induction values generalizing texts with
  | nil =>
    obtain rfl := Except.ok.inj h
    rfl
  | cons value values ih =>
    rw [List.mapM_cons] at h
    obtain ⟨text, -, h⟩ := bind_ok h
    obtain ⟨rest, hr, h⟩ := bind_ok h
    obtain rfl := Except.ok.inj h
    exact congrArg Nat.succ (ih hr)

theorem resolve_held (h : r.resolve = .ok r') : r'.pending = .nothing ∧ r'.held = r.held := by
  unfold resolve at h
  unfold held
  split at h
  · next hp =>
    obtain rfl := Except.ok.inj h
    rw [hp]
    exact ⟨rfl, rfl⟩
  · cases h
  · next value hp =>
    obtain ⟨hpending, hrest⟩ := setMode_rest h
    rw [hpending, hrest, hp]
    exact ⟨rfl, rfl⟩
  · next value hp =>
    obtain ⟨text, -, h⟩ := bind_ok h
    obtain rfl := Except.ok.inj h
    rw [hp]
    exact ⟨rfl, rfl⟩
  · next values hp =>
    obtain ⟨texts, ht, h⟩ := bind_ok h
    obtain rfl := Except.ok.inj h
    rw [hp]
    exact ⟨rfl, mapM_length ht⟩

theorem stop_not_ok {instead : Stop} (h : r.stop instead = .ok r') : False := by
  obtain ⟨_, -, h⟩ := bind_ok h
  cases h

theorem verbose_held (h : r.verbose = .ok r') : r'.held = r.held := by
  obtain ⟨next, hn, h⟩ := bind_ok h
  obtain ⟨hp, hheld⟩ := resolve_held hn
  split at h
  · cases h
  · obtain rfl := Except.ok.inj h
    rw [← hheld]
    rfl

theorem place_held {value : Bytes} (h : r.place value = .ok r') : r'.held ≤ r.held + 1 := by
  unfold place at h
  split at h
  · split at h
    · next values hp =>
      obtain rfl := Except.ok.inj h
      simp [held, hp]
    · obtain ⟨next, -, h⟩ := bind_ok h
      obtain rfl := Except.ok.inj h
      exact Nat.le_add_left _ _
  · obtain ⟨next, hn, h⟩ := bind_ok h
    obtain ⟨hp, hheld⟩ := resolve_held hn
    obtain rfl := Except.ok.inj h
    unfold held at hheld ⊢
    rw [hp] at hheld
    rw [← hheld]
    exact Nat.le_succ _

theorem value_held {value : Bytes} (h : r.value value = .ok r') : r'.held ≤ r.held + 1 := by
  unfold Reading.value at h
  split at h
  · next hp =>
    obtain rfl := Except.ok.inj h
    simp [held, hp]
  · exact place_held h

theorem longOption_held {argument body : Bytes} (h : r.longOption argument body = .ok r') :
    r'.held = r.held ∨ r.unknown argument (body.takeWhile (· ≠ equals)) = .ok r' ∧
      ownNames.contains (textLossy (body.takeWhile (· ≠ equals))) = false := by
  have hswitch : ∀ {option : String} {attached : Option Bytes} {act : Step},
      switch option attached act = .ok r' → act = .ok r' := by
    intro option attached act hs
    cases attached with
    | some value => cases hs
    | none => exact hs
  unfold longOption at h
  dsimp only at h
  split at h
  · obtain ⟨next, hn, h⟩ := bind_ok h
    obtain ⟨hp, hheld⟩ := resolve_held hn
    refine .inl (Eq.trans ?_ hheld)
    split at h
    · obtain ⟨hpending, hrest⟩ := setMode_rest h
      simp [held, hpending, hp, hrest]
    · obtain rfl := Except.ok.inj h
      simp [held, hp]
  · exact .inl (verbose_held (hswitch h))
  · exact (stop_not_ok (hswitch h)).elim
  · exact (stop_not_ok (hswitch h)).elim
  · next name hmode hverbose hhelp hversion =>
    refine .inr ⟨h, ?_⟩
    simp only [ownNames, List.contains_eq_mem, List.mem_cons, List.not_mem_nil, or_false,
      decide_eq_false_iff_not]
    rintro (he | he | he | he)
    · exact hmode he
    · exact hverbose he
    · exact hhelp he
    · exact hversion he

theorem unknown_held {argument name : Bytes} (h : r.unknown argument name = .ok r') :
    r'.held ≤ r.held + 1 := by
  unfold unknown at h
  split at h
  · exact value_held h
  · cases h

theorem shortOptions_ok {argument body : Bytes} (h : r.shortOptions argument body = .ok r') :
    (decodeLossy body).all isKnownShort = false ∧ r.value argument = .ok r' := by
  unfold shortOptions at h
  split at h
  · next hv =>
    rw [Bool.and_eq_true, Bool.not_eq_true'] at hv
    exact ⟨hv.2, h⟩
  · split at h
    · exact (stop_not_ok h).elim
    · exact (stop_not_ok h).elim
    · cases h
    · cases h

theorem step_held {argument : Bytes} (h : r.step argument = .ok r') : r'.held ≤ r.held + 1 := by
  unfold step at h
  split at h
  · exact place_held h
  · split at h
    · split at h
      · exact value_held h
      · split at h
        · exact value_held (shortOptions_ok h).2
        · split at h
          · obtain rfl := Except.ok.inj h
            exact Nat.le_succ _
          · rcases longOption_held h with he | ⟨hu, -⟩
            · omega
            · exact unknown_held hu
    · exact value_held h

theorem step_own {text : String} (ht : r.isTrailing = false) (ho : isOwn text = true)
    (h : r.step (encodeString text) = .ok r') : r'.held = r.held := by
  cases shape text with
  | value _ hd =>
    rw [isOwn_value hd] at ho
    cases ho
  | dashes =>
    rw [step_dashes ht] at h
    obtain rfl := Except.ok.inj h
    rfl
  | long body hb =>
    rw [isOwn_long hb] at ho
    rw [encodeString, String.toList_ofList, step_long ht hb] at h
    rcases longOption_held h with he | ⟨-, hn⟩
    · exact he
    · rw [longOption_name, textLossy_encode, ho] at hn
      cases hn
  | short c body hc =>
    rw [isOwn_short body hc] at ho
    rw [encodeString, String.toList_ofList, step_short ht hc] at h
    have hn := (shortOptions_ok h).1
    rw [decodeLossy_encode, ho] at hn
    cases hn

theorem steps_held {arguments : List Bytes} (h : arguments.foldlM step r = .ok r') :
    r'.held ≤ r.held + arguments.length := by
  induction arguments generalizing r with
  | nil =>
    obtain rfl := Except.ok.inj h
    exact Nat.le_refl _
  | cons argument arguments ih =>
    rw [List.foldlM_cons] at h
    obtain ⟨next, hn, h⟩ := bind_ok h
    have hstep := step_held hn
    have hrest := ih h
    rw [List.length_cons]
    omega

end Reading

end ScriptHost.CommandLine
