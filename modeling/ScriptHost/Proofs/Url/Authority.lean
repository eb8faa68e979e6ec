import ScriptHost.Proofs.Url.Host
import ScriptHost.Url.Authority

/-!
# Reading back the server part

User information is escaped so far that it has no at sign of its own and at most
one colon. The host is closed, and the port is written only if it is not the
scheme's own. So the text of a server part is divided where its parts meet.
-/

set_option autoImplicit false

namespace ScriptHost.Url

open Host (IsServerChar IsClosed)

section Userinfo

variable {text name password after : List Char}

structure IsUserinfo (text : List Char) : Prop where
  ne_nil : text ≠ []
  read : userinfoText text = text ++ ['@']
  chars : ∀ c ∈ text, IsServerChar c

theorem serverChar_userinfo {c : Char} (h : Percent.Place.keeps .userinfo c = true) :
    IsServerChar c ∧ c ≠ ':' := by
  have other : ∀ d ∈ Host.serverMarks, c ≠ d := by
    rintro d hd rfl
    have escaped : Host.serverMarks.all (Percent.Place.keeps .userinfo · = false) := by decide
    rw [List.all_iff_forall_prop.mp escaped c hd] at h
    cases h
  obtain ⟨char, colon, -⟩ := Host.serverChar_of (Percent.keeps_bounds h).1 other
  exact ⟨char, colon⟩

theorem userinfoText_name (h : ∀ c ∈ name, c ≠ ':') (hne : Percent.encode .userinfo name ≠ []) :
    userinfoText name = Percent.encode .userinfo name ++ ['@'] := by
  have take : name.takeWhile (· ≠ ':') = name := by
    rw [List.takeWhile_eq_self_iff]
    exact fun c hc => decide_eq_true (h c hc)
  have drop : name.dropWhile (· ≠ ':') = [] := by
    rw [List.dropWhile_eq_nil_iff]
    exact fun c hc => decide_eq_true (h c hc)
  simp only [userinfoText, take, drop]
  rw [if_neg (by simpa using hne)]

theorem userinfoText_both (h : ∀ c ∈ name, c ≠ ':') (hp : password ≠ []) :
    userinfoText (name ++ ':' :: password) =
      Percent.encode .userinfo name ++ ':' :: Percent.encode .userinfo password ++ ['@'] := by
  have free : ∀ c ∈ name, decide (c ≠ ':') = true := fun c hc => decide_eq_true (h c hc)
  have take : (name ++ ':' :: password).takeWhile (· ≠ ':') = name := by
    rw [List.takeWhile_append_of_pos free, List.takeWhile_cons_of_neg (by simp), List.append_nil]
  have drop : (name ++ ':' :: password).dropWhile (· ≠ ':') = ':' :: password := by
    rw [List.dropWhile_append_of_pos free, List.dropWhile_cons_of_neg (by simp)]
  cases password with
  | nil => exact absurd rfl hp
  | cons c password =>
    simp only [userinfoText, take, drop]
    rw [if_neg (by simp)]

theorem isUserinfo_name (text : List Char) (hne : Percent.encode .userinfo text ≠ []) :
    IsUserinfo (Percent.encode .userinfo text) := by
  have chars : ∀ c ∈ Percent.encode .userinfo text, IsServerChar c ∧ c ≠ ':' := fun c hc =>
    serverChar_userinfo (Percent.keeps_encode (by decide) c hc)
  have same : Percent.encode .userinfo (Percent.encode .userinfo text) =
      Percent.encode .userinfo text := Percent.encode_encode (by decide) text
  refine ⟨hne, ?_, fun c hc => (chars c hc).1⟩
  rw [userinfoText_name (fun c hc => (chars c hc).2) (by rwa [same]), same]

theorem isUserinfo_both (name : List Char) (hp : password ≠ []) :
    IsUserinfo (Percent.encode .userinfo name ++ ':' :: Percent.encode .userinfo password) := by
  have chars : ∀ text, ∀ c ∈ Percent.encode .userinfo text, IsServerChar c ∧ c ≠ ':' :=
    fun _ c hc => serverChar_userinfo (Percent.keeps_encode (by decide) c hc)
  refine ⟨by simp, ?_, fun c hc => ?_⟩
  · rw [userinfoText_both (fun c hc => (chars name c hc).2) (Percent.encode_ne_nil hp),
      Percent.encode_encode (by decide), Percent.encode_encode (by decide)]
  · rw [List.mem_append, List.mem_cons] at hc
    rcases hc with hc | rfl | hc
    · exact (chars name c hc).1
    · decide
    · exact (chars password c hc).1

theorem userinfoText_cases (text : List Char) :
    userinfoText text = [] ∨ ∃ u, userinfoText text = u ++ ['@'] ∧ IsUserinfo u := by
  have only (name : List Char) : (if (Percent.encode .userinfo name).isEmpty then []
        else Percent.encode .userinfo name ++ ['@']) = [] ∨
      ∃ u, (if (Percent.encode .userinfo name).isEmpty then []
        else Percent.encode .userinfo name ++ ['@']) = u ++ ['@'] ∧ IsUserinfo u := by
    split
    · exact Or.inl rfl
    · rename_i hne
      exact Or.inr ⟨_, rfl, isUserinfo_name name (by simpa using hne)⟩
  unfold userinfoText
  simp only
  split
  · exact only _
  · exact only _
  · rename_i colon password hp _
    rw [if_neg (by simp)]
    exact Or.inr ⟨_, rfl, isUserinfo_both _ fun he => hp (by rw [he])⟩

theorem splitUserinfo_none (h : '@' ∉ text) : splitUserinfo text = none := by
  rw [splitUserinfo, if_neg (by simpa using h)]

/-- The last at sign ends the user information. -/
theorem splitUserinfo_some (text : List Char) (h : '@' ∉ after) :
    splitUserinfo (text ++ '@' :: after) = some (text, after) := by
  obtain ⟨last, front⟩ := split_last text h
  rw [splitUserinfo, if_pos (by simp)]
  simp only [last, front]

end Userinfo

section Hosts

variable {text rest : List Char} {host : Host} {special : Bool}

theorem splitHost_end (h : rest.head?.all (· = ':')) : splitHost false rest = ([], rest) := by
  cases rest with
  | nil => rfl
  | cons c rest =>
    have hc : c = ':' := by simpa using h
    rw [splitHost, hc]
    rfl

theorem splitHost_closed (h : IsClosed text) (hr : rest.head?.all (· = ':')) :
    splitHost false (text ++ rest) = (text, rest) := by
  have ends := splitHost_end hr
  rcases h with ⟨inner, rfl, hi⟩ | hc
  · have inside : splitHost true (inner ++ ']' :: rest) = (inner ++ [']'], rest) := by
      induction inner with
      | nil => simp [splitHost, ends]
      | cons c inner ih =>
        obtain ⟨left, right⟩ := hi c List.mem_cons_self
        have hr := ih fun d hd => hi d (List.mem_cons_of_mem c hd)
        simp [splitHost, left, right, hr]
    rw [List.append_assoc, List.singleton_append, List.cons_append]
    simp [splitHost, inside]
  · induction text with
    | nil => exact ends
    | cons c text ih =>
      obtain ⟨colon, left⟩ := hc c List.mem_cons_self
      have hr := ih fun d hd => hc d (List.mem_cons_of_mem c hd)
      simp [splitHost, colon, left, hr]

theorem readHost_text (h : host.IsWritten special) :
    readHost special host.text = .ok (some host) := by
  unfold readHost
  cases special with
  | true =>
    rw [if_pos rfl, if_neg (by simpa using h.ne_nil), h.read_domainText]
    rfl
  | false => exact h.read_plainText

theorem written_of_readHost {result : Option Host} (h : readHost special text = .ok result) :
    (result = none → special = false) ∧ ∀ host, result = some host → host.IsWritten special := by
  unfold readHost at h
  split at h
  · rename_i hs
    subst hs
    split at h
    · cases h
    · obtain ⟨host, hd, rfl⟩ := ok_of_map h
      exact ⟨nofun, fun host he => Option.some.inj he ▸ Host.written_of_domainText hd⟩
  · rename_i hs
    rw [Bool.not_eq_true] at hs
    subst hs
    exact ⟨fun _ => rfl, fun host he => Host.written_of_plainText (he ▸ h)⟩

end Hosts

section Ports

variable {scheme text : List Char} {port : Nat}

def IsPort (scheme : List Char) (port : Nat) : Prop :=
  port ≤ 65535 ∧ defaultPort? scheme ≠ some port

theorem isDigit_decimal {c : Char} (h : c ∈ decimal port) : Ascii.isDigit c = true := by
  obtain ⟨d, hd, rfl⟩ := mem_toDigits (by decide) port h
  have all : ∀ d < 10, Ascii.isDigit (Nat.digitChar d) = true := by decide
  exact all d hd

theorem portValue_decimal (port : Nat) : portValue (decimal port) = port :=
  foldl_toDigits (by decide) (by decide) port

theorem readPort_decimal (h : IsPort scheme port) :
    readPort scheme (decimal port) = .ok (some port, []) := by
  have take : (decimal port).takeWhile Ascii.isDigit = decimal port :=
    List.takeWhile_eq_self_iff.mpr fun _ hc => isDigit_decimal hc
  have drop : (decimal port).dropWhile Ascii.isDigit = [] :=
    List.dropWhile_eq_nil_iff.mpr fun _ hc => isDigit_decimal hc
  have some_digit : (decimal port).isEmpty = false :=
    List.isEmpty_eq_false_iff.mpr Nat.toDigits_ne_nil
  have own : decide (defaultPort? scheme = some port) = false := decide_eq_false h.2
  rw [readPort, take, drop, portValue_decimal, if_neg (Nat.not_lt.mpr h.1)]
  simp only [some_digit, own]
  rfl

theorem written_of_readPort {result : Option Nat} {rest : List Char}
    (h : readPort scheme text = .ok (result, rest)) :
    ∀ port, result = some port → IsPort scheme port := by
  unfold readPort at h
  simp only at h
  split at h
  · cases h
  rename_i small
  have kept {given : Bool} : ∀ port,
      (if given || defaultPort? scheme = some (portValue (text.takeWhile Ascii.isDigit)) then none
        else some (portValue (text.takeWhile Ascii.isDigit))) = some port →
      IsPort scheme port := by
    intro port hp
    split at hp
    · cases hp
    · rename_i own
      cases hp
      exact ⟨by omega, fun he => own (by simp [he])⟩
  split at h
  · cases h
    exact kept
  · cases h
    exact kept
  · cases h

end Ports

section Servers

variable {scheme text rest : List Char} {host : Option Host} {port : Option Nat} {a : Authority}
  {ended : Bool}

structure IsServer (scheme : List Char) (host : Option Host) (port : Option Nat) : Prop where
  named : ∀ h, host = some h → h.IsWritten (isSpecialScheme scheme)
  nameless : host = none → isSpecialScheme scheme = false ∧ port = none
  ported : ∀ p, port = some p → IsPort scheme p

structure Authority.IsWritten (scheme : List Char) (a : Authority) : Prop where
  server : IsServer scheme a.host a.port
  userinfo : a.userinfo = [] ∨ a.host ≠ none ∧ ∃ u, a.userinfo = u ++ ['@'] ∧ IsUserinfo u

theorem written_of_readServer (h : readServer scheme text = .ok (host, port, rest)) :
    IsServer scheme host port := by
  unfold readServer at h
  simp only at h
  split at h
  · cases h
  · rename_i host' hh
    obtain ⟨none_host, some_host⟩ := written_of_readHost hh
    split at h
    · rename_i portText _
      split at h
      · cases h
      · rename_i some_name
        obtain ⟨result, hp, he⟩ := ok_of_map h
        cases he
        exact ⟨some_host, fun he => absurd (by rw [he]; rfl) some_name, written_of_readPort hp⟩
    · cases h
      exact ⟨some_host, fun he => ⟨none_host he, rfl⟩, nofun⟩

theorem map_server {result : Except Failure (Option Host × Option Nat × List Char)}
    {userinfo : List Char} (h : (result.map fun (host, port, rest) =>
      ((⟨userinfo, host, port⟩ : Authority), rest)) = .ok (a, rest)) :
    result = .ok (a.host, a.port, rest) ∧ a.userinfo = userinfo := by
  obtain ⟨server, rfl, he⟩ := ok_of_map h
  cases he
  exact ⟨rfl, rfl⟩

theorem written_of_readAuthority (h : readAuthority scheme text ended = .ok (a, rest)) :
    a.IsWritten scheme := by
  unfold readAuthority at h
  split at h
  · obtain ⟨hs, hu⟩ := map_server h
    exact ⟨written_of_readServer hs, Or.inl hu⟩
  · split at h
    · cases h
    · obtain ⟨hs, hu⟩ := map_server h
      exact ⟨written_of_readServer hs, Or.inl hu⟩
  · rename_i userinfo after _ _
    cases hs : readServer scheme after with
    | error failure =>
      rw [hs] at h
      cases h
    | ok server =>
      rw [hs] at h
      simp only at h
      split at h
      · cases h
      · rename_i named
        cases h
        refine ⟨written_of_readServer hs, ?_⟩
        refine (userinfoText_cases userinfo).imp_right fun hu => ⟨fun he => named ?_, hu⟩
        obtain ⟨u, hu, -⟩ := hu
        change server.1 = none at he
        change userinfoText userinfo = u ++ ['@'] at hu
        simp [he, hu]

theorem IsServer.chars (h : IsServer scheme host port) :
    ∀ c ∈ hostText host ++ portText port, IsServerChar c := by
  intro c hc
  rcases List.mem_append.mp hc with hc | hc
  · cases host with
    | none => cases hc
    | some host => exact (h.named host rfl).chars c hc
  · cases port with
    | none => cases hc
    | some port =>
      rcases List.mem_cons.mp hc with rfl | hc
      · decide
      · obtain ⟨d, hd, rfl⟩ := mem_toDigits (by decide) port hc
        have all : ∀ d < 10, IsServerChar (Nat.digitChar d) := by decide
        exact all d hd

theorem IsServer.read (h : IsServer scheme host port) :
    readServer scheme (hostText host ++ portText port) = .ok (host, port, []) := by
  cases host with
  | none =>
    obtain ⟨plain, rfl⟩ := h.nameless rfl
    simp [readServer, hostText, portText, splitHost, readHost, plain, Host.ofPlainText]
  | some host =>
    have hw := h.named host rfl
    have begins : (portText port).head?.all (· = ':') := by cases port <;> rfl
    unfold readServer
    rw [hostText, splitHost_closed hw.closed begins]
    simp only [readHost_text hw]
    cases port with
    | none => rfl
    | some port =>
      simp only [portText, readPort_decimal (h.ported port rfl)]
      rfl

theorem Authority.IsWritten.chars (h : a.IsWritten scheme) :
    ∀ c ∈ a.text, IsLiteral c ∧ isSlash c = false := by
  intro c hc
  rw [Authority.text, List.append_assoc] at hc
  rcases List.mem_append.mp hc with hc | hc
  · rcases h.userinfo with he | ⟨-, u, he, hu⟩
    · rw [he] at hc
      cases hc
    · rw [he] at hc
      rcases List.mem_append.mp hc with hc | hc
      · exact ⟨(hu.chars c hc).literal, (hu.chars c hc).slash⟩
      · rw [List.mem_singleton.mp hc]
        exact ⟨by decide, by decide⟩
  · exact ⟨(h.server.chars c hc).literal, (h.server.chars c hc).slash⟩

theorem Authority.IsWritten.read (h : a.IsWritten scheme) (ended : Bool) :
    readAuthority scheme a.text ended = .ok (a, []) := by
  have free : '@' ∉ hostText a.host ++ portText a.port := fun hm => (h.server.chars '@' hm).sign rfl
  rw [Authority.text, List.append_assoc]
  rcases h.userinfo with he | ⟨named, u, he, hu⟩
  · rw [he, List.nil_append, readAuthority, splitUserinfo_none free]
    simp only [h.server.read]
    cases a
    cases he
    rfl
  · rw [he, List.append_assoc, List.singleton_append, readAuthority, splitUserinfo_some u free]
    have given : a.host.isNone = false :=
      Option.isNone_eq_false_iff.mpr (Option.isSome_iff_ne_none.mpr named)
    split
    · rename_i hm
      cases hm
    · rename_i hm
      cases hm
      exact absurd rfl hu.ne_nil
    · rename_i hm
      cases hm
      simp only [h.server.read, given, hu.read, ← he]
      rfl

theorem Authority.IsWritten.ne_nil (h : a.IsWritten scheme) (hs : isSpecialScheme scheme = true) :
    a.text ≠ [] := by
  cases hh : a.host with
  | none =>
    have plain := (h.server.nameless hh).1
    rw [hs] at plain
    cases plain
  | some host =>
    have hne := (h.server.named host hh).ne_nil
    simp [Authority.text, hh, hostText, hne]

end Servers

end ScriptHost.Url
