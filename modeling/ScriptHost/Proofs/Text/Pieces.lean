import Mathlib.Data.List.TakeWhile

/-!
# The pieces of a text

The pieces between separators hold the elements of the text that do not
separate, and no others. Reading all pieces succeeds if reading each of them does,
and a reader that goes on from another succeeds only after that one.
-/

set_option autoImplicit false

namespace ScriptHost

section Splitting

variable {α : Type} {p : α → Bool} {text piece : List α} {c : α}

theorem mem_piece (h : piece ∈ text.splitOnP p) (hc : c ∈ piece) : c ∈ text ∧ p c = false := by
  induction text generalizing piece with
  | nil =>
    rw [List.splitOnP_nil, List.mem_singleton] at h
    rw [h] at hc
    cases hc
  | cons d text ih =>
    rw [List.splitOnP_cons_eq_if_modifyHead] at h
    split at h
    · rcases List.mem_cons.mp h with rfl | h
      · cases hc
      · exact (ih h hc).imp_left (List.mem_cons_of_mem d)
    · rename_i hd
      cases hs : text.splitOnP p with
      | nil => exact absurd hs (List.splitOnP_ne_nil p text)
      | cons first rest =>
        rw [hs] at h ih
        rw [List.modifyHead_cons] at h
        rcases List.mem_cons.mp h with rfl | h
        · rcases List.mem_cons.mp hc with rfl | hc
          · exact ⟨List.mem_cons_self, Bool.eq_false_iff.mpr hd⟩
          · exact (ih List.mem_cons_self hc).imp_left (List.mem_cons_of_mem d)
        · exact (ih (List.mem_cons_of_mem first h) hc).imp_left (List.mem_cons_of_mem d)

theorem splitOnP_congr {q : α → Bool} (h : ∀ c ∈ text, p c = q c) :
    text.splitOnP p = text.splitOnP q := by
  induction text with
  | nil => rfl
  | cons c text ih =>
    rw [List.splitOnP_cons_eq_if_modifyHead, List.splitOnP_cons_eq_if_modifyHead,
      h c List.mem_cons_self, ih fun d hd => h d (List.mem_cons_of_mem c hd)]

theorem split_last [DecidableEq α] {sep : α} (front : List α) {back : List α} (h : sep ∉ back) :
    ((front ++ sep :: back).reverse.takeWhile (· ≠ sep)).reverse = back ∧
      (front ++ sep :: back).take ((front ++ sep :: back).length - back.length - 1) = front := by
  have free : ∀ c ∈ back.reverse, decide (c ≠ sep) = true := fun c hc =>
    decide_eq_true fun he => h (he ▸ List.mem_reverse.mp hc)
  have length : (front ++ sep :: back).length - back.length - 1 = front.length := by
    simp only [List.length_append, List.length_cons]
    omega
  constructor
  · rw [List.reverse_append, List.reverse_cons, List.append_assoc,
      List.takeWhile_append_of_pos free]
    simp
  · rw [length, List.take_left]

end Splitting

section Reading

variable {α β : Type} {read : α → Option β} {pieces : List α} {values : List β}

theorem mapM_cons_eq_some {piece : α} (h : (piece :: pieces).mapM read = some values) :
    ∃ v vs, read piece = some v ∧ pieces.mapM read = some vs ∧ values = v :: vs := by
  rw [List.mapM_cons] at h
  obtain ⟨v, hv, h⟩ := Option.bind_eq_some_iff.mp h
  obtain ⟨vs, hvs, h⟩ := Option.bind_eq_some_iff.mp h
  exact ⟨v, vs, hv, hvs, (Option.some.inj h).symm⟩

theorem mem_of_mapM (h : pieces.mapM read = some values) :
    ∀ v ∈ values, ∃ piece ∈ pieces, read piece = some v := by
  induction pieces generalizing values with
  | nil =>
    cases h
    simp
  | cons piece pieces ih =>
    obtain ⟨v, vs, hv, hvs, rfl⟩ := mapM_cons_eq_some h
    intro w hw
    rcases List.mem_cons.mp hw with rfl | hw
    · exact ⟨piece, List.mem_cons_self, hv⟩
    · exact (ih hvs w hw).imp fun _ hp => hp.imp_left (List.mem_cons_of_mem piece)

theorem mapM_ne_nil (hne : pieces ≠ []) (h : pieces.mapM read = some values) : values ≠ [] := by
  cases pieces with
  | nil => exact absurd rfl hne
  | cons piece pieces =>
    obtain ⟨v, vs, -, -, rfl⟩ := mapM_cons_eq_some h
    exact List.cons_ne_nil v vs

theorem mapM_written {write : β → α} (h : ∀ v ∈ values, read (write v) = some v) :
    (values.map write).mapM read = some values := by
  induction values with
  | nil => rfl
  | cons v values ih =>
    rw [List.map_cons, List.mapM_cons, h v List.mem_cons_self,
      ih fun w hw => h w (List.mem_cons_of_mem v hw)]
    rfl

variable {ε γ : Type} {x : Except ε α} {c : γ}

theorem ok_of_bind {next : α → Except ε γ} (h : x >>= next = .ok c) :
    ∃ a, x = .ok a ∧ next a = .ok c := by
  cases x with
  | error e => cases h
  | ok a => exact ⟨a, rfl, h⟩

theorem ok_of_map {f : α → γ} (h : x.map f = .ok c) : ∃ a, x = .ok a ∧ f a = c := by
  cases x with
  | error e => cases h
  | ok a => exact ⟨a, rfl, Except.ok.inj h⟩

end Reading

end ScriptHost
