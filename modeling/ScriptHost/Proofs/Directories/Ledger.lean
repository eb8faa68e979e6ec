import Mathlib.Data.List.Basic
import ScriptHost.Proofs.Directories.Accounts

/-!
# The ledger of handles

Openings give out the numbers from one on, each once, and a handle is closed
with success at most once. A handle is open from the one to the other, so the
handles that are open are at every moment those that were given out and not
closed.
-/

set_option autoImplicit false

namespace ScriptHost.Directories

def issueIn : DirectoryEvent → Option Nat
  | .opened handle _ => some handle
  | _ => none

def closeIn : DirectoryEvent → Option Nat
  | .closed handle (.ok _) => some handle
  | _ => none

/-- The handles that were given out, oldest first. -/
def issues (d : Directories) : List Nat := d.history.filterMap issueIn

/-- The handles whose close succeeded, in the order in which they were closed. -/
def closes (d : Directories) : List Nat := d.history.filterMap closeIn

/-- What holds of the handles that were given out, those that were closed and those that are
open. -/
structure Ledger (d : Directories) : Prop where
  issues : d.issues = List.range' 1 d.issued
  given : ∀ handle ∈ d.closes, handle ∈ d.issues
  distinct : d.handles.Nodup
  current : ∀ handle, handle ∈ d.handles ↔ handle ∈ d.issues ∧ handle ∉ d.closes
  count : d.openCount + d.closes.length = d.issues.length

variable {d d' : Directories} {handle : Nat} {event : DirectoryEvent}

theorem issues_note : (d.note event).issues = d.issues ++ (issueIn event).toList :=
  history_note issueIn d event

theorem closes_note : (d.note event).closes = d.closes ++ (closeIn event).toList :=
  history_note closeIn d event

theorem close_open (ho : handle ∈ d.handles) :
    d.close handle =
      ({ d with handles := d.handles.erase handle }.note (.closed handle (.ok ())), .ok ()) := by
  simp [close, isOpen, ho]

theorem close_refused (ho : handle ∉ d.handles) :
    d.close handle = (d.note (.closed handle (badHandle handle)), badHandle handle) := by
  simp [close, isOpen, ho, List.erase_of_not_mem]

namespace Ledger

theorem empty : Ledger .empty := by
  constructor <;> simp [Directories.empty, Directories.issues, closes, openCount]

theorem fresh (h : Ledger d) : d.issued + 1 ∉ d.issues := by
  rw [h.issues, List.mem_range'_1]
  omega

theorem congr (h : Ledger d) (hi : d'.issues = d.issues) (hn : d'.issued = d.issued)
    (hc : d'.closes = d.closes) (hh : d'.handles = d.handles) : Ledger d' where
  issues := by rw [hi, hn, h.issues]
  given := by rw [hi, hc]; exact h.given
  distinct := by rw [hh]; exact h.distinct
  current := by rw [hi, hc, hh]; exact h.current
  count := by rw [openCount, hi, hc, hh]; exact h.count

theorem note (h : Ledger d) (hi : issueIn event = none) (hc : closeIn event = none) :
    Ledger (d.note event) := by
  apply h.congr
  · rw [issues_note, hi]
    exact List.append_nil _
  · rfl
  · rw [closes_note, hc]
    exact List.append_nil _
  · rfl

theorem issue (h : Ledger d) (entries : List DirectoryEntry) : Ledger (d.issue entries).1 := by
  have hi : (d.issue entries).1.issues = d.issues ++ [d.issued + 1] := issues_note
  have hc : (d.issue entries).1.closes = d.closes := closes_note.trans (List.append_nil _)
  have hh : (d.issue entries).1.handles = d.handles ++ [d.issued + 1] := rfl
  have hopen : d.issued + 1 ∉ d.handles := fun hm => h.fresh ((h.current _).mp hm).1
  constructor
  · rw [hi, h.issues]
    show _ = List.range' 1 (d.issued + 1)
    rw [List.range'_1_concat, Nat.add_comm 1]
  · intro handle hm
    rw [hc] at hm
    rw [hi]
    exact List.mem_append_left _ (h.given handle hm)
  · rw [hh]
    refine List.nodup_append.mpr ⟨h.distinct, by simp, ?_⟩
    intro handle hm new hn he
    exact hopen (List.mem_singleton.mp hn ▸ he ▸ hm)
  · intro handle
    rw [hh, hi, hc, List.mem_append, List.mem_append, List.mem_singleton, h.current]
    constructor
    · rintro (⟨hg, hn⟩ | rfl)
      · exact ⟨.inl hg, hn⟩
      · exact ⟨.inr rfl, fun hm => h.fresh (h.given _ hm)⟩
    · rintro ⟨hg | rfl, hn⟩
      · exact .inl ⟨hg, hn⟩
      · exact .inr rfl
  · rw [openCount, hh, hi, hc, List.length_append, List.length_append, ← h.count]
    exact Nat.add_right_comm _ _ _

theorem closed (h : Ledger d) (ho : handle ∈ d.handles) :
    Ledger ({ d with handles := d.handles.erase handle }.note (.closed handle (.ok ()))) := by
  let after := { d with handles := d.handles.erase handle }.note (.closed handle (.ok ()))
  have hi : after.issues = d.issues := issues_note.trans (List.append_nil _)
  have hc : after.closes = d.closes ++ [handle] := closes_note
  have hh : after.handles = d.handles.erase handle := rfl
  show Ledger after
  constructor
  · rw [hi]
    exact h.issues
  · intro other hm
    rw [hc] at hm
    rw [hi]
    rcases List.mem_append.mp hm with hm | hm
    · exact h.given other hm
    · exact List.mem_singleton.mp hm ▸ ((h.current handle).mp ho).1
  · rw [hh]
    exact h.distinct.erase handle
  · intro other
    rw [hh, hi, hc, h.distinct.mem_erase_iff, h.current, List.mem_append, List.mem_singleton,
      not_or]
    exact ⟨fun ⟨hn, hi, hc⟩ => ⟨hi, hc, hn⟩, fun ⟨hi, hc, hn⟩ => ⟨hn, hi, hc⟩⟩
  · have hl : (d.handles.erase handle).length + 1 = d.openCount := List.length_erase_add_one ho
    rw [openCount, hh, hi, hc, List.length_append, ← h.count, ← hl]
    exact (Nat.add_right_comm _ 1 _).symm

theorem turn {a : Step} (h : Ledger d) (ht : Turn d a d') : Ledger d' := by
  cases ht with
  | opened entries => exact h.issue entries
  | closed handle =>
    by_cases ho : handle ∈ d.handles
    · rw [close_open ho]
      exact h.closed ho
    · rw [close_refused ho]
      exact h.note rfl rfl
  | refused handle count failure => exact h.note rfl rfl
  | started handle count hc ho =>
    have hs : Ledger { d with
        accepted := d.accepted + 1
        reads := d.reads ++ [(d.accepted, DirectoryRead.mk handle count [])]
        spawned := d.spawned ++ [d.accepted] } := h.congr rfl rfl rfl rfl
    exact hs.note rfl rfl
  | begun | took => exact h.congr rfl rfl rfl rfl
  | ended read r stream entries page hh he =>
    have hs : Ledger ({ d with reads := d.reads.filter (·.1 ≠ read) }.setStream r.handle
        { entries, line := stream.line.tail }) := h.congr rfl rfl rfl rfl
    exact hs.note rfl rfl

end Ledger

theorem run_ledger {steps : List Step} (h : Ledger d) (hr : d.run steps = some d') :
    Ledger d' :=
  runsBy.keeps (fun _ _ _ _ hl hs => hl.turn (step_turn hs)) hr h

end ScriptHost.Directories
