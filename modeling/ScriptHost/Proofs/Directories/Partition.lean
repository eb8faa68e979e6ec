import ScriptHost.Proofs.Directories.Accounts
import ScriptHost.Proofs.Directories.Progress

/-!
# Pages partition the listing

However reads of one handle overlap with each other, with reads of other
handles, with opens and with closes, their pages are the consecutive slices of
what the directory lists, in the order in which the reads were started.
-/

set_option autoImplicit false

namespace ScriptHost.Directories

def namesOf : DirectoryPage → List String
  | .ok names => names
  | .error _ => []

/-- Pages that were delivered for the first of some reads cut a listing into consecutive slices. -/
structure Partition (names : List String) (starts : List (Nat × Nat))
    (deliveries : List (Nat × DirectoryPage)) : Prop where
  slice : ∀ k read (page : DirectoryPage), deliveries[k]? = some (read, page) → ∃ count,
    starts[k]? = some (read, count) ∧
      page = .ok ((names.drop (asked (starts.take k))).take count)
  size : ∀ k read count page, starts[k]? = some (read, count) →
    deliveries[k]? = some (read, .ok page) →
    page.length = min count (names.length - asked (starts.take k))
  whole : deliveries.flatMap (namesOf ·.2) = names.take (asked (starts.take deliveries.length))
  /-- A page that is not full is delivered at the end of the listing, and later pages are empty. -/
  short : ∀ k read count page, starts[k]? = some (read, count) →
    deliveries[k]? = some (read, .ok page) → page.length < count →
    names.length ≤ asked (starts.take (k + 1)) ∧
      ∀ later delivery, k < later → deliveries[later]? = some delivery → delivery.2 = .ok []

section Slices

variable {names : List String} {starts done : List (Nat × Nat)} {k later : Nat}
  {start : Nat × Nat}

theorem asked_take_succ (h : starts[k]? = some start) :
    asked (starts.take (k + 1)) = asked (starts.take k) + start.2 := by
  rw [List.take_add_one, h, asked_append]
  simp [asked]

theorem asked_take_mono (starts : List (Nat × Nat)) (h : k ≤ later) :
    asked (starts.take k) ≤ asked (starts.take later) := by
  obtain ⟨more, rfl⟩ := Nat.exists_eq_add_of_le h
  rw [List.take_add, asked_append]
  exact Nat.le_add_right _ _

theorem pages_whole (names : List String) (done : List (Nat × Nat)) :
    (pages names done).flatMap (namesOf ·.2) = names.take (asked done) := by
  induction done generalizing names with
  | nil => simp [pages, asked]
  | cons start rest ih =>
    have ha : asked (start :: rest) = start.2 + asked rest := by simp [asked]
    rw [ha, List.take_add, ← ih]
    rfl

theorem pages_slice (waiting : List (Nat × Nat)) {delivery : Nat × DirectoryPage}
    (h : (pages names done)[k]? = some delivery) :
    ∃ start, (done ++ waiting)[k]? = some start ∧ delivery =
      (start.1, .ok ((names.drop (asked ((done ++ waiting).take k))).take start.2)) := by
  rw [pages_getElem?] at h
  obtain ⟨start, hs, rfl⟩ := Option.map_eq_some_iff.mp h
  have hk : k < done.length := (List.getElem?_eq_some_iff.mp hs).1
  refine ⟨start, ?_, ?_⟩
  · rw [List.getElem?_append_left hk]
    exact hs
  · rw [List.take_append_of_le_length (Nat.le_of_lt hk)]

theorem partition (names : List String) (done waiting : List (Nat × Nat)) :
    Partition names (done ++ waiting) (pages names done) := by
  have hsize : ∀ k read count page, (done ++ waiting)[k]? = some (read, count) →
      (pages names done)[k]? = some (read, .ok page) →
      page.length = min count (names.length - asked ((done ++ waiting).take k)) := by
    intro k read count page hs hd
    obtain ⟨start, hk, he⟩ := pages_slice waiting hd
    rw [hs] at hk
    obtain rfl := Option.some.inj hk
    cases he
    rw [List.length_take, List.length_drop]
  refine ⟨?_, hsize, ?_, ?_⟩
  · intro k read page hd
    obtain ⟨⟨read, count⟩, hs, he⟩ := pages_slice waiting hd
    cases he
    exact ⟨count, hs, rfl⟩
  · rw [pages_whole, pages_length, List.take_left]
  · intro k read count page hs hd hl
    have hp : page.length = _ := hsize k read count page hs hd
    have hn : names.length ≤ asked ((done ++ waiting).take (k + 1)) := by
      rw [asked_take_succ hs]
      show names.length ≤ asked ((done ++ waiting).take k) + count
      omega
    refine ⟨hn, ?_⟩
    intro later delivery hk hd
    obtain ⟨start, -, rfl⟩ := pages_slice waiting hd
    have hm := asked_take_mono (done ++ waiting) (show k + 1 ≤ later from hk)
    rw [List.drop_eq_nil_of_le (by omega), List.take_nil]

end Slices

variable {d d' : Directories} {steps turns : List Step} {handle : Nat}

theorem turn_remembers {a : Step} {event : DirectoryEvent} (ht : Turn d a d')
    (hm : event ∈ d.history) : event ∈ d'.history := by
  cases ht with
  | begun | took => exact hm
  | opened | refused | started | closed | ended => exact List.mem_append_left _ hm

theorem run_remembers {event : DirectoryEvent} (hr : d.run steps = some d')
    (hm : event ∈ d.history) : event ∈ d'.history :=
  runsBy.keeps (P := (event ∈ ·.history))
    (fun _ _ _ _ hm hs => turn_remembers (step_turn hs) hm) hr hm

theorem turn_startsOf {a : Step} (ht : Turn d a d') (ha : a.isTurn) :
    d'.startsOf handle = d.startsOf handle := by
  cases ht with
  | opened | refused | started | closed => cases ha
  | begun | took => rfl
  | ended => exact startsOf_note.trans (List.append_nil _)

theorem turns_startsOf (ha : ∀ a ∈ turns, a.isTurn) (hr : d.run turns = some d') :
    d'.startsOf handle = d.startsOf handle :=
  runsBy.keeps (P := (·.startsOf handle = d.startsOf handle))
    (fun _ a _ hm hd hs => (turn_startsOf (step_turn hs) (ha a hm)).trans hd) hr rfl

/-- When no read can go on, every read that was started has its page. -/
theorem delivered_all {names : List String} {done : List (Nat × Nat)} {left : List Utf8.Bytes}
    (h : Valid d) (ha : Account d handle names done left)
    (hn : ∀ a, a.isTurn → d.step a = none) :
    (d.deliveriesOf handle).length = (d.startsOf handle).length := by
  have hr : d.reads = [] := by
    apply Classical.byContradiction
    intro hr
    obtain ⟨a, d', ht, hs⟩ := goes_on h hr
    rw [hn a ht] at hs
    cases hs
  rw [ha.deliveries, pages_length, ha.starts, hr]
  simp [ofHandle]

/-- The pages of a handle partition what its directory lists. The turns of the reads come to an
end, in whatever order they are taken, and then every read that was started has its page. Asking
for no names is refused and changes nothing. -/
theorem pages_partition {entries : List Utf8.Bytes} (hr : Directories.empty.run steps = some d)
    (ho : .opened handle (entries.map .ok) ∈ d.history) :
    Partition (entries.map Utf8.textLossy) (d.startsOf handle) (d.deliveriesOf handle) ∧
    (∀ turns d', (∀ a ∈ turns, a.isTurn) → d.run turns = some d' →
      turns.length ≤ d.work ∧
      ((∀ a, a.isTurn → d'.step a = none) →
        Partition (entries.map Utf8.textLossy) (d.startsOf handle) (d'.deliveriesOf handle) ∧
        (d'.deliveriesOf handle).length = (d.startsOf handle).length)) ∧
    ∀ other, d.read other 0 =
      (d.note (.refused other 0 (.io "EINVAL" "max_count must be at least 1")),
        .error (.io "EINVAL" "max_count must be at least 1")) := by
  have h : Accounted d := run_accounted empty_accounted hr
  obtain ⟨done, left, ha⟩ := h.account handle entries ho
  refine ⟨?_, ?_, fun other => rfl⟩
  · rw [ha.starts, ha.deliveries]
    exact partition _ _ _
  · intro turns d' ht hd
    have hw := turns_work h.valid ht hd
    refine ⟨by omega, ?_⟩
    intro hn
    have h' : Accounted d' := run_accounted h hd
    obtain ⟨done', left', ha'⟩ := h'.account handle entries (run_remembers hd ho)
    rw [← turns_startsOf ht hd]
    refine ⟨?_, delivered_all h'.valid ha' hn⟩
    rw [ha'.starts, ha'.deliveries]
    exact partition _ _ _

/-- Reads 0, 1 and 3 of one directory overlap with each other and with read 2 of another
directory, and the first is closed while they wait. -/
def overlapping : List Step :=
  [.open ([[97], [98], [99]].map .ok), .open [.ok [120]], .read 1 2, .read 1 2, .read 2 1,
    .read 1 0, .begin 0, .pull 0, .read 1 1, .close 1, .begin 1, .begin 2, .pull 2, .pull 0,
    .pull 0, .pull 1, .pull 2, .pull 1, .begin 3, .pull 3]

theorem overlapping_partition : ∃ d, Directories.empty.run overlapping = some d ∧
    .opened 1 ([[97], [98], [99]].map .ok) ∈ d.history ∧
    Partition ["a", "b", "c"] (d.startsOf 1) (d.deliveriesOf 1) ∧
    d.deliveriesOf 1 = [(0, .ok ["a", "b"]), (1, .ok ["c"]), (3, .ok [])] := by
  obtain ⟨d, hr⟩ : ∃ d, Directories.empty.run overlapping = some d := ⟨_, rfl⟩
  have hd : (Directories.empty.run overlapping).map (·.deliveriesOf 1) =
      some [(0, .ok ["a", "b"]), (1, .ok ["c"]), (3, .ok [])] := rfl
  have ho : (Directories.empty.run overlapping).bind (·.history.head?) =
      some (.opened 1 ([[97], [98], [99]].map .ok)) := rfl
  rw [hr] at hd ho
  have ho := List.mem_of_mem_head? ho
  exact ⟨d, hr, ho, (pages_partition hr ho).1, Option.some.inj hd⟩

end ScriptHost.Directories
