import ScriptHost.Proofs.Directories.Lines

/-!
# Reads end

As long as a read is under way, some read can go on, and every turn of a read
leaves less to do. So the reads that were started come to their ends in whatever
order their turns are taken.
-/

set_option autoImplicit false

namespace ScriptHost.Directories

def Step.isTurn : Step → Bool
  | .begin _ | .pull _ => true
  | .open _ | .read _ _ | .close _ => false

variable {d d' : Directories} {read : Nat} {r : DirectoryRead} {stream : DirectoryStream}

section Work

def remaining (streams : List (Nat × DirectoryStream)) : Nat :=
  (streams.flatMap (·.2.entries)).length

theorem remaining_changed {streams : List (Nat × DirectoryStream)} {handle : Nat}
    {old new : DirectoryStream} (hn : (streams.map (·.1)).Nodup)
    (hl : streams.lookup handle = some old) :
    remaining (changed handle (fun _ => new) streams) + old.entries.length =
      remaining streams + new.entries.length := by
  induction streams with
  | nil => simp at hl
  | cons entry rest ih =>
    obtain ⟨key, value⟩ := entry
    obtain ⟨hk, hrest⟩ := List.nodup_cons.mp hn
    rw [Association.lookup_cons] at hl
    by_cases he : handle = key
    · subst he
      rw [if_pos rfl] at hl
      obtain rfl := Option.some.inj hl
      rw [changed_cons, if_pos rfl, changed_absent _ hk]
      simp only [remaining, List.flatMap_cons, List.length_append]
      omega
    · rw [if_neg he] at hl
      have hr := ih hrest hl
      rw [changed_cons, if_neg (Ne.symm he)]
      simp only [remaining, List.flatMap_cons, List.length_append] at hr ⊢
      omega

theorem setStream_remaining (entries : List DirectoryEntry) (line : List Nat) {handle : Nat}
    (h : Tables d) (hl : d.streams.lookup handle = some stream) :
    remaining (d.setStream handle ⟨entries, line⟩).streams + stream.entries.length =
      remaining d.streams + entries.length :=
  remaining_changed h.apart hl

theorem ends_length {entries left : List DirectoryEntry} {page : DirectoryPage}
    (h : Ends r entries left page) : left.length ≤ entries.length := by
  cases h with
  | exhausted | full => exact Nat.le_refl _
  | failed => exact Nat.le_succ _

theorem work_eq (d : Directories) :
    d.work = d.spawned.length + d.reads.length + remaining d.streams := rfl

theorem turn_work {a : Step} (h : Tables d) (ht : Turn d a d') (ha : a.isTurn) :
    d'.work < d.work := by
  cases ht with
  | opened | refused | started | closed => cases ha
  | begun read spawned r stream hs hr hl =>
    have hw := setStream_remaining stream.entries (stream.line ++ [read]) h hl
    rw [work_eq d, work_eq, hs, List.length_cons]
    show spawned.length + d.reads.length +
      remaining (d.setStream r.handle ⟨stream.entries, stream.line ++ [read]⟩).streams < _
    omega
  | took read r stream bytes entries hh hn he =>
    have hw := setStream_remaining entries stream.line h hh.isOpened
    have hl : (changed read (.add (Utf8.textLossy bytes)) d.reads).length = d.reads.length :=
      List.length_map _
    rw [he, List.length_cons] at hw
    rw [work_eq d, work_eq]
    show d.spawned.length + (changed _ _ d.reads).length +
      remaining (d.setStream r.handle ⟨entries, stream.line⟩).streams < _
    omega
  | ended read r stream entries page hh he =>
    have hw := setStream_remaining entries stream.line.tail h hh.isOpened
    have hle : entries.length ≤ stream.entries.length := ends_length he
    have hlt : (d.reads.filter (·.1 ≠ read)).length < d.reads.length := by
      apply List.length_filter_lt_length_iff_exists.mpr
      exact ⟨(read, r), Association.mem_of_lookup hh.isUnderWay, by simp⟩
    rw [work_eq d, work_eq]
    show d.spawned.length + (d.reads.filter _).length +
      remaining (d.setStream r.handle ⟨entries, stream.line.tail⟩).streams < _
    omega

theorem turns_work {turns : List Step} (h : Valid d) (ha : ∀ a ∈ turns, a.isTurn)
    (hr : d.run turns = some d') : turns.length + d'.work ≤ d.work := by
  refine runsBy.induct (P := fun turns d' => (∀ a ∈ turns, a.isTurn) →
    turns.length + d'.work ≤ d.work) (fun _ => by simp) ?_ hr ha
  intro before next a d' hb ih hs ha
  have hbefore := ih fun b hm => ha b (List.mem_append_left _ hm)
  have hw := turn_work (run_valid h hb).tables (step_turn hs) (ha a (by simp))
  rw [List.length_append, List.length_singleton]
  omega

end Work

theorem begin_isSome {spawned : List Nat} (h : Tables d) (hs : d.spawned = read :: spawned)
    (hm : (read, r) ∈ d.reads) : (d.begin read).isSome := by
  have hr : d.reads.lookup read = some r := Association.lookup_of_mem h.distinct hm
  obtain ⟨stream, hl⟩ := Option.isSome_iff_exists.mp (h.served (read, r) hm)
  simp [begin, hs, hr, hl]

theorem pull_isSome (hh : d.Holds read r stream) : (d.pull read).isSome := by
  unfold pull
  simp only [hh.isUnderWay, hh.isOpened, hh.isFirst, if_pos]
  split
  · split <;> rfl
  · rfl

theorem goes_on (h : Valid d) (hr : d.reads ≠ []) : ∃ a d', a.isTurn ∧ d.step a = some d' := by
  obtain ⟨begun, fresh, hl⟩ := h.lines
  cases fresh with
  | cons entry rest =>
    obtain ⟨read, r⟩ := entry
    have hm : (read, r) ∈ d.reads := by simp [hl.reads]
    obtain ⟨d', hd⟩ := Option.isSome_iff_exists.mp (begin_isSome h.tables hl.spawned hm)
    exact ⟨.begin read, d', rfl, hd⟩
  | nil =>
    have he : d.reads = begun := by rw [hl.reads, List.append_nil]
    cases begun with
    | nil => exact absurd he hr
    | cons entry rest =>
      obtain ⟨read, r⟩ := entry
      have hm : (read, r) ∈ d.reads := by simp [he]
      obtain ⟨stream, hs⟩ := Option.isSome_iff_exists.mp (h.tables.served (read, r) hm)
      have hf : stream.line.head? = some read := by
        rw [hl.line r.handle stream hs, ofHandle, List.filter_cons_of_pos (by simp)]
        rfl
      have hh : d.Holds read r stream := ⟨Association.lookup_of_mem h.tables.distinct hm, hs, hf⟩
      obtain ⟨⟨d', page⟩, hd⟩ := Option.isSome_iff_exists.mp (pull_isSome hh)
      exact ⟨.pull read, d', rfl, by simp [step, hd]⟩

theorem take_holds (hh : d.Holds read r stream) (entries : List DirectoryEntry) (name : String) :
    (d.take read r.handle { stream with entries } name).Holds read (r.add name)
      { stream with entries } where
  isUnderWay := by
    show (changed read (.add name) d.reads).lookup read = _
    rw [lookup_changed, if_pos rfl, hh.isUnderWay]
    rfl
  isOpened := by
    show (Directories.setStream _ r.handle _).streams.lookup r.handle = _
    rw [lookup_setStream, if_pos rfl]
    show (d.streams.lookup r.handle).map _ = _
    rw [hh.isOpened]
    rfl
  isFirst := hh.isFirst

/-- A read that holds its stream, and that nothing suspends, comes to its end. -/
theorem pullAll_ends {fuel : Nat} (h : Valid d) (hh : d.Holds read r stream) (hf : d.work ≤ fuel) :
    (d.pullAll fuel read).2.isSome := by
  induction fuel generalizing d r stream with
  | zero =>
    have hp : 0 < d.reads.length := List.length_pos_of_mem (Association.mem_of_lookup hh.isUnderWay)
    rw [work_eq] at hf
    omega
  | succ fuel ih =>
    obtain ⟨⟨next, page⟩, hd⟩ := Option.isSome_iff_exists.mp (pull_isSome hh)
    have hs : d.step (.pull read) = some next := by simp [step, hd]
    have hw : next.work < d.work := turn_work h.tables (step_turn hs) rfl
    have hf : next.work ≤ fuel := by omega
    unfold pullAll
    rw [hd]
    obtain ⟨r, stream, hh, ⟨bytes, entries, -, -, rfl, rfl⟩ | ⟨entries, last, -, rfl, -⟩⟩ :=
      pull_cases hd
    · exact ih (step_valid h hs) (take_holds hh entries _) hf
    · rfl

end ScriptHost.Directories
