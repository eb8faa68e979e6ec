import ScriptHost.Proofs.Directories.Turn

/-!
# The lines of streams

Reads begin in the order in which they were started, so the line of a stream is
at every moment the list of its begun reads in that order, and the read that
holds a stream is the first of its handle that is under way.
-/

set_option autoImplicit false

namespace ScriptHost.Directories

abbrev Reads := List (Nat × DirectoryRead)

def ofHandle (handle : Nat) (reads : Reads) : Reads := reads.filter (·.2.handle = handle)

section Reads

variable {handle read : Nat} {r : DirectoryRead} {reads : Reads}

theorem ofHandle_append (handle : Nat) (reads rest : Reads) :
    ofHandle handle (reads ++ rest) = ofHandle handle reads ++ ofHandle handle rest :=
  List.filter_append ..

theorem ofHandle_single (handle read : Nat) (r : DirectoryRead) :
    ofHandle handle [(read, r)] = if r.handle = handle then [(read, r)] else [] := by
  by_cases h : r.handle = handle <;> simp [ofHandle, h]

theorem ofHandle_filter (handle read : Nat) (reads : Reads) :
    ofHandle handle (reads.filter (·.1 ≠ read)) = (ofHandle handle reads).filter (·.1 ≠ read) := by
  simp only [ofHandle, List.filter_filter, Bool.and_comm]

theorem ofHandle_changed {change : DirectoryRead → DirectoryRead}
    (h : ∀ r, (change r).handle = r.handle) (handle read : Nat) (reads : Reads) :
    ofHandle handle (changed read change reads) = changed read change (ofHandle handle reads) := by
  induction reads with
  | nil => rfl
  | cons entry rest ih =>
    have he : (if entry.1 = read then change entry.2 else entry.2).handle = entry.2.handle := by
      split
      · exact h entry.2
      · rfl
    rw [changed_cons]
    by_cases hh : entry.2.handle = handle
    · rw [ofHandle, List.filter_cons_of_pos (by simpa [he] using hh),
        ofHandle, List.filter_cons_of_pos (by simpa using hh)]
      exact congrArg (_ :: ·) ih
    · rw [ofHandle, List.filter_cons_of_neg (by simpa [he] using hh),
        ofHandle, List.filter_cons_of_neg (by simpa using hh)]
      exact ih

theorem ofHandle_changed_keys {change : DirectoryRead → DirectoryRead}
    (h : ∀ r, (change r).handle = r.handle) (handle read : Nat) (reads : Reads) :
    (ofHandle handle (changed read change reads)).map (·.1) =
      (ofHandle handle reads).map (·.1) := by
  rw [ofHandle_changed h, changed_keys]

theorem add_handle (name : String) (r : DirectoryRead) : (r.add name).handle = r.handle := rfl

theorem ofHandle_keys_nodup (handle : Nat) (hn : (reads.map (·.1)).Nodup) :
    ((ofHandle handle reads).map (·.1)).Nodup :=
  (List.filter_sublist.map _).nodup hn

theorem ofHandle_other (hn : (reads.map (·.1)).Nodup) (hr : reads.lookup read = some r)
    (hne : handle ≠ r.handle) : read ∉ (ofHandle handle reads).map (·.1) := by
  intro hm
  obtain ⟨⟨key, other⟩, hf, rfl⟩ := List.mem_map.mp hm
  have ho := (List.mem_filter.mp hf).2
  have hs : reads.lookup key = some other :=
    Association.lookup_of_mem hn (List.mem_filter.mp hf).1
  rw [hr] at hs
  have he : r = other := Option.some.inj hs
  exact hne (by simpa [he] using (of_decide_eq_true ho).symm)

end Reads

/-- What holds of the tables: reads and streams have names of their own, and no read and no handle
is without a stream. -/
structure Tables (d : Directories) : Prop where
  distinct : (d.reads.map (·.1)).Nodup
  below : ∀ entry ∈ d.reads, entry.1 < d.accepted
  known : ∀ handle, d.issued < handle → d.streams.lookup handle = none
  apart : (d.streams.map (·.1)).Nodup
  opened : ∀ handle ∈ d.handles, (d.streams.lookup handle).isSome
  served : ∀ entry ∈ d.reads, (d.streams.lookup entry.2.handle).isSome

/-- The reads under way are some that have begun and, after them, some that have not. -/
structure Lines (d : Directories) (begun fresh : Reads) : Prop where
  reads : d.reads = begun ++ fresh
  spawned : d.spawned = fresh.map (·.1)
  line : ∀ handle stream, d.streams.lookup handle = some stream →
    stream.line = (ofHandle handle begun).map (·.1)

variable {d d' : Directories} {begun fresh : Reads} {read : Nat} {r : DirectoryRead}
  {stream : DirectoryStream}

namespace Tables

theorem empty : Tables .empty := by
  constructor <;> simp [Directories.empty]

theorem lookup_issue (h : Tables d) (entries : List DirectoryEntry) (handle : Nat) :
    (d.issue entries).1.streams.lookup handle =
      if handle = d.issued + 1 then some ⟨entries, []⟩ else d.streams.lookup handle := by
  show (d.streams ++ [(d.issued + 1, DirectoryStream.mk entries [])]).lookup handle = _
  rw [List.lookup_append, Association.lookup_cons]
  by_cases hn : handle = d.issued + 1
  · have hk : d.streams.lookup handle = none := h.known handle (by omega)
    rw [hk, if_pos hn, if_pos hn]
    rfl
  · rw [if_neg hn, if_neg hn]
    exact Option.or_none

theorem issue (h : Tables d) (entries : List DirectoryEntry) : Tables (d.issue entries).1 where
  distinct := h.distinct
  below := h.below
  known := by
    intro handle hi
    have hi : d.issued + 1 < handle := hi
    rw [h.lookup_issue, if_neg (by omega)]
    exact h.known handle (by omega)
  apart := by
    show ((d.streams ++ [(d.issued + 1, DirectoryStream.mk entries [])]).map (·.1)).Nodup
    rw [List.map_append]
    apply List.nodup_append.mpr
    refine ⟨h.apart, by simp, ?_⟩
    intro handle hm new hn he
    obtain ⟨entry, hs, rfl⟩ := List.mem_map.mp hm
    have hn : new = d.issued + 1 := List.mem_singleton.mp hn
    have hl : d.streams.lookup entry.1 = some entry.2 := Association.lookup_of_mem h.apart hs
    rw [h.known entry.1 (by omega)] at hl
    cases hl
  opened := by
    intro handle hm
    rw [h.lookup_issue]
    split
    · rfl
    · next hn =>
      rcases List.mem_append.mp hm with hm | hm
      · exact h.opened handle hm
      · exact absurd (List.mem_singleton.mp hm) hn
  served := by
    intro entry hm
    rw [h.lookup_issue]
    split
    · rfl
    · exact h.served entry hm

theorem start (h : Tables d) {handle : Nat} (count : Nat) (ho : handle ∈ d.handles) :
    Tables { d with
        accepted := d.accepted + 1
        reads := d.reads ++ [(d.accepted, DirectoryRead.mk handle count [])]
        spawned := d.spawned ++ [d.accepted] } where
  distinct := by
    rw [List.map_append]
    apply List.nodup_append.mpr
    refine ⟨h.distinct, by simp, ?_⟩
    intro key hk new hn
    obtain ⟨entry, hm, rfl⟩ := List.mem_map.mp hk
    have hb : entry.1 < d.accepted := h.below entry hm
    have hn : new = d.accepted := List.mem_singleton.mp hn
    omega
  below := by
    intro entry hm
    show entry.1 < d.accepted + 1
    rcases List.mem_append.mp hm with hm | hm
    · exact Nat.lt_succ_of_lt (h.below entry hm)
    · rw [List.mem_singleton.mp hm]
      exact Nat.lt_succ_self _
  known := h.known
  apart := h.apart
  opened := h.opened
  served := by
    intro entry hm
    rcases List.mem_append.mp hm with hm | hm
    · exact h.served entry hm
    · rw [List.mem_singleton.mp hm]
      exact h.opened handle ho

theorem setStream (h : Tables d) (handle : Nat) (stream : DirectoryStream) :
    Tables (d.setStream handle stream) where
  distinct := h.distinct
  below := h.below
  known := by
    intro other hi
    have hn : ((d.setStream handle stream).streams.lookup other).isSome = false := by
      rw [setStream_isSome, h.known other hi]
      rfl
    simpa using hn
  apart := by
    show ((changed handle (fun _ => stream) d.streams).map (·.1)).Nodup
    rw [changed_keys]
    exact h.apart
  opened := fun other hm => (setStream_isSome d handle other stream).trans (h.opened other hm)
  served := fun entry hm => (setStream_isSome d handle _ stream).trans (h.served entry hm)

theorem change (h : Tables d) {change : DirectoryRead → DirectoryRead}
    (hc : ∀ r, (change r).handle = r.handle) (read : Nat) :
    Tables { d with reads := changed read change d.reads } where
  distinct := by
    show ((changed read change d.reads).map (·.1)).Nodup
    rw [changed_keys]
    exact h.distinct
  below := by
    intro entry hm
    obtain ⟨old, ho, rfl⟩ := List.mem_map.mp hm
    exact h.below old ho
  known := h.known
  apart := h.apart
  opened := h.opened
  served := by
    intro entry hm
    obtain ⟨old, ho, rfl⟩ := List.mem_map.mp hm
    have he : (if old.1 = read then change old.2 else old.2).handle = old.2.handle := by
      split
      · exact hc old.2
      · rfl
    rw [he]
    exact h.served old ho

theorem remove (h : Tables d) (read : Nat) :
    Tables { d with reads := d.reads.filter (·.1 ≠ read) } where
  distinct := (List.filter_sublist.map _).nodup h.distinct
  below := fun entry hm => h.below entry (List.mem_filter.mp hm).1
  known := h.known
  apart := h.apart
  opened := h.opened
  served := fun entry hm => h.served entry (List.mem_filter.mp hm).1

theorem note (h : Tables d) (event : DirectoryEvent) : Tables (d.note event) :=
  ⟨h.distinct, h.below, h.known, h.apart, h.opened, h.served⟩

theorem turn {a : Step} (h : Tables d) (ht : Turn d a d') : Tables d' := by
  cases ht with
  | opened entries => exact h.issue entries
  | refused handle count failure => exact h.note _
  | started handle count hc ho => exact (h.start count ho).note _
  | closed handle =>
    exact ⟨h.distinct, h.below, h.known, h.apart, fun other hm => h.opened other (List.mem_of_mem_erase hm),
      h.served⟩
  | begun read spawned r stream hs hr hl =>
    have hd : Tables { d with spawned } := ⟨h.distinct, h.below, h.known, h.apart, h.opened, h.served⟩
    exact hd.setStream _ _
  | took read r stream bytes entries hh hn he =>
    exact (h.change (add_handle _) read).setStream _ _
  | ended read r stream entries page hh he => exact ((h.remove read).setStream _ _).note _

end Tables

namespace Lines

/-- The read that holds a stream is the first that has begun on its handle. -/
theorem held (h : Lines d begun fresh) (hd : Tables d) (hh : d.Holds read r stream) :
    ∃ rest, ofHandle r.handle begun = (read, r) :: rest := by
  have hl := h.line r.handle stream hh.isOpened
  have hf := hh.isFirst
  rw [hl] at hf
  cases hb : ofHandle r.handle begun with
  | nil => simp [hb] at hf
  | cons entry rest =>
    obtain ⟨key, other⟩ := entry
    have hk : key = read := by simpa [hb] using hf
    subst hk
    have hm : (key, other) ∈ ofHandle r.handle begun := by simp [hb]
    have hm : (key, other) ∈ d.reads := by
      rw [h.reads]
      exact List.mem_append_left _ (List.mem_filter.mp hm).1
    have ho := Association.lookup_of_mem hd.distinct hm
    rw [hh.isUnderWay] at ho
    exact ⟨rest, by rw [Option.some.inj ho]⟩

/-- The read that holds a stream is the first under way on its handle. -/
theorem held_first (h : Lines d begun fresh) (hd : Tables d) (hh : d.Holds read r stream) :
    ∃ rest, ofHandle r.handle d.reads = (read, r) :: rest := by
  obtain ⟨rest, hb⟩ := h.held hd hh
  exact ⟨rest ++ ofHandle r.handle fresh, by rw [h.reads, ofHandle_append, hb]; rfl⟩

theorem held_begun (h : Lines d begun fresh) (hd : Tables d) (hh : d.Holds read r stream) :
    read ∉ fresh.map (·.1) := by
  obtain ⟨rest, hb⟩ := h.held hd hh
  have hm : (read, r) ∈ ofHandle r.handle begun := by simp [hb]
  have hm : (read, r) ∈ begun := (List.mem_filter.mp hm).1
  have hd := hd.distinct
  rw [h.reads, List.map_append] at hd
  intro hf
  exact (List.nodup_append.mp hd).2.2 read (List.mem_map_of_mem hm) read hf rfl

theorem empty : Lines .empty [] [] := by
  constructor <;> simp [Directories.empty]

theorem note (h : Lines d begun fresh) (event : DirectoryEvent) :
    Lines (d.note event) begun fresh :=
  ⟨h.reads, h.spawned, h.line⟩

theorem issue (h : Lines d begun fresh) (hd : Tables d) (entries : List DirectoryEntry) :
    Lines (d.issue entries).1 begun fresh where
  reads := h.reads
  spawned := h.spawned
  line := by
    intro handle stream hl
    rw [hd.lookup_issue] at hl
    split at hl
    · next hn =>
      obtain rfl := Option.some.inj hl
      have hb : ofHandle handle begun = [] := by
        apply List.filter_eq_nil_iff.mpr
        intro entry hm he
        have hs := hd.served entry (by rw [h.reads]; exact List.mem_append_left _ hm)
        rw [of_decide_eq_true he, hd.known handle (by omega)] at hs
        exact absurd hs (by decide)
      rw [hb]
      rfl
    · exact h.line handle stream hl

theorem start (h : Lines d begun fresh) (handle count : Nat) :
    Lines { d with
        accepted := d.accepted + 1
        reads := d.reads ++ [(d.accepted, DirectoryRead.mk handle count [])]
        spawned := d.spawned ++ [d.accepted] }
      begun (fresh ++ [(d.accepted, DirectoryRead.mk handle count [])]) where
  reads := by rw [h.reads, List.append_assoc]
  spawned := by rw [h.spawned, List.map_append]; rfl
  line := h.line

theorem begin (h : Lines d begun fresh) (hd : Tables d) {spawned : List Nat}
    (hs : d.spawned = read :: spawned) (hr : d.reads.lookup read = some r)
    (hl : d.streams.lookup r.handle = some stream) :
    ∃ rest, fresh = (read, r) :: rest ∧
      Lines ({ d with spawned }.setStream r.handle { stream with line := stream.line ++ [read] })
        (begun ++ [(read, r)]) rest := by
  cases fresh with
  | nil => simp [h.spawned] at hs
  | cons entry rest =>
    obtain ⟨key, other⟩ := entry
    obtain ⟨rfl, rfl⟩ : key = read ∧ rest.map (·.1) = spawned := by simpa [h.spawned] using hs
    have hm : (key, other) ∈ d.reads := by simp [h.reads]
    have ho := Association.lookup_of_mem hd.distinct hm
    rw [hr] at ho
    obtain rfl := Option.some.inj ho
    refine ⟨rest, rfl, ?_, rfl, ?_⟩
    · show d.reads = _
      rw [h.reads, List.append_assoc]
      rfl
    · intro handle found hf
      rw [ofHandle_append, ofHandle_single, List.map_append]
      obtain ⟨rfl, rfl⟩ | ⟨hn, hf⟩ := setStream_cases hf
      · rw [if_pos rfl, ← h.line _ stream hl]
        rfl
      · rw [if_neg (Ne.symm hn), h.line handle found hf]
        exact (List.append_nil _).symm

theorem take (h : Lines d begun fresh) (hd : Tables d) (hh : d.Holds read r stream)
    (entries : List DirectoryEntry) (name : String) :
    Lines (d.take read r.handle { stream with entries } name)
      (changed read (.add name) begun) fresh where
  reads := by
    rw [← changed_absent (.add name) (h.held_begun hd hh)]
    show changed read (.add name) d.reads = _
    rw [h.reads]
    exact List.map_append
  spawned := h.spawned
  line := by
    intro handle found hf
    rw [ofHandle_changed_keys (add_handle name)]
    obtain ⟨rfl, rfl⟩ | ⟨-, hf⟩ := setStream_cases hf
    · exact h.line r.handle stream hh.isOpened
    · exact h.line handle found hf

theorem deliver (h : Lines d begun fresh) (hd : Tables d) (hh : d.Holds read r stream)
    (entries : List DirectoryEntry) (page : DirectoryPage) :
    Lines (d.deliver read r.handle { stream with entries } page)
      (begun.filter (·.1 ≠ read)) fresh where
  reads := by
    rw [← filter_absent (h.held_begun hd hh)]
    show d.reads.filter _ = _
    rw [h.reads]
    exact List.filter_append ..
  spawned := h.spawned
  line := by
    intro handle found hf
    have hk : (begun.map (·.1)).Nodup := by
      have hn := hd.distinct
      rw [h.reads, List.map_append] at hn
      exact (List.nodup_append.mp hn).1
    rw [ofHandle_filter]
    obtain ⟨rest, hb⟩ := h.held hd hh
    obtain ⟨rfl, rfl⟩ | ⟨hn, hf⟩ := setStream_cases hf
    · have hrest : read ∉ rest.map (·.1) := by
        have hn := ofHandle_keys_nodup r.handle hk
        rw [hb] at hn
        exact (List.nodup_cons.mp hn).1
      show stream.line.tail = _
      rw [h.line r.handle stream hh.isOpened, hb, List.filter_cons_of_neg (by simp),
        filter_absent hrest]
      rfl
    · have ho : read ∉ (ofHandle handle begun).map (·.1) := by
        intro hm
        apply ofHandle_other hd.distinct hh.isUnderWay hn
        rw [h.reads, ofHandle_append, List.map_append]
        exact List.mem_append_left _ hm
      rw [filter_absent ho]
      exact h.line handle found hf

theorem turn {a : Step} (h : Lines d begun fresh) (hd : Tables d) (ht : Turn d a d') :
    ∃ begun' fresh', Lines d' begun' fresh' := by
  cases ht with
  | opened entries => exact ⟨_, _, h.issue hd entries⟩
  | refused handle count failure => exact ⟨_, _, h.note _⟩
  | started handle count hc ho => exact ⟨_, _, (h.start handle count).note _⟩
  | closed handle => exact ⟨begun, fresh, h.reads, h.spawned, h.line⟩
  | begun read spawned r stream hs hr hl =>
    obtain ⟨rest, -, hb⟩ := h.begin hd hs hr hl
    exact ⟨_, _, hb⟩
  | took read r stream bytes entries hh hn he => exact ⟨_, _, h.take hd hh entries _⟩
  | ended read r stream entries page hh he => exact ⟨_, _, h.deliver hd hh entries page⟩

end Lines

structure Valid (d : Directories) : Prop where
  tables : Tables d
  lines : ∃ begun fresh, Lines d begun fresh

theorem empty_valid : Valid .empty := ⟨Tables.empty, [], [], Lines.empty⟩

theorem step_valid {a : Step} (h : Valid d) (hs : d.step a = some d') : Valid d' := by
  obtain ⟨begun, fresh, hl⟩ := h.lines
  have ht : Turn d a d' := step_turn hs
  exact ⟨h.tables.turn ht, hl.turn h.tables ht⟩

theorem run_valid {steps : List Step} (h : Valid d) (hr : d.run steps = some d') : Valid d' :=
  runsBy.keeps (fun _ _ _ _ => step_valid) hr h

end ScriptHost.Directories
