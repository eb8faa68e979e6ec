import ScriptHost.Host.Directories
import ScriptHost.Proofs.Association
import ScriptHost.Proofs.Steps

/-!
# Turns of directories

What a turn of a caller or of a read can be, with everything it changes.
-/

set_option autoImplicit false

namespace ScriptHost.Directories

section Tables

variable {V : Type}

theorem changed_cons (key : Nat) (change : V → V) (entry : Nat × V) (rest : List (Nat × V)) :
    changed key change (entry :: rest) =
      (entry.1, if entry.1 = key then change entry.2 else entry.2) :: changed key change rest := rfl

theorem lookup_changed (key : Nat) (change : V → V) (table : List (Nat × V)) (n : Nat) :
    (changed key change table).lookup n =
      if n = key then (table.lookup n).map change else table.lookup n := by
  have h := Association.lookup_changed (fun n v => if n = key then change v else v) n table
  rw [changed, h]
  by_cases hn : n = key <;> simp [hn]

theorem changed_keys (key : Nat) (change : V → V) (table : List (Nat × V)) :
    (changed key change table).map (·.1) = table.map (·.1) := by
  induction table with
  | nil => rfl
  | cons entry rest ih => exact congrArg (entry.1 :: ·) ih

theorem changed_absent {key : Nat} (change : V → V) {table : List (Nat × V)}
    (h : key ∉ table.map (·.1)) : changed key change table = table := by
  induction table with
  | nil => rfl
  | cons entry rest ih =>
    have hne : entry.1 ≠ key := fun he => h (by simp [he])
    have hrest : key ∉ rest.map (·.1) := fun hm => h (List.mem_cons_of_mem _ hm)
    rw [changed_cons, if_neg hne, ih hrest]

theorem filter_absent {key : Nat} {table : List (Nat × V)} (h : key ∉ table.map (·.1)) :
    table.filter (·.1 ≠ key) = table := by
  apply List.filter_eq_self.mpr
  intro entry hm
  have hne : entry.1 ≠ key := fun he => h (List.mem_map.mpr ⟨entry, hm, he⟩)
  simp [hne]

end Tables

variable {d d' : Directories}

theorem lookup_setStream (d : Directories) (handle other : Nat) (stream : DirectoryStream) :
    (d.setStream handle stream).streams.lookup other =
      if other = handle then (d.streams.lookup other).map fun _ => stream
      else d.streams.lookup other :=
  lookup_changed handle (fun _ => stream) d.streams other

theorem setStream_cases {handle other : Nat} {stream found : DirectoryStream}
    (h : (d.setStream handle stream).streams.lookup other = some found) :
    other = handle ∧ found = stream ∨ other ≠ handle ∧ d.streams.lookup other = some found := by
  rw [lookup_setStream] at h
  by_cases ho : other = handle
  · rw [if_pos ho] at h
    obtain ⟨_, -, he⟩ := Option.map_eq_some_iff.mp h
    exact .inl ⟨ho, he.symm⟩
  · rw [if_neg ho] at h
    exact .inr ⟨ho, h⟩

theorem setStream_isSome (d : Directories) (handle other : Nat) (stream : DirectoryStream) :
    ((d.setStream handle stream).streams.lookup other).isSome =
      (d.streams.lookup other).isSome := by
  rw [lookup_setStream]
  split
  · exact Option.isSome_map
  · rfl

/-- A read holds its stream. -/
structure Holds (d : Directories) (read : Nat) (r : DirectoryRead) (stream : DirectoryStream) :
    Prop where
  isUnderWay : d.reads.lookup read = some r
  isOpened : d.streams.lookup r.handle = some stream
  isFirst : stream.line.head? = some read

/-- How a read that holds its stream ends: the page, and the entries that are left. -/
inductive Ends (r : DirectoryRead) : List DirectoryEntry → List DirectoryEntry → DirectoryPage → Prop
  | exhausted : Ends r [] [] (.ok r.names)
  | full (entries : List DirectoryEntry) (h : r.count ≤ r.names.length) :
      Ends r entries entries (.ok r.names)
  | failed (fault : SystemFault) (entries : List DirectoryEntry) :
      Ends r (.error fault :: entries) entries (.error (.ofFault fault))

inductive Turn (d : Directories) : Step → Directories → Prop
  | opened (entries : List DirectoryEntry) : Turn d (.open entries) (d.issue entries).1
  | refused (handle count : Nat) (failure : HostFailure) :
      Turn d (.read handle count) (d.note (.refused handle count failure))
  | started (handle count : Nat) (hc : count ≠ 0) (ho : handle ∈ d.handles) :
      Turn d (.read handle count) ({ d with
        accepted := d.accepted + 1
        reads := d.reads ++ [(d.accepted, DirectoryRead.mk handle count [])]
        spawned := d.spawned ++ [d.accepted] }.note (.accepted d.accepted handle count))
  | closed (handle : Nat) : Turn d (.close handle) (d.close handle).1
  | begun (read : Nat) (spawned : List Nat) (r : DirectoryRead) (stream : DirectoryStream)
      (hs : d.spawned = read :: spawned) (hr : d.reads.lookup read = some r)
      (hl : d.streams.lookup r.handle = some stream) :
      Turn d (.begin read)
        ({ d with spawned }.setStream r.handle { stream with line := stream.line ++ [read] })
  | took (read : Nat) (r : DirectoryRead) (stream : DirectoryStream) (bytes : Utf8.Bytes)
      (entries : List DirectoryEntry) (hh : d.Holds read r stream)
      (hn : r.names.length < r.count) (he : stream.entries = .ok bytes :: entries) :
      Turn d (.pull read)
        (d.take read r.handle { stream with entries } (Utf8.textLossy bytes))
  | ended (read : Nat) (r : DirectoryRead) (stream : DirectoryStream)
      (entries : List DirectoryEntry) (page : DirectoryPage) (hh : d.Holds read r stream)
      (he : Ends r stream.entries entries page) :
      Turn d (.pull read) (d.deliver read r.handle { stream with entries } page)

theorem read_turn (d : Directories) (handle count : Nat) :
    Turn d (.read handle count) (d.read handle count).1 := by
  unfold read
  split
  · exact .refused handle count _
  · next ha =>
    unfold accept at ha
    have hc : count ≠ 0 := by
      intro hc
      simp [hc] at ha
    have ho : d.isOpen handle = true := by
      apply Classical.byContradiction
      intro ho
      simp [hc, ho, badHandle] at ha
    exact .started handle count hc (of_decide_eq_true ho)

theorem begin_turn {read : Nat} (h : d.begin read = some d') : Turn d (.begin read) d' := by
  unfold begin at h
  split at h
  · next first spawned r hs hr =>
    split at h
    · next stream hl =>
      split at h
      · next he =>
        subst he
        obtain rfl := Option.some.inj h
        exact .begun first spawned r stream hs hr hl
      · cases h
    · cases h
  · cases h

theorem pull_cases {read : Nat} {page : Option DirectoryPage} (h : d.pull read = some (d', page)) :
    ∃ r stream, d.Holds read r stream ∧
      ((∃ bytes entries, r.names.length < r.count ∧ stream.entries = .ok bytes :: entries ∧
          page = none ∧ d' = d.take read r.handle { stream with entries } (Utf8.textLossy bytes)) ∨
        ∃ entries last, Ends r stream.entries entries last ∧ page = some last ∧
          d' = d.deliver read r.handle { stream with entries } last) := by
  unfold pull at h
  split at h
  · cases h
  · next r hr =>
    split at h
    · cases h
    · next stream hl =>
      split at h
      · next hf =>
        refine ⟨r, stream, ⟨hr, hl, hf⟩, ?_⟩
        split at h
        · next hn =>
          split at h <;> cases h
          · next he => exact .inr ⟨stream.entries, _, by rw [he]; exact .exhausted, rfl, rfl⟩
          · next bytes entries he => exact .inl ⟨bytes, entries, hn, he, rfl, rfl⟩
          · next fault entries he => exact .inr ⟨entries, _, by rw [he]; exact .failed _ _, rfl, rfl⟩
        · next hn =>
          cases h
          exact .inr ⟨stream.entries, _, .full _ (Nat.le_of_not_lt hn), rfl, rfl⟩
      · cases h

theorem pull_turn {read : Nat} {page : Option DirectoryPage} (h : d.pull read = some (d', page)) :
    Turn d (.pull read) d' := by
  obtain ⟨r, stream, hh, ⟨bytes, entries, hn, he, -, rfl⟩ | ⟨entries, last, he, -, rfl⟩⟩ :=
    pull_cases h
  · exact .took read r stream bytes entries hh hn he
  · exact .ended read r stream entries last hh he

theorem step_turn {a : Step} (h : d.step a = some d') : Turn d a d' := by
  cases a with
  | «open» entries =>
    obtain rfl := Option.some.inj h
    exact .opened entries
  | read handle count =>
    obtain rfl := Option.some.inj h
    exact read_turn d handle count
  | close handle =>
    obtain rfl := Option.some.inj h
    exact .closed handle
  | begin read => exact begin_turn h
  | pull read =>
    obtain ⟨⟨d'', page⟩, hp, rfl⟩ := Option.map_eq_some_iff.mp h
    exact pull_turn hp

theorem runsBy : RunsBy step run :=
  ⟨fun _ => rfl, fun _ _ _ => rfl⟩

end ScriptHost.Directories
