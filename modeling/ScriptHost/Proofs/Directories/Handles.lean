import ScriptHost.Host.Basic
import ScriptHost.Proofs.Directories.Ledger
import ScriptHost.Proofs.Directories.Partition

/-!
# The table of handles

A handle is good from the opening that gave it out to its first close, and for
nobody else's use: an operation on one handle shows nowhere but there. A read
that was accepted has its stream, so a close of its handle does not keep it from
its page.
-/

set_option autoImplicit false

namespace ScriptHost.Directories

variable {d d' : Directories} {handle other : Nat}

/-! ## What is accepted -/

theorem read_open {count : Nat} (hc : count ≠ 0) (ho : handle ∈ d.handles) :
    (d.read handle count).2 = .ok d.accepted := by
  simp [read, accept, hc, isOpen, ho]

theorem read_refused {count : Nat} (hc : count ≠ 0) (ho : handle ∉ d.handles) :
    d.read handle count =
      (d.note (.refused handle count (.badHandle (name handle))), badHandle handle) := by
  simp [read, accept, hc, isOpen, ho, badHandle]

/-! ## Handles apart -/

def handleIn : DirectoryEvent → Nat
  | .opened handle _ | .refused handle _ _ | .accepted _ handle _ | .delivered _ handle _
  | .closed handle _ => handle

/-- What directories show of one handle. -/
structure HandleView where
  isOpen : Bool
  stream : Option DirectoryStream
  reads : Reads
  history : List DirectoryEvent

def handleView (d : Directories) (handle : Nat) : HandleView :=
  ⟨d.isOpen handle, d.streams.lookup handle, ofHandle handle d.reads,
    d.history.filter (handleIn · = handle)⟩

/-- The handle that a step is about: the one that it names, that of the read whose turn it is, or
the next one for an opening. -/
def handleOf (d : Directories) : Step → Option Nat
  | .open _ => some (d.issued + 1)
  | .read handle _ | .close handle => some handle
  | .begin read | .pull read => (d.reads.lookup read).map (·.handle)

theorem handleView_congr (ho : other ∈ d'.handles ↔ other ∈ d.handles)
    (hs : d'.streams.lookup other = d.streams.lookup other)
    (hr : ofHandle other d'.reads = ofHandle other d.reads) (hh : d'.history = d.history) :
    d'.handleView other = d.handleView other := by
  simp only [handleView, isOpen, ho, hs, hr, hh]

theorem handleView_note {event : DirectoryEvent} (h : handle ≠ other)
    (he : handleIn event = handle) : (d.note event).handleView other = d.handleView other := by
  have hf : [event].filter (handleIn · = other) = [] := by simp [he, h]
  show HandleView.mk _ _ _ ((d.history ++ [event]).filter _) = _
  rw [List.filter_append, hf, List.append_nil]
  rfl

theorem handleView_setStream (stream : DirectoryStream) (h : other ≠ handle) :
    (d.setStream handle stream).handleView other = d.handleView other := by
  apply handleView_congr
  · exact Iff.rfl
  · rw [lookup_setStream, if_neg h]
  · rfl
  · rfl

/-- A turn shows only at the handle that it is about. -/
theorem turn_apart {a : Step} (h : Tables d) (ht : Turn d a d') (ha : d.handleOf a ≠ some other) :
    d'.handleView other = d.handleView other := by
  cases ht with
  | opened entries =>
    have hne : d.issued + 1 ≠ other := fun he => ha (congrArg some he)
    rw [issue, handleView_note hne rfl]
    apply handleView_congr
    · simp [Ne.symm hne]
    · exact (h.lookup_issue entries other).trans (if_neg (Ne.symm hne))
    · rfl
    · rfl
  | refused handle count failure =>
    exact handleView_note (fun he => ha (congrArg some he)) rfl
  | started handle count hc ho =>
    have hne : handle ≠ other := fun he => ha (congrArg some he)
    rw [handleView_note hne rfl]
    apply handleView_congr
    · exact Iff.rfl
    · rfl
    · rw [ofHandle_append, ofHandle_single, if_neg hne, List.append_nil]
    · rfl
  | closed handle =>
    have hne : handle ≠ other := fun he => ha (congrArg some he)
    rw [close, handleView_note hne rfl]
    apply handleView_congr
    · exact List.mem_erase_of_ne (Ne.symm hne)
    · rfl
    · rfl
    · rfl
  | begun read spawned r stream hs hr hl =>
    have hne : other ≠ r.handle := fun he => ha (by simp [handleOf, hr, he])
    rw [handleView_setStream _ hne]
    rfl
  | took read r stream bytes entries hh hn he =>
    have hne : other ≠ r.handle := fun he => ha (by simp [handleOf, hh.isUnderWay, he])
    rw [take, handleView_setStream _ hne]
    apply handleView_congr
    · exact Iff.rfl
    · rfl
    · rw [ofHandle_changed (add_handle _),
        changed_absent _ (ofHandle_other h.distinct hh.isUnderWay hne)]
    · rfl
  | ended read r stream entries page hh he =>
    have hne : other ≠ r.handle := fun he => ha (by simp [handleOf, hh.isUnderWay, he])
    rw [deliver, handleView_note (Ne.symm hne) rfl, handleView_setStream _ hne]
    apply handleView_congr
    · exact Iff.rfl
    · rfl
    · rw [ofHandle_filter, filter_absent (ofHandle_other h.distinct hh.isUnderWay hne)]
    · rfl

/-! ## Pages of accepted reads -/

theorem run_grows {steps : List Step} (hr : d.run steps = some d') :
    ∃ more, d'.history = d.history ++ more := by
  refine runsBy.keeps (P := fun d' => ∃ more, d'.history = d.history ++ more) ?_ hr
    ⟨[], (List.append_nil _).symm⟩
  intro next a after _ ⟨more, hm⟩ hs
  have hgrow : ∃ events, after.history = next.history ++ events := by
    cases step_turn hs with
    | begun | took => exact ⟨[], (List.append_nil _).symm⟩
    | opened | refused | started | closed | ended => exact ⟨_, rfl⟩
  obtain ⟨events, he⟩ := hgrow
  exact ⟨more ++ events, by rw [he, hm, List.append_assoc]⟩

theorem Account.under_way_or_delivered {names : List String} {done before after : List (Nat × Nat)}
    {left : List Utf8.Bytes} {read count : Nat} (h : Account d handle names done left)
    (hs : d.startsOf handle = before ++ (read, count) :: after) :
    read ∈ d.reads.map (·.1) ∨
      (read, .ok ((names.drop (asked before)).take count)) ∈ d.deliveriesOf handle := by
  have hwaiting : (read, count) ∈ (ofHandle handle d.reads).map startOf →
      read ∈ d.reads.map (·.1) := by
    intro hm
    obtain ⟨entry, hentry, he⟩ := List.mem_map.mp hm
    exact List.mem_map.mpr ⟨entry, (List.mem_filter.mp hentry).1, congrArg Prod.fst he⟩
  -- Reads that have their pages come first, so this one is among them or still under way.
  have hcut := hs.symm.trans h.starts
  rcases List.append_eq_append_iff.mp hcut with ⟨gap, hdone, hrest⟩ | ⟨gap, -, hrest⟩
  · cases gap with
    | nil => exact .inl (hwaiting (by rw [← List.nil_append (List.map _ _), ← hrest]; simp))
    | cons start rest =>
      obtain ⟨rfl, -⟩ := List.cons.inj hrest
      right
      rw [h.deliveries, hdone, pages_append]
      exact List.mem_append_right _ List.mem_cons_self
  · exact .inl (hwaiting (by rw [hrest]; simp))

theorem startsOf_of_accepted {read count : Nat} (h : .accepted read handle count ∈ d.history) :
    (read, count) ∈ d.startsOf handle :=
  List.mem_filterMap.mpr ⟨_, h, if_pos rfl⟩

theorem page_of_accepted {read count : Nat} {entries : List Utf8.Bytes} (h : Accounted d)
    (ha : .accepted read handle count ∈ d.history)
    (ho : .opened handle (entries.map .ok) ∈ d.history) :
    ∃ before after, d.startsOf handle = before ++ (read, count) :: after ∧
      ∀ rest d', d.run rest = some d' → read ∈ d'.reads.map (·.1) ∨
        (read, .ok (((entries.map Utf8.textLossy).drop (asked before)).take count)) ∈
          d'.deliveriesOf handle := by
  obtain ⟨before, after, hs⟩ := List.append_of_mem (startsOf_of_accepted ha)
  refine ⟨before, after, hs, ?_⟩
  intro rest d' hr
  obtain ⟨more, hm⟩ := run_grows hr
  obtain ⟨done, left, haccount⟩ := (run_accounted h hr).account handle entries (run_remembers hr ho)
  have hs' : d'.startsOf handle =
      before ++ (read, count) :: (after ++ more.filterMap (startIn handle)) := by
    have happend : d'.startsOf handle = d.startsOf handle ++ more.filterMap (startIn handle) := by
      rw [startsOf, hm, List.filterMap_append]
      rfl
    rw [happend, hs, List.append_assoc, List.cons_append]
  exact haccount.under_way_or_delivered hs'

/-! ## The law -/

/-- The law of the handles of some directories, with what was given out and closed so far. -/
structure HandleLaw (d : Directories) : Prop where
  /-- An opening gives out a handle that was never given out before. -/
  issue : ∀ entries, (d.issue entries).2 ∉ d.issues ∧
    (d.issue entries).1.issues = d.issues ++ [(d.issue entries).2]
  /-- A host that asks for an opening gives nothing out, nor does an opening that fails. -/
  opening : ∀ (K : Type) (h : NativeHost K), h.directories = d →
    (∀ id callback, (h.openDirectory id callback).1.directories = d) ∧
    (∀ fs path host failure, h.opened fs path = (host, .error failure) → host = h) ∧
    ∀ fs path host handle, h.opened fs path = (host, .ok handle) →
      handle ∉ d.issues ∧ host.directories.issues = d.issues ++ [handle]
  /-- A read succeeds on handles that were given out and not closed, and is refused on others. -/
  read : ∀ handle count, count ≠ 0 →
    ((∃ read, (d.read handle count).2 = .ok read) ↔ handle ∈ d.issues ∧ handle ∉ d.closes) ∧
    (¬ (handle ∈ d.issues ∧ handle ∉ d.closes) → d.read handle count =
      (d.note (.refused handle count (.badHandle (name handle))), .error (.badHandle (name handle))))
  /-- So does a close. -/
  close : ∀ handle,
    ((d.close handle).2 = .ok () ↔ handle ∈ d.issues ∧ handle ∉ d.closes) ∧
    (¬ (handle ∈ d.issues ∧ handle ∉ d.closes) → d.close handle =
      (d.note (.closed handle (.error (.badHandle (name handle)))), .error (.badHandle (name handle))))
  /-- A read that was accepted is under way or has its page, whatever comes after it. -/
  page : ∀ read handle count (entries : List Utf8.Bytes),
    .accepted read handle count ∈ d.history → .opened handle (entries.map .ok) ∈ d.history →
    ∃ before after, d.startsOf handle = before ++ (read, count) :: after ∧
      ∀ rest d', d.run rest = some d' → read ∈ d'.reads.map (·.1) ∨
        (read, .ok (((entries.map Utf8.textLossy).drop (asked before)).take count)) ∈
          d'.deliveriesOf handle
  /-- Reads come to their ends. -/
  ends : (d.reads ≠ [] → ∃ a d', a.isTurn ∧ d.step a = some d') ∧
    ∀ turns d', (∀ a ∈ turns, a.isTurn) → d.run turns = some d' → turns.length ≤ d.work
  /-- A step about one handle shows at no other. -/
  apart : ∀ a d' other, d.step a = some d' → d.handleOf a ≠ some other →
    d'.handleView other = d.handleView other
  count : d.openCount + d.closes.length = d.issues.length

theorem opened_ok {K : Type} {h host : NativeHost K} {fs : FileSystem} {path : NativePath}
    (ho : h.opened fs path = (host, .ok handle)) :
    ∃ entries, (host.directories, handle) = h.directories.issue entries := by
  unfold NativeHost.opened at ho
  split at ho
  · simp at ho
  · next names _ =>
    obtain ⟨rfl, he⟩ := Prod.mk.inj ho
    exact ⟨names.map .ok, Prod.ext rfl (Except.ok.inj he).symm⟩

theorem opened_error {K : Type} {h host : NativeHost K} {fs : FileSystem} {path : NativePath}
    {failure : HostFailure} (ho : h.opened fs path = (host, .error failure)) : host = h := by
  unfold NativeHost.opened at ho
  split at ho
  · exact (Prod.mk.inj ho).1.symm
  · simp at ho

theorem openDirectory_directories {K : Type} (h : NativeHost K) (id : ModuleId) (callback : K) :
    (h.openDirectory id callback).1.directories = h.directories := by
  unfold NativeHost.openDirectory
  split <;> rfl

theorem Ledger.issue_fresh (h : Ledger d) (entries : List DirectoryEntry) :
    (d.issue entries).2 ∉ d.issues ∧
      (d.issue entries).1.issues = d.issues ++ [(d.issue entries).2] :=
  ⟨h.fresh, issues_note⟩

/-- Whatever opens, reads and closes come one after the other or while reads are under way, with
whatever handles: an opening that succeeds gives out a new handle, and the others none. A handle is
good from its opening to its first close. A read that was accepted keeps its page when its handle
is closed, and nothing that is done to one handle shows at another. -/
theorem handle_law {steps : List Step} (hr : Directories.empty.run steps = some d) :
    HandleLaw d := by
  have ha : Accounted d := run_accounted empty_accounted hr
  have hl : Ledger d := run_ledger Ledger.empty hr
  constructor
  case issue => exact hl.issue_fresh
  case opening =>
    rintro K h rfl
    refine ⟨fun id callback => openDirectory_directories h id callback,
      fun fs path host failure ho => opened_error ho, ?_⟩
    intro fs path host handle ho
    obtain ⟨entries, he⟩ := opened_ok ho
    obtain ⟨hd, hh⟩ := Prod.mk.inj he
    rw [hd, hh]
    exact hl.issue_fresh entries
  case read =>
    intro handle count hc
    -- the handles that are open are those given out and not closed since
    rw [← hl.current]
    refine ⟨⟨?_, fun ho => ⟨_, read_open hc ho⟩⟩, read_refused hc⟩
    rintro ⟨read, hs⟩
    apply Classical.byContradiction
    intro ho
    rw [read_refused hc ho] at hs
    simp [badHandle] at hs
  case close =>
    intro handle
    rw [← hl.current]
    refine ⟨⟨?_, fun ho => by rw [close_open ho]⟩, close_refused⟩
    intro hs
    apply Classical.byContradiction
    intro ho
    rw [close_refused ho] at hs
    simp [badHandle] at hs
  case page => exact fun read handle count entries => page_of_accepted ha
  case ends =>
    refine ⟨goes_on ha.valid, ?_⟩
    intro turns d' ht hd
    have hw := turns_work ha.valid ht hd
    omega
  case apart => exact fun a d' other hs => turn_apart ha.valid.tables (step_turn hs)
  case count => exact hl.count

/-- Handle 1 is closed while a read of it waits. Another close and another read come too late, and
the next opening gives out handle 2. -/
def closing : List Step :=
  [.open ([[97], [98]].map .ok), .read 1 1, .close 1, .close 1, .read 1 1, .open []]

theorem closing_law : ∃ d, Directories.empty.run closing = some d ∧
    d.issues = [1, 2] ∧ d.closes = [1] ∧ d.openCount + 1 = 2 ∧
    d.close 1 =
      (d.note (.closed 1 (.error (.badHandle (name 1)))), .error (.badHandle (name 1))) ∧
    ∃ d', d.run [.begin 0, .pull 0, .pull 0] = some d' ∧ (0, .ok ["a"]) ∈ d'.deliveriesOf 1 := by
  obtain ⟨d, hr⟩ : ∃ d, Directories.empty.run closing = some d := ⟨_, rfl⟩
  have hlaw : HandleLaw d := handle_law hr
  have hissues : (Directories.empty.run closing).map issues = some [1, 2] := rfl
  have hcloses : (Directories.empty.run closing).map closes = some [1] := rfl
  have hstarts : (Directories.empty.run closing).map (·.startsOf 1) = some [(0, 1)] := rfl
  have hpast : (Directories.empty.run closing).map (·.history.take 2) =
      some [.opened 1 ([[97], [98]].map .ok), .accepted 0 1 1] := rfl
  have hnext : ((Directories.empty.run closing).bind (run · [.begin 0, .pull 0, .pull 0])).map
      (·.reads) = some [] := rfl
  rw [hr] at hissues hcloses hstarts hpast hnext
  have hissues : d.issues = [1, 2] := Option.some.inj hissues
  have hcloses : d.closes = [1] := Option.some.inj hcloses
  have hmem : ∀ event ∈ d.history.take 2, event ∈ d.history := fun _ => List.mem_of_mem_take
  have hpast : d.history.take 2 = [.opened 1 ([[97], [98]].map .ok), .accepted 0 1 1] :=
    Option.some.inj hpast
  rw [hpast] at hmem
  obtain ⟨before, after, hs, hpage⟩ :=
    hlaw.page 0 1 1 [[97], [98]] (hmem _ (by simp)) (hmem _ (by simp))
  obtain ⟨d', hd, hreads⟩ := Option.map_eq_some_iff.mp hnext
  have hbefore : before = [] := by
    have hl := congrArg List.length ((Option.some.inj hstarts).symm.trans hs)
    rw [List.length_append] at hl
    exact List.length_eq_zero_iff.mp (by simp at hl; omega)
  refine ⟨d, hr, hissues, hcloses, ?_, (hlaw.close 1).2 (by simp [hcloses]), d', hd, ?_⟩
  · have hcount := hlaw.count
    rwa [hissues, hcloses] at hcount
  · have hdelivered := (hpage _ d' hd).resolve_left (by simp [hreads])
    rw [hbefore] at hdelivered
    exact hdelivered

end ScriptHost.Directories
