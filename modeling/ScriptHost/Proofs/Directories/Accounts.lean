import ScriptHost.Proofs.Directories.Lines

/-!
# The account of a listing

The names of a listing are, at every moment, those of the pages that were
delivered, those that the first read under way has so far, and those that the
stream still has to give, in this order.
-/

set_option autoImplicit false

namespace ScriptHost.Directories

/-- The reads and counts of some starts, with consecutive slices of a listing as their pages. -/
def pages : List String → List (Nat × Nat) → List (Nat × DirectoryPage)
  | _, [] => []
  | names, (read, count) :: rest => (read, .ok (names.take count)) :: pages (names.drop count) rest

def asked : List (Nat × Nat) → Nat
  | [] => 0
  | start :: rest => start.2 + asked rest

section Pages

variable (names : List String) (starts rest : List (Nat × Nat))

theorem pages_length : (pages names starts).length = starts.length := by
  induction starts generalizing names with
  | nil => rfl
  | cons start rest ih => exact congrArg (· + 1) (ih _)

theorem pages_append :
    pages names (starts ++ rest) = pages names starts ++ pages (names.drop (asked starts)) rest := by
  induction starts generalizing names with
  | nil => rfl
  | cons start starts ih =>
    show _ :: pages _ (starts ++ rest) = _
    rw [ih, List.drop_drop]
    rfl

theorem pages_getElem? (k : Nat) :
    (pages names starts)[k]? =
      starts[k]?.map fun start => (start.1, .ok ((names.drop (asked (starts.take k))).take start.2)) := by
  induction starts generalizing names k with
  | nil => rfl
  | cons start starts ih =>
    cases k with
    | zero => rfl
    | succ k =>
      show (pages (names.drop start.2) starts)[k]? = _
      rw [ih, List.drop_drop]
      rfl

theorem asked_append : asked (starts ++ rest) = asked starts + asked rest := by
  induction starts with
  | nil => exact (Nat.zero_add _).symm
  | cons start starts ih =>
    show start.2 + asked (starts ++ rest) = start.2 + asked starts + asked rest
    rw [ih, Nat.add_assoc]

end Pages

def startOf (entry : Nat × DirectoryRead) : Nat × Nat := (entry.1, entry.2.count)

/-- What holds of a listing with some names, of which some are left in the stream after the reads
that are done. -/
structure Account (d : Directories) (handle : Nat) (names : List String)
    (done : List (Nat × Nat)) (left : List Utf8.Bytes) : Prop where
  stream : d.left handle = left.map .ok
  isOpened : (d.streams.lookup handle).isSome
  starts : d.startsOf handle = done ++ (ofHandle handle d.reads).map startOf
  deliveries : d.deliveriesOf handle = pages names done
  content : names.drop (asked done) =
    (ofHandle handle d.reads).flatMap (·.2.names) ++ left.map Utf8.textLossy
  waiting : ∀ entry ∈ (ofHandle handle d.reads).tail, entry.2.names = []
  fitting : ∀ entry ∈ ofHandle handle d.reads, entry.2.names.length ≤ entry.2.count

variable {d d' : Directories} {handle read : Nat} {r : DirectoryRead} {stream : DirectoryStream}
  {names : List String} {done : List (Nat × Nat)} {left : List Utf8.Bytes} {event : DirectoryEvent}

theorem history_note {A : Type} (read : DirectoryEvent → Option A) (d : Directories)
    (event : DirectoryEvent) : (d.note event).history.filterMap read =
      d.history.filterMap read ++ (read event).toList := by
  show (d.history ++ [event]).filterMap read = _
  rw [List.filterMap_append]
  cases h : read event <;> simp [h]

theorem startsOf_note : (d.note event).startsOf handle =
    d.startsOf handle ++ (startIn handle event).toList := history_note (startIn handle) d event

theorem deliveriesOf_note : (d.note event).deliveriesOf handle =
    d.deliveriesOf handle ++ (deliveryIn handle event).toList :=
  history_note (deliveryIn handle) d event

theorem left_of_lookup (h : d.streams.lookup handle = some stream) :
    d.left handle = stream.entries := by
  simp [Directories.left, h]

theorem setStream_left_self (h : (d.streams.lookup handle).isSome) :
    (d.setStream handle stream).left handle = stream.entries := by
  obtain ⟨old, ho⟩ := Option.isSome_iff_exists.mp h
  apply left_of_lookup
  rw [lookup_setStream, if_pos rfl, ho]
  rfl

theorem setStream_left_other {other : Nat} (h : handle ≠ other) :
    (d.setStream other stream).left handle = d.left handle := by
  rw [Directories.left, lookup_setStream, if_neg h]
  rfl

namespace Account

theorem congr (h : Account d handle names done left) (hl : d'.left handle = d.left handle)
    (ho : (d'.streams.lookup handle).isSome = (d.streams.lookup handle).isSome)
    (hs : d'.startsOf handle = d.startsOf handle)
    (hd : d'.deliveriesOf handle = d.deliveriesOf handle)
    (hr : ofHandle handle d'.reads = ofHandle handle d.reads) :
    Account d' handle names done left where
  stream := hl.trans h.stream
  isOpened := ho.trans h.isOpened
  starts := by rw [hs, hr, h.starts]
  deliveries := hd.trans h.deliveries
  content := by rw [hr, h.content]
  waiting := by rw [hr]; exact h.waiting
  fitting := by rw [hr]; exact h.fitting

theorem note (h : Account d handle names done left) (hs : startIn handle event = none)
    (hd : deliveryIn handle event = none) : Account (d.note event) handle names done left := by
  apply h.congr
  · rfl
  · rfl
  · rw [startsOf_note, hs]
    exact List.append_nil _
  · rw [deliveriesOf_note, hd]
    exact List.append_nil _
  · rfl

theorem issue (h : Account d handle names done left) (ht : Tables d)
    (entries : List DirectoryEntry) : Account (d.issue entries).1 handle names done left := by
  have hk : (d.issue entries).1.streams.lookup handle = d.streams.lookup handle := by
    have hi := h.isOpened
    rw [ht.lookup_issue, if_neg]
    intro hn
    rw [ht.known handle (by omega)] at hi
    cases hi
  apply h.congr
  · rw [Directories.left, hk]
    rfl
  · rw [hk]
  · exact startsOf_note.trans (List.append_nil _)
  · exact deliveriesOf_note.trans (List.append_nil _)
  · rfl

theorem setStream (h : Account d handle names done left) {other : Nat}
    (hl : d.streams.lookup other = some stream) (line : List Nat) :
    Account (d.setStream other { stream with line }) handle names done left := by
  apply h.congr
  · by_cases ho : handle = other
    · subst ho
      rw [setStream_left_self h.isOpened, left_of_lookup hl]
    · exact setStream_left_other ho
  · exact setStream_isSome d other handle _
  · rfl
  · rfl
  · rfl

theorem start (h : Account d handle names done left) (other count : Nat) :
    Account ({ d with
        accepted := d.accepted + 1
        reads := d.reads ++ [(d.accepted, DirectoryRead.mk other count [])]
        spawned := d.spawned ++ [d.accepted] }.note (.accepted d.accepted other count))
      handle names done left := by
  by_cases ho : other = handle
  · subst ho
    have hr : ofHandle other (d.reads ++ [(d.accepted, DirectoryRead.mk other count [])]) =
        ofHandle other d.reads ++ [(d.accepted, DirectoryRead.mk other count [])] := by
      rw [ofHandle_append, ofHandle_single, if_pos rfl]
    constructor
    · exact h.stream
    · exact h.isOpened
    · rw [startsOf_note]
      show d.startsOf other ++ (startIn other (.accepted d.accepted other count)).toList =
        done ++ (ofHandle other (d.reads ++ _)).map startOf
      rw [hr, h.starts, List.map_append, List.append_assoc]
      simp [startIn, startOf]
    · exact (deliveriesOf_note.trans (List.append_nil _)).trans h.deliveries
    · show _ = (ofHandle other (d.reads ++ _)).flatMap _ ++ _
      rw [hr, List.flatMap_append, h.content]
      simp
    · intro entry hm
      have hm : entry ∈ (ofHandle other (d.reads ++ [(d.accepted, _)])).tail := hm
      rw [hr] at hm
      -- if no read was under way, nothing waits behind the new one
      cases hw : ofHandle other d.reads with
      | nil => simp [hw] at hm
      | cons first rest =>
        rw [hw] at hm
        rcases List.mem_append.mp hm with hm | hm
        · exact h.waiting entry (by rw [hw]; exact hm)
        · rw [List.mem_singleton.mp hm]
    · intro entry hm
      have hm : entry ∈ ofHandle other (d.reads ++ [(d.accepted, _)]) := hm
      rw [hr] at hm
      rcases List.mem_append.mp hm with hm | hm
      · exact h.fitting entry hm
      · rw [List.mem_singleton.mp hm]
        exact Nat.zero_le _
  · apply h.congr
    · rfl
    · rfl
    · rw [startsOf_note]
      simp [startIn, ho, startsOf]
    · exact deliveriesOf_note.trans (List.append_nil _)
    · show ofHandle handle (d.reads ++ _) = _
      rw [ofHandle_append, ofHandle_single, if_neg ho, List.append_nil]

theorem waiting_names (h : Account d handle names done left) {first : Nat × DirectoryRead}
    {rest : List (Nat × DirectoryRead)} (hr : ofHandle handle d.reads = first :: rest) :
    rest.flatMap (·.2.names) = [] := by
  apply List.flatMap_eq_nil_iff.mpr
  intro entry hm
  exact h.waiting entry (by rw [hr]; exact hm)

theorem take_self (h : Account d r.handle names done left) (ht : Tables d)
    (hl : ∃ rest, ofHandle r.handle d.reads = (read, r) :: rest) (hh : d.Holds read r stream)
    {bytes : Utf8.Bytes} {entries : List DirectoryEntry} (hn : r.names.length < r.count)
    (he : stream.entries = .ok bytes :: entries) :
    ∃ left', Account (d.take read r.handle { stream with entries } (Utf8.textLossy bytes))
      r.handle names done left' := by
  obtain ⟨rest, hr⟩ := hl
  have hs : stream.entries = left.map .ok := (left_of_lookup hh.isOpened).symm.trans h.stream
  cases left with
  | nil => simp [hs] at he
  | cons first left =>
    obtain ⟨rfl, rfl⟩ : first = bytes ∧ left.map Except.ok = entries := by simpa [hs] using he
    have hk := ofHandle_keys_nodup r.handle ht.distinct
    rw [hr] at hk
    have hc : ofHandle r.handle (changed read (.add (Utf8.textLossy first)) d.reads) =
        (read, r.add (Utf8.textLossy first)) :: rest := by
      rw [ofHandle_changed (add_handle _), hr, changed_cons, if_pos rfl,
        changed_absent _ (List.nodup_cons.mp hk).1]
    refine ⟨left, setStream_left_self h.isOpened, ?_, ?_, h.deliveries, ?_, ?_, ?_⟩
    · exact (setStream_isSome d r.handle r.handle _).trans h.isOpened
    · show d.startsOf r.handle = done ++ (ofHandle r.handle (changed read _ d.reads)).map startOf
      rw [h.starts, hc, hr]
      rfl
    · show _ = (ofHandle r.handle (changed read _ d.reads)).flatMap (·.2.names) ++ _
      rw [h.content, hc, hr]
      simp [h.waiting_names hr, DirectoryRead.add]
    · intro entry hm
      have hm : entry ∈ (ofHandle r.handle (changed read _ d.reads)).tail := hm
      rw [hc] at hm
      exact h.waiting entry (by rw [hr]; exact hm)
    · intro entry hm
      have hm : entry ∈ ofHandle r.handle (changed read _ d.reads) := hm
      rw [hc] at hm
      rcases List.mem_cons.mp hm with rfl | hm
      · show (r.names ++ [_]).length ≤ r.count
        rw [List.length_append]
        exact hn
      · exact h.fitting entry (by rw [hr]; exact List.mem_cons_of_mem _ hm)

theorem slice {names : List String} (rest : List String) {count : Nat} (hf : names.length ≤ count)
    (he : rest = [] ∨ count ≤ names.length) :
    (names ++ rest).take count = names ∧ (names ++ rest).drop count = rest := by
  rcases he with rfl | hc
  · rw [List.append_nil]
    exact ⟨List.take_of_length_le hf, List.drop_eq_nil_of_le hf⟩
  · have hl : names.length = count := Nat.le_antisymm hf hc
    exact ⟨List.take_left' hl, List.drop_left' hl⟩

/-- A read of a stream without faults ends with the names it has, at the end of the stream or with
a full page. -/
theorem ends {bytes : List Utf8.Bytes} {entries : List DirectoryEntry} {page : DirectoryPage}
    (he : Ends r (bytes.map .ok) entries page) :
    page = .ok r.names ∧ entries = bytes.map .ok ∧ (bytes = [] ∨ r.count ≤ r.names.length) := by
  cases bytes with
  | nil =>
    cases he with
    | exhausted => exact ⟨rfl, rfl, .inl rfl⟩
    | full _ h => exact ⟨rfl, rfl, .inl rfl⟩
  | cons first rest =>
    cases he with
    | full _ h => exact ⟨rfl, rfl, .inr h⟩

theorem deliver_self (h : Account d r.handle names done left) (ht : Tables d)
    (hl : ∃ rest, ofHandle r.handle d.reads = (read, r) :: rest) (hh : d.Holds read r stream)
    {entries : List DirectoryEntry} {page : DirectoryPage}
    (he : Ends r stream.entries entries page) :
    Account (d.deliver read r.handle { stream with entries } page) r.handle names
      (done ++ [(read, r.count)]) left := by
  obtain ⟨rest, hr⟩ := hl
  rw [(left_of_lookup hh.isOpened).symm.trans h.stream] at he
  obtain ⟨rfl, rfl, hc⟩ := ends he
  have hk := ofHandle_keys_nodup r.handle ht.distinct
  rw [hr] at hk
  have hrest : ofHandle r.handle (d.reads.filter (·.1 ≠ read)) = rest := by
    rw [ofHandle_filter, hr, List.filter_cons_of_neg (by simp),
      filter_absent (List.nodup_cons.mp hk).1]
  -- the other reads have no names yet, so the names of this one are the next of the listing
  have hw : rest.flatMap (·.2.names) = [] := h.waiting_names hr
  have hcontent : names.drop (asked done) = r.names ++ left.map Utf8.textLossy := by
    rw [h.content, hr]
    simp [hw]
  have hfit : r.names.length ≤ r.count := h.fitting (read, r) (by rw [hr]; exact List.mem_cons_self)
  obtain ⟨htake, hdrop⟩ :=
    slice (left.map Utf8.textLossy) hfit (hc.imp_left fun hn => by rw [hn]; rfl)
  refine ⟨setStream_left_self h.isOpened, ?_, ?_, ?_, ?_, ?_, ?_⟩
  · exact (setStream_isSome d r.handle r.handle _).trans h.isOpened
  · show (Directories.note _ _).startsOf _ = _ ++ (ofHandle r.handle (d.reads.filter _)).map startOf
    rw [startsOf_note, hrest]
    show d.startsOf r.handle ++ [] = _
    rw [h.starts, hr, List.append_nil, List.append_assoc]
    rfl
  · rw [pages_append, hcontent]
    show (Directories.note _ _).deliveriesOf _ = _ ++ [(read, .ok ((r.names ++ _).take r.count))]
    rw [htake, deliveriesOf_note]
    show d.deliveriesOf r.handle ++ _ = _
    rw [h.deliveries]
    simp [deliveryIn]
  · show _ = (ofHandle r.handle (d.reads.filter _)).flatMap _ ++ _
    rw [hrest, hw, asked_append, ← List.drop_drop, hcontent]
    exact hdrop
  · intro entry hm
    have hm : entry ∈ (ofHandle r.handle (d.reads.filter _)).tail := hm
    rw [hrest] at hm
    exact h.waiting entry (by rw [hr]; exact List.mem_of_mem_tail hm)
  · intro entry hm
    have hm : entry ∈ ofHandle r.handle (d.reads.filter _) := hm
    rw [hrest] at hm
    exact h.fitting entry (by rw [hr]; exact List.mem_cons_of_mem _ hm)

theorem take_other (h : Account d handle names done left) (ht : Tables d)
    (hh : d.Holds read r stream) (hn : handle ≠ r.handle) (entries : List DirectoryEntry)
    (name : String) :
    Account (d.take read r.handle { stream with entries } name) handle names done left := by
  apply h.congr
  · exact setStream_left_other hn
  · exact setStream_isSome d r.handle handle _
  · rfl
  · rfl
  · show ofHandle handle (changed read (.add name) d.reads) = _
    rw [ofHandle_changed (add_handle name),
      changed_absent _ (ofHandle_other ht.distinct hh.isUnderWay hn)]

theorem deliver_other (h : Account d handle names done left) (ht : Tables d)
    (hh : d.Holds read r stream) (hn : handle ≠ r.handle) (entries : List DirectoryEntry)
    (page : DirectoryPage) :
    Account (d.deliver read r.handle { stream with entries } page) handle names done left := by
  apply h.congr
  · exact setStream_left_other hn
  · exact setStream_isSome d r.handle handle _
  · exact startsOf_note.trans (List.append_nil _)
  · rw [Directories.deliver, deliveriesOf_note]
    simp [deliveryIn, Ne.symm hn, deliveriesOf, Directories.setStream]
  · show ofHandle handle (d.reads.filter _) = _
    rw [ofHandle_filter, filter_absent (ofHandle_other ht.distinct hh.isUnderWay hn)]

theorem turn {a : Step} (h : Account d handle names done left) (hv : Valid d)
    (ht : Turn d a d') : ∃ done' left', Account d' handle names done' left' := by
  obtain ⟨begun, fresh, hl⟩ := hv.lines
  cases ht with
  | opened entries => exact ⟨_, _, h.issue hv.tables entries⟩
  | refused other count failure => exact ⟨_, _, h.note rfl rfl⟩
  | started other count hc ho => exact ⟨_, _, h.start other count⟩
  | closed other =>
    have hd : Account { d with handles := d.handles.erase other } handle names done left :=
      h.congr rfl rfl rfl rfl rfl
    exact ⟨_, _, hd.note rfl rfl⟩
  | begun read spawned r stream hs hr ho =>
    have hd : Account { d with spawned } handle names done left := h.congr rfl rfl rfl rfl rfl
    exact ⟨_, _, hd.setStream ho _⟩
  | took read r stream bytes entries hh hn he =>
    by_cases ho : handle = r.handle
    · subst ho
      exact ⟨done, h.take_self hv.tables (hl.held_first hv.tables hh) hh hn he⟩
    · exact ⟨_, _, h.take_other hv.tables hh ho entries _⟩
  | ended read r stream entries page hh he =>
    by_cases ho : handle = r.handle
    · subst ho
      exact ⟨_, _, h.deliver_self hv.tables (hl.held_first hv.tables hh) hh he⟩
    · exact ⟨_, _, h.deliver_other hv.tables hh ho entries page⟩

end Account

/-- No read of a handle that was never given out has been started. -/
def Unheard (d : Directories) : Prop :=
  ∀ handle, d.issued < handle → d.startsOf handle = [] ∧ d.deliveriesOf handle = []

theorem Unheard.note (hu : Unheard d) (hs : ∀ handle, d.issued < handle → startIn handle event = none)
    (hd : ∀ handle, d.issued < handle → deliveryIn handle event = none) :
    Unheard (d.note event) := by
  intro handle hi
  rw [startsOf_note, deliveriesOf_note, hs handle hi, hd handle hi, (hu handle hi).1,
    (hu handle hi).2]
  exact ⟨rfl, rfl⟩

theorem Tables.given (h : Tables d) (ho : (d.streams.lookup handle).isSome) :
    handle ≤ d.issued := by
  apply Nat.le_of_not_lt
  intro hi
  rw [h.known handle hi] at ho
  cases ho

theorem turn_unheard {a : Step} (hu : Unheard d) (ht : Tables d) (hs : Turn d a d') :
    Unheard d' := by
  cases hs with
  | opened entries =>
    have hi : Unheard { d with
        issued := d.issued + 1
        handles := d.handles ++ [d.issued + 1]
        streams := d.streams ++ [(d.issued + 1, DirectoryStream.mk entries [])] } :=
      fun handle hi => hu handle (Nat.lt_of_succ_lt hi)
    exact hi.note (fun _ _ => rfl) (fun _ _ => rfl)
  | refused other count failure => exact hu.note (fun _ _ => rfl) (fun _ _ => rfl)
  | started other count hc ho =>
    have hg : other ≤ d.issued := ht.given (ht.opened other ho)
    have hn : Unheard { d with
        accepted := d.accepted + 1
        reads := d.reads ++ [(d.accepted, DirectoryRead.mk other count [])]
        spawned := d.spawned ++ [d.accepted] } := hu
    apply hn.note
    · intro handle hi
      have hi : d.issued < handle := hi
      exact if_neg (by omega)
    · exact fun _ _ => rfl
  | closed other =>
    have hc : Unheard { d with handles := d.handles.erase other } := hu
    exact hc.note (fun _ _ => rfl) (fun _ _ => rfl)
  | begun read spawned r stream hs hr ho => exact hu
  | took read r stream bytes entries hh hn he => exact hu
  | ended read r stream entries page hh he =>
    have hg : r.handle ≤ d.issued := ht.given (by rw [hh.isOpened]; rfl)
    have hn : Unheard ({ d with reads := d.reads.filter (·.1 ≠ read) }.setStream r.handle
        { entries, line := stream.line.tail }) := hu
    apply hn.note
    · exact fun _ _ => rfl
    · intro handle hi
      have hi : d.issued < handle := hi
      exact if_neg (by omega)

theorem issue_account (hu : Unheard d) (ht : Tables d) (bytes : List Utf8.Bytes) :
    Account (d.issue (bytes.map .ok)).1 (d.issued + 1) (bytes.map Utf8.textLossy) [] bytes := by
  have hl : (d.issue (bytes.map .ok)).1.streams.lookup (d.issued + 1) = some ⟨bytes.map .ok, []⟩ := by
    rw [ht.lookup_issue, if_pos rfl]
  have hr : ofHandle (d.issued + 1) d.reads = [] := by
    apply List.filter_eq_nil_iff.mpr
    intro entry hm he
    have hg : entry.2.handle ≤ d.issued := ht.given (ht.served entry hm)
    have he : entry.2.handle = d.issued + 1 := of_decide_eq_true he
    omega
  have hn := hu (d.issued + 1) (Nat.lt_succ_self _)
  refine ⟨left_of_lookup hl, by rw [hl]; rfl, ?_, ?_, ?_, ?_, ?_⟩
  · rw [show (d.issue (bytes.map .ok)).1.reads = d.reads from rfl, hr]
    exact startsOf_note.trans ((List.append_nil _).trans hn.1)
  · exact deliveriesOf_note.trans ((List.append_nil _).trans hn.2)
  · rw [show (d.issue (bytes.map .ok)).1.reads = d.reads from rfl, hr]
    rfl
  · rw [show (d.issue (bytes.map .ok)).1.reads = d.reads from rfl, hr]
    simp
  · rw [show (d.issue (bytes.map .ok)).1.reads = d.reads from rfl, hr]
    simp

/-- What holds of directories with their past: each listing without faults has its account. -/
structure Accounted (d : Directories) : Prop where
  valid : Valid d
  unheard : Unheard d
  account : ∀ handle (bytes : List Utf8.Bytes), .opened handle (bytes.map .ok) ∈ d.history →
    ∃ done left, Account d handle (bytes.map Utf8.textLossy) done left

theorem empty_accounted : Accounted .empty where
  valid := empty_valid
  unheard := fun _ _ => ⟨rfl, rfl⟩
  account := by simp [Directories.empty]

theorem turn_opened {a : Step} {entries : List DirectoryEntry} (ht : Turn d a d')
    (hm : .opened handle entries ∈ d'.history) :
    .opened handle entries ∈ d.history ∨ handle = d.issued + 1 ∧ d' = (d.issue entries).1 := by
  cases ht with
  | opened entries =>
    rcases List.mem_append.mp hm with hm | hm
    · exact .inl hm
    · cases List.mem_singleton.mp hm
      exact .inr ⟨rfl, rfl⟩
  | begun | took => exact .inl hm
  | refused | started | closed | ended =>
    rcases List.mem_append.mp hm with hm | hm
    · exact .inl hm
    · cases List.mem_singleton.mp hm

theorem step_accounted {a : Step} (h : Accounted d) (hs : d.step a = some d') :
    Accounted d' := by
  have ht : Turn d a d' := step_turn hs
  refine ⟨step_valid h.valid hs, turn_unheard h.unheard h.valid.tables ht, ?_⟩
  intro handle bytes hm
  rcases turn_opened ht hm with hm | ⟨rfl, rfl⟩
  · obtain ⟨done, left, ha⟩ := h.account handle bytes hm
    exact ha.turn h.valid ht
  · exact ⟨_, _, issue_account h.unheard h.valid.tables bytes⟩

theorem run_accounted {steps : List Step} (h : Accounted d) (hr : d.run steps = some d') :
    Accounted d' :=
  runsBy.keeps (fun _ _ _ _ => step_accounted) hr h

end ScriptHost.Directories
