import ScriptHost.Proofs.Host.Moves

/-!
# Every callback is answered once

At every moment of a host at work a callback was called once, or its call was
refused, or one task is going to call it. Tasks come to their ends, so in the
end every callback was called once whose call was not refused. Only the spawning
of a child is ever refused, and only its future can resolve with the loss of the
callback.
-/

set_option autoImplicit false

namespace ScriptHost

def HostCall.atOnce? (h : NativeHost Nat) (system : SystemStart) : HostCall → Option HostWord
  | .open id => match id.hostPath with
    | .error failure => some (.answered (.opened (.error failure)))
    | .ok _ => none
  | .read handle count =>
    if count = 0 then some (.answered (.read (.error Directories.emptyPage)))
    else if handle ∈ h.directories.handles then none
    else some (.answered (.read (Directories.badHandle handle)))
  | .close handle =>
    let result := if handle ∈ h.directories.handles then .ok () else Directories.badHandle handle
    some (.answered (.closed result))
  | .spawn command args => match system.child h.workingPath command args with
    | .error failure => some (.refused failure)
    | .ok _ => none

namespace NativeHost

theorem ask_word (h : NativeHost Nat) (system : SystemStart) (callback : Nat) (call : HostCall) :
    (h.ask system callback call).2 = call.atOnce? h system := by
  cases call with
  | «open» id =>
    cases hp : id.hostPath with
    | error failure => simp [ask_open_refused hp, HostCall.atOnce?, hp]
    | ok path => simp [ask_open hp, HostCall.atOnce?, hp]
  | read handle count =>
    by_cases hc : count = 0
    · have hr : (h.directories.read handle count).2 = .error Directories.emptyPage := by
        simp [Directories.read, Directories.accept, hc]
      rw [ask_read_refused hr]
      simp [HostCall.atOnce?, hc]
    · by_cases ho : handle ∈ h.directories.handles
      · have hr : (h.directories.read handle count).2 = .ok h.directories.accepted := by
          simp [Directories.read, Directories.accept, Directories.isOpen, hc, ho]
        simp [ask_read hr, HostCall.atOnce?, hc, ho]
      · have hr : (h.directories.read handle count).2 = Directories.badHandle handle := by
          simp [Directories.read, Directories.accept, Directories.isOpen, Directories.badHandle, hc, ho]
        simp [ask_read_refused hr, HostCall.atOnce?, hc, ho, Directories.badHandle]
  | close handle =>
    rw [ask_close]
    simp [HostCall.atOnce?, Directories.close, Directories.isOpen]
  | spawn command args =>
    cases hs : system.child h.workingPath command args with
    | error failure => simp [ask_spawn_refused hs, HostCall.atOnce?, hs]
    | ok started => simp [ask_spawn hs, HostCall.atOnce?, hs]

namespace Course

variable {c c' : Course} {fs : FileSystem} {system : SystemStart}

/-! ## Calls -/

theorem call_atOnce {call : HostCall} {word : HostWord} (hw : call.atOnce? c.host system = some word) :
    (c.call system call).told = c.told ++ [(c.now, c.calls.length, word)] ∧
      (c.call system call).owing = c.owing := by
  have hh := ask_asked c.host system c.calls.length call
  rw [← ask_word c.host system c.calls.length call] at hw
  unfold Course.call
  generalize c.host.ask system c.calls.length call = asked at hh hw
  obtain ⟨host, heard⟩ := asked
  cases hh with
  | later => cases hw
  | atOnce _ hs =>
    obtain rfl := Option.some.inj hw
    refine ⟨?_, ?_⟩
    · show c.told ++ [(host.schedule.now, _, _)] = _
      rw [hs]
      rfl
    · show host.schedule.ready.filterMap _ ++ _ = _
      rw [hs]
      rfl

theorem call_later {call : HostCall} (hw : call.atOnce? c.host system = none) :
    (c.call system call).told = c.told ∧ ∃ job, (c.call system call).host.schedule.ready =
      c.host.schedule.ready ++ [job] ∧ job.callback? = some c.calls.length ∧ call.Awaits job := by
  have hh := ask_asked c.host system c.calls.length call
  rw [← ask_word c.host system c.calls.length call] at hw
  unfold Course.call
  generalize c.host.ask system c.calls.length call = asked at hh hw
  obtain ⟨host, heard⟩ := asked
  cases hh with
  | atOnce => cases hw
  | later job hs hu hd hb ha =>
    refine ⟨List.append_nil _, job, ?_, hb, ha⟩
    show host.schedule.ready = _
    rw [hs]
    rfl

/-! ## What is told stays told -/

/-- A course goes on from another. -/
def Extends (c c' : Course) : Prop :=
  (∃ calls, c'.calls = c.calls ++ calls) ∧ ∃ words, c'.told = c.told ++ words

theorem Extends.trans {c'' : Course} (h : Extends c c') (h' : Extends c' c'') : Extends c c'' := by
  obtain ⟨⟨calls, hc⟩, words, ht⟩ := h
  obtain ⟨⟨moreCalls, hc'⟩, moreWords, ht'⟩ := h'
  exact ⟨⟨calls ++ moreCalls, by rw [hc', hc, List.append_assoc]⟩,
    words ++ moreWords, by rw [ht', ht, List.append_assoc]⟩

theorem turned_extends (h : Turned c c') : Extends c c' := by
  cases h with
  | quiet hc ht | begun _ _ _ _ hc ht =>
    exact ⟨⟨[], hc.trans (List.append_nil _).symm⟩, [], ht.trans (List.append_nil _).symm⟩
  | toldAtOnce _ _ _ _ hc ht => exact ⟨⟨_, hc⟩, _, ht⟩
  | queued _ _ _ _ _ hc ht => exact ⟨⟨_, hc⟩, [], ht.trans (List.append_nil _).symm⟩
  | ended _ _ _ _ _ _ _ _ _ _ hc ht | paged _ _ _ _ _ _ hc ht =>
    exact ⟨⟨[], hc.trans (List.append_nil _).symm⟩, _, ht⟩

theorem run_extends {moves : List Move} (hk : Kept c) (h : c.run moves = some c') :
    Extends c c' := by
  refine (runsBy.keeps (P := fun next => Kept next ∧ Extends c next) ?_ h
    ⟨hk, ⟨[], (List.append_nil _).symm⟩, [], (List.append_nil _).symm⟩).2
  intro next a after _ ⟨hk, hnext⟩ hm
  exact ⟨hk.move hm, hnext.trans (turned_extends (move_turned hk hm))⟩

/-- A callback that no task holds is never called again. -/
theorem lasts (hk : Kept c) (hk' : Kept c') (h : Extends c c') {callback : Nat}
    (hc : callback < c.calls.length) (ho : callback ∉ c.owing) :
    c'.answersOf callback = c.answersOf callback ∧
      c'.refusalsOf callback = c.refusalsOf callback := by
  obtain ⟨⟨calls, hcalls⟩, words, htold⟩ := h
  have hanswers : c'.answersOf callback =
      c.answersOf callback ++ words.filterMap (answerIn callback) := by
    rw [answersOf, htold, List.filterMap_append]
    rfl
  have hrefusals : c'.refusalsOf callback =
      c.refusalsOf callback ++ words.filterMap (refusalIn callback) := by
    rw [refusalsOf, htold, List.filterMap_append]
    rfl
  have hbefore := hk.once callback
  have hafter := hk'.once callback
  have hlength : callback < c'.calls.length := by
    rw [hcalls, List.length_append]
    omega
  rw [List.count_eq_zero.mpr ho, if_pos hc] at hbefore
  rw [hanswers, hrefusals, List.length_append, List.length_append, if_pos hlength] at hafter
  constructor
  · have hnil := List.length_eq_zero_iff.mp
      (show (words.filterMap (answerIn callback)).length = 0 by omega)
    rw [hanswers, hnil, List.append_nil]
  · have hnil := List.length_eq_zero_iff.mp
      (show (words.filterMap (refusalIn callback)).length = 0 by omega)
    rw [hrefusals, hnil, List.append_nil]

/-! ## Tasks come to their ends -/

def Move.IsTask (fs : FileSystem) : Move → Prop
  | .turn files => files = fs
  | .pull _ => True
  | _ => False

theorem happened_frame (c : Course) (event : Option (HostEvent Nat)) :
    (c.happened event).host = c.host ∧ (c.happened event).calls = c.calls := by
  rcases event with _ | ⟨timer⟩ | ⟨callback, answer⟩ <;> exact ⟨rfl, rfl⟩

theorem turn_ready {job : HostJob Nat} {rest : List (HostJob Nat)}
    (hr : c.host.schedule.ready = job :: rest) (fs : FileSystem) : ∃ c', c.turn? fs = some c' ∧
      c'.host.schedule.ready = rest ∧ c'.calls = c.calls := by
  have hn : c.host.schedule.next? = some (job, { c.host.schedule with ready := rest }) := by
    simp [Schedule.next?, hr]
  refine ⟨_, by rw [turn?, hn], ?_⟩
  obtain ⟨hhost, hcalls⟩ := happened_frame { c with
    host := (({ c.host with schedule := { c.host.schedule with ready := rest } } :
      NativeHost Nat).run fs job).1
    reading := c.reading ++ leaves job (({ c.host with
      schedule := { c.host.schedule with ready := rest } } : NativeHost Nat).run fs job).2 }
    (({ c.host with schedule := { c.host.schedule with ready := rest } } :
      NativeHost Nat).run fs job).2
  refine ⟨?_, hcalls⟩
  rw [hhost]
  cases job with
  | timer job => exact (c.host.timers.run_schedule _ HostJob.timer job).1
  | «open» path callback => exact congrArg Schedule.ready (opened_frame _ fs path).1
  | read n callback => rfl
  | exit exit callback => rfl

/-- When the queue is empty, a read that was suspended can go on if any was. -/
theorem pull_ready (hk : Kept c) (hr : c.host.schedule.ready = []) (ho : c.owing ≠ []) :
    ∃ n c', c.pull? n = some c' ∧ c'.host.schedule.ready = [] ∧ c'.calls = c.calls ∧
      c'.host.directories.work < c.host.directories.work := by
  have hreading : c.reading ≠ [] := by
    rintro he
    simp [owing, hr, he] at ho
  have hspawned : c.host.directories.spawned = [] := by
    rw [← hk.fresh, hr]
    rfl
  have hunder : c.host.directories.underWay = c.reading.map (·.1) := by
    rw [hk.begun, hspawned, List.append_nil]
  obtain ⟨n, d, page, hp⟩ :=
    Directories.pull_goes_on hk.directories hspawned (by simpa [hunder] using hreading)
  obtain ⟨r, stream, hholds, -⟩ := Directories.pull_cases hp
  have hn : n ∈ c.reading.map (·.1) := by
    rw [← hunder]
    exact List.mem_map_of_mem (f := (·.1)) (Association.mem_of_lookup hholds.isUnderWay)
  obtain ⟨callback, hl⟩ : ∃ callback, c.reading.lookup n = some callback := by
    obtain ⟨⟨_, callback⟩, hm, rfl⟩ := List.mem_map.mp hn
    have hdistinct := (List.nodup_append.mp hk.distinct).1
    exact ⟨callback, Association.lookup_of_mem hdistinct hm⟩
  have hless := Directories.turn_work hk.directories.tables (Directories.pull_turn hp) rfl
  refine ⟨n, ?_⟩
  simp only [pull?, hl, hp]
  exact ⟨_, rfl, hr, rfl, hless⟩

theorem ends (c : Course) (fs : FileSystem) (hk : Kept c) : ∃ moves c', (∀ a ∈ moves, a.IsTask fs) ∧
    c.run moves = some c' ∧ c'.calls = c.calls ∧ c'.owing = [] := by
  have hmore : ∀ {a : Move} {next : Course}, a.IsTask fs → c.move? a = some next →
      next.calls = c.calls →
      (∃ moves c', (∀ a ∈ moves, a.IsTask fs) ∧ next.run moves = some c' ∧ c'.calls = next.calls ∧
        c'.owing = []) →
      ∃ moves c', (∀ a ∈ moves, a.IsTask fs) ∧ c.run moves = some c' ∧ c'.calls = c.calls ∧
        c'.owing = [] := by
    rintro a next ha hm hc ⟨moves, c', ht, hr, hc', ho⟩
    refine ⟨a :: moves, c', ?_, by rw [run, hm]; exact hr, hc'.trans hc, ho⟩
    intro b hb
    rcases List.mem_cons.mp hb with rfl | hb
    · exact ha
    · exact ht b hb
  by_cases ho : c.owing = []
  · exact ⟨[], c, nofun, rfl, rfl, ho⟩
  cases hr : c.host.schedule.ready with
  | cons job rest =>
    obtain ⟨next, hm, hready, hc⟩ := turn_ready hr fs
    have hless : next.host.schedule.ready.length < c.host.schedule.ready.length := by
      rw [hready, hr]
      exact Nat.lt_succ_self _
    exact hmore (a := .turn fs) rfl hm hc (ends next fs (hk.move (a := .turn fs) hm))
  | nil =>
    obtain ⟨n, next, hm, hready, hc, hless⟩ := pull_ready hk hr ho
    exact hmore (a := .pull n) trivial hm hc (ends next fs (hk.move (a := .pull n) hm))
termination_by (c.host.schedule.ready.length, c.host.directories.work)
decreasing_by
  · rw [hready, hr]
    exact Prod.Lex.right _ hless
  · exact Prod.Lex.left _ _ hless

/-! ## Futures -/

theorem result_heard {call : HostCall} {answer : HostAnswer} (h : call.Hears (.answered answer)) :
    answer.result ≠ .error .callbackDropped := by
  have hmap : ∀ {A : Type} (result : HostResult A) (f : A → HostValue),
      result ≠ .error .callbackDropped → result.map f ≠ .error .callbackDropped := by
    intro A result f hr
    cases result with
    | ok value => exact nofun
    | error failure => exact fun he => hr (congrArg _ (Except.error.inj he))
  cases h with
  | opened id result hr => exact hmap result _ hr
  | read handle count page hr => exact hmap page _ hr
  | closed handle result hr => exact hmap result _ hr
  | exited command args result hr => exact hmap result _ hr

/-! ## The law -/

/-- The law of the callbacks that the primitives of a host are given. -/
structure CallbackLaw (c : Course) : Prop where
  /-- A callback was called once, or its call was refused, or one task is going to call it. -/
  once : ∀ callback, (c.answersOf callback).length + (c.refusalsOf callback).length +
    c.owing.count callback = if callback < c.calls.length then 1 else 0
  /-- What was told of a callback suits its call; in particular only a spawning is refused. -/
  heard : ∀ entry ∈ c.told, ∃ call, c.asked? entry.2.1 = some call ∧ call.Hears entry.2.2
  /-- A call that fails before any waiting tells so at once. -/
  atOnce : ∀ (system : SystemStart) (call : HostCall) (word : HostWord),
    call.atOnce? c.host system = some word →
    (c.call system call).told = c.told ++ [(c.now, c.calls.length, word)] ∧
    (c.call system call).owing = c.owing
  /-- Every other call queues one job that holds the callback. -/
  later : ∀ (system : SystemStart) (call : HostCall), call.atOnce? c.host system = none →
    (c.call system call).told = c.told ∧
    ∃ job, (c.call system call).host.schedule.ready = c.host.schedule.ready ++ [job] ∧
      job.callback? = some c.calls.length ∧ call.Awaits job
  /-- After that nothing more is told. -/
  lasting : ∀ moves c', c.run moves = some c' → ∀ callback < c.calls.length,
    callback ∉ c.owing → c'.answersOf callback = c.answersOf callback ∧
      c'.refusalsOf callback = c.refusalsOf callback
  /-- Tasks end, and then no callback is left. -/
  ends : ∀ fs : FileSystem, ∃ moves c', (∀ a ∈ moves, a.IsTask fs) ∧ c.run moves = some c' ∧
    c'.calls = c.calls ∧ c'.owing = []
  /-- The future of a call resolves with the answer. It resolves with the loss of the callback just
  if the call was refused, and then a child was to be spawned. -/
  future : ∀ callback moment call, c.calls[callback]? = some (moment, call) → callback ∉ c.owing →
    ((adapt (c.usesOf callback moment)).1 = .error .callbackDropped ↔
      c.refusalsOf callback ≠ []) ∧
    (c.refusalsOf callback ≠ [] → ∃ command args, call = .spawn command args) ∧
    ∀ at_ answer, (at_, answer) ∈ c.answersOf callback →
      adapt (c.usesOf callback moment) = (answer.result, at_ - moment)

theorem mem_answersOf {callback at_ : Nat} {answer : HostAnswer} :
    (at_, answer) ∈ c.answersOf callback ↔ (at_, callback, .answered answer) ∈ c.told := by
  have hone : ∀ entry, answerIn callback entry = some (at_, answer) ↔
      entry = (at_, callback, .answered answer) := by
    rintro ⟨moment, other, word⟩
    cases word with
    | refused failure => simp [answerIn]
    | answered given => by_cases ho : other = callback <;> simp [answerIn, ho]
  simp [answersOf, List.mem_filterMap, hone]

theorem mem_refusalsOf {callback : Nat} {failure : HostFailure} :
    failure ∈ c.refusalsOf callback ↔ ∃ moment, (moment, callback, .refused failure) ∈ c.told := by
  have hone : ∀ entry, refusalIn callback entry = some failure ↔
      ∃ moment, entry = (moment, callback, .refused failure) := by
    rintro ⟨moment, other, word⟩
    cases word with
    | answered answer => simp [refusalIn]
    | refused given => by_cases ho : other = callback <;> simp [refusalIn, ho]
  simp only [refusalsOf, List.mem_filterMap, hone]
  constructor
  · rintro ⟨_, hm, moment, rfl⟩
    exact ⟨moment, hm⟩
  · rintro ⟨moment, hm⟩
    exact ⟨_, hm, moment, rfl⟩

/-- The future of a callback that no task holds. -/
theorem Kept.future (hk : Kept c) {callback moment : Nat} {call : HostCall}
    (hc : c.calls[callback]? = some (moment, call)) (ho : callback ∉ c.owing) :
    ((adapt (c.usesOf callback moment)).1 = .error .callbackDropped ↔
      c.refusalsOf callback ≠ []) ∧
    (c.refusalsOf callback ≠ [] → ∃ command args, call = .spawn command args) ∧
    ∀ at_ answer, (at_, answer) ∈ c.answersOf callback →
      adapt (c.usesOf callback moment) = (answer.result, at_ - moment) := by
  have hasked : c.asked? callback = some call := by rw [asked?, hc]; rfl
  have hone := hk.once callback
  rw [List.count_eq_zero.mpr ho, if_pos (List.getElem?_eq_some_iff.mp hc).1] at hone
  -- the call is owed nothing, so it was answered or refused, and only once
  cases ha : c.answersOf callback with
  | nil =>
    rw [ha] at hone
    cases hr : c.refusalsOf callback with
    | nil => simp [hr] at hone
    | cons failure rest =>
      have huses : c.usesOf callback moment = [] := by simp [usesOf, ha]
      have hm : failure ∈ c.refusalsOf callback := by simp [hr]
      obtain ⟨at_, hm⟩ := mem_refusalsOf.mp hm
      obtain ⟨own, hown, hw⟩ := hk.heard _ hm
      obtain rfl := Option.some.inj (hown.symm.trans hasked)
      refine ⟨⟨fun _ => List.cons_ne_nil failure rest, fun _ => by rw [huses]; rfl⟩, fun _ => ?_,
        fun _ _ hm => absurd hm List.not_mem_nil⟩
      cases hw with
      | refused command args text => exact ⟨command, args, rfl⟩
  | cons entry rest =>
    obtain ⟨at_, answer⟩ := entry
    rw [ha, List.length_cons] at hone
    have hr : c.refusalsOf callback = [] := List.length_eq_zero_iff.mp (by omega)
    have hrest : rest = [] := List.length_eq_zero_iff.mp (by omega)
    subst hrest
    have huses : adapt (c.usesOf callback moment) = (answer.result, at_ - moment) := by
      simp only [usesOf, ha, List.flatMap_cons, List.flatMap_nil, List.append_nil]
      simp [adapt, Adaptation.run, Adaptation.start, Adaptation.move, Adaptation.settle,
        Adaptation.outcomeOf, Callback.use]
    obtain ⟨own, -, hw⟩ := hk.heard _ (mem_answersOf.mp (ha ▸ List.mem_singleton.mpr rfl))
    rw [huses, hr]
    refine ⟨⟨fun he => absurd he (result_heard hw), fun hn => absurd rfl hn⟩, fun hn => absurd rfl hn,
      fun other given hm => ?_⟩
    obtain ⟨rfl, rfl⟩ := Prod.mk.inj (List.mem_singleton.mp hm)
    rfl

/-- Whatever is asked of a host and however its tasks take their turns, every callback is called
once, at once or by the task that its call queued, except those of children that could not be
spawned, which are never called. -/
theorem callback_law {view : HostView} {sink : Sink} {now : Nat} {moves : List Move}
    (h : (start view sink now).run moves = some c) : CallbackLaw c := by
  have hk : Kept c := (start_kept view sink now).run h
  constructor
  case once => exact hk.once
  case heard => exact hk.heard
  case atOnce => exact fun system call word hw => call_atOnce hw
  case later => exact fun system call hw => call_later hw
  case lasting =>
    intro moves c' hr callback hc ho
    exact lasts hk (hk.run hr) (run_extends hk hr) hc ho
  case ends => exact fun fs => Course.ends c fs hk
  case future => exact fun callback moment call hc ho => hk.future hc ho

/-- The root directory is opened while a child runs. A close comes before the opening, a program is
missing, and of two reads one asks for no names. -/
def rootOpened : List Move :=
  let root : ModuleId := ⟨⟨"file".toList, none, .rooted [[]], none⟩⟩
  let call (call : HostCall) : Move := .call (Child.start .empty) call
  [call (.open root), call (.close 1), call (.spawn "true" []), call (.spawn "gone" []),
    .turn .empty, call (.read 1 2), call (.read 1 0), .wait]

theorem root_opened_law :
    ∃ c, (start ⟨default, []⟩ .empty 0).run rootOpened = some c ∧ c.owing = [4, 2] ∧
      c.refusalsOf 3 ≠ [] ∧ (adapt (c.usesOf 3 0)).1 = .error .callbackDropped ∧
      (adapt (c.usesOf 0 0)).1 ≠ .error .callbackDropped ∧ (c.answersOf 5).length = 1 ∧
      ∃ moves c', (∀ a ∈ moves, a.IsTask .empty) ∧ c.run moves = some c' ∧ c'.owing = [] := by
  have hrun : ((start ⟨default, []⟩ .empty 0).run rootOpened).map (fun c => (c.owing,
      c.calls.length, (c.calls.map (·.1)), (c.refusalsOf 3).length, (c.refusalsOf 0).length,
      (c.refusalsOf 5).length)) = some ([4, 2], 6, [0, 0, 0, 0, 0, 0], 1, 0, 0) := by decide
  obtain ⟨c, hc, hview⟩ := Option.map_eq_some_iff.mp hrun
  simp only [Prod.mk.injEq] at hview
  obtain ⟨howing, hlength, hmoments, hthree, hzero, hfive⟩ := hview
  have hlaw : CallbackLaw c := callback_law hc
  have hasked : ∀ callback < 6, ∃ call, c.calls[callback]? = some (0, call) := by
    intro callback hlt
    obtain ⟨⟨moment, call⟩, ha⟩ : ∃ asked, c.calls[callback]? = some asked :=
      ⟨_, List.getElem?_eq_getElem (hlength ▸ hlt)⟩
    have hm : moment ∈ c.calls.map (·.1) :=
      List.mem_map.mpr ⟨(moment, call), List.mem_of_getElem? ha, rfl⟩
    rw [hmoments] at hm
    obtain rfl : moment = 0 := by simpa using hm
    exact ⟨call, ha⟩
  obtain ⟨refused, hr⟩ := hasked 3 (by decide)
  obtain ⟨opened, ho⟩ := hasked 0 (by decide)
  have hrefused : c.refusalsOf 3 ≠ [] := by
    intro he
    simp [he] at hthree
  refine ⟨c, hc, howing, hrefused, ?_, fun he => ?_, ?_, ?_⟩
  · exact (hlaw.future 3 0 refused hr (by simp [howing])).1.mpr hrefused
  · have hn := (hlaw.future 0 0 opened ho (by simp [howing])).1.mp he
    exact hn (List.length_eq_zero_iff.mp hzero)
  · have hone := hlaw.once 5
    simpa [hfive, howing, hlength] using hone
  · obtain ⟨moves, c', ht, hm, -, he⟩ := hlaw.ends .empty
    exact ⟨moves, c', ht, hm, he⟩

end Course

end NativeHost

end ScriptHost
