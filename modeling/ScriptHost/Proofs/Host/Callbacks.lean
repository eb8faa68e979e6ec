import ScriptHost.Host.Course
import ScriptHost.Proofs.Host.Reads
import ScriptHost.Proofs.Timers.Basic

/-!
# The callbacks of a host at work

Every callback is at one place. It was called once, or its call was refused, or
one task is going to call it: a job in the queue or a read that was suspended.
The moves of a host take a callback from a task and call it, and no move does
anything else to one.
-/

set_option autoImplicit false

namespace ScriptHost

/-- A call whose callback a job is going to call. -/
inductive HostCall.Awaits : HostCall → HostJob Nat → Prop
  | open (id : ModuleId) (path : NativePath) (callback : Nat) (h : id.hostPath = .ok path) :
      Awaits (.open id) (.open path callback)
  | read (handle count n callback : Nat) : Awaits (.read handle count) (.read n callback)
  | spawn (command : String) (args : List String) (ended : HostResult ChildExit) (callback : Nat)
      (h : ended ≠ .error .callbackDropped) : Awaits (.spawn command args) (.exit ended callback)

/-- What a call can be told. -/
inductive HostCall.Hears : HostCall → HostWord → Prop
  | opened (id : ModuleId) (result : HostResult Nat) (h : result ≠ .error .callbackDropped) :
      Hears (.open id) (.answered (.opened result))
  | read (handle count : Nat) (page : DirectoryPage) (h : page ≠ .error .callbackDropped) :
      Hears (.read handle count) (.answered (.read page))
  | closed (handle : Nat) (result : HostResult Unit) (h : result ≠ .error .callbackDropped) :
      Hears (.close handle) (.answered (.closed result))
  | exited (command : String) (args : List String) (result : HostResult ChildExit)
      (h : result ≠ .error .callbackDropped) :
      Hears (.spawn command args) (.answered (.exited result))
  | refused (command : String) (args : List String) (text : String) :
      Hears (.spawn command args) (.refused (.spawn command text))

namespace NativeHost

/-! ## Calls -/

/-- What a call makes of a host: it is told something at once, or a task is queued that holds its
callback. -/
inductive Asked (h : NativeHost Nat) (callback : Nat) (call : HostCall) :
    NativeHost Nat → Option HostWord → Prop
  | atOnce (host : NativeHost Nat) (word : HostWord) (hs : host.schedule = h.schedule)
      (hu : host.directories.underWay = h.directories.underWay)
      (hd : host.directories.spawned = h.directories.spawned) (hw : call.Hears word) :
      Asked h callback call host (some word)
  | later (host : NativeHost Nat) (job : HostJob Nat) (hs : host.schedule = h.schedule.spawn job)
      (hu : host.directories.underWay = h.directories.underWay ++ job.read?.toList)
      (hd : host.directories.spawned = h.directories.spawned ++ job.read?.toList)
      (hc : job.callback? = some callback) (hw : call.Awaits job) :
      Asked h callback call host none

variable {h : NativeHost Nat} {system : SystemStart} {callback : Nat} {call : HostCall}

theorem hostPath_failure {id : ModuleId} {failure : HostFailure}
    (h : id.hostPath = .error failure) : failure ≠ .callbackDropped := by
  unfold ModuleId.hostPath at h
  cases hp : id.toFilePath <;> rw [hp] at h <;> cases h
  exact nofun

theorem ask_open_refused {id : ModuleId} {failure : HostFailure} (hp : id.hostPath = .error failure) :
    h.ask system callback (.open id) = (h, some (.answered (.opened (.error failure)))) := by
  simp [ask, openDirectory, hp]

theorem ask_open {id : ModuleId} {path : NativePath} (hp : id.hostPath = .ok path) :
    h.ask system callback (.open id) = (h.queue (.open path callback), none) := by
  simp [ask, openDirectory, hp]

theorem ask_read_refused {handle count : Nat} {failure : HostFailure}
    (hr : (h.directories.read handle count).2 = .error failure) :
    h.ask system callback (.read handle count) =
      ({ h with directories := (h.directories.read handle count).1 },
        some (.answered (.read (.error failure)))) := by
  simp [ask, readDirectory, hr]

theorem ask_read {handle count n : Nat} (hr : (h.directories.read handle count).2 = .ok n) :
    h.ask system callback (.read handle count) =
      (({ h with directories := (h.directories.read handle count).1 } : NativeHost Nat).queue
        (.read n callback), none) := by
  simp [ask, readDirectory, hr]

theorem ask_close (handle : Nat) : h.ask system callback (.close handle) =
    ({ h with directories := (h.directories.close handle).1 },
      some (.answered (.closed (h.directories.close handle).2))) := rfl

theorem child_cases (system : SystemStart) (dir : NativePath) (command : String)
    (args : List String) :
    (∃ text, system.child dir command args = .error (.spawn command text)) ∨
      ∃ number ended, system.child dir command args = .ok (number, ended) ∧
        ended ≠ .error .callbackDropped := by
  unfold SystemStart.child
  split
  · exact .inl ⟨_, rfl⟩
  · exact .inl ⟨_, rfl⟩
  · next number ended _ =>
    refine .inr ⟨number, _, rfl, ?_⟩
    cases ended with
    | ok exit => exact nofun
    | error fault => exact nofun

theorem ask_spawn_refused {command : String} {args : List String} {failure : HostFailure}
    (hs : system.child h.workingPath command args = .error failure) :
    h.ask system callback (.spawn command args) = (h, some (.refused failure)) := by
  simp [ask, spawn, hs]

theorem ask_spawn {command : String} {args : List String} {number : Nat}
    {ended : HostResult ChildExit}
    (hs : system.child h.workingPath command args = .ok (number, ended)) :
    h.ask system callback (.spawn command args) = (h.queue (.exit ended callback), none) := by
  simp [ask, spawn, hs]

theorem close_heard (d : Directories) (handle : Nat) :
    (d.close handle).2 ≠ .error .callbackDropped := by
  unfold Directories.close Directories.badHandle
  split <;> simp

theorem ask_asked (h : NativeHost Nat) (system : SystemStart) (callback : Nat) (call : HostCall) :
    Asked h callback call (h.ask system callback call).1 (h.ask system callback call).2 := by
  cases call with
  | «open» id =>
    cases hp : id.hostPath with
    | error failure =>
      rw [ask_open_refused hp]
      have hne : (.error failure : HostResult Nat) ≠ .error .callbackDropped :=
        fun he => hostPath_failure hp (Except.error.inj he)
      exact .atOnce h _ rfl rfl rfl (.opened id _ hne)
    | ok path =>
      rw [ask_open hp]
      exact .later _ (.open path callback) rfl (List.append_nil _).symm (List.append_nil _).symm rfl
        (.open id path callback hp)
  | read handle count =>
    obtain ⟨n, hn, hu, hs⟩ | ⟨failure, hf, hne, hu, hs⟩ := h.directories.read_cases handle count
    · rw [ask_read hn]
      exact .later _ (.read n callback) rfl hu hs rfl (.read handle count n callback)
    · rw [ask_read_refused hf]
      have hne : (.error failure : DirectoryPage) ≠ .error .callbackDropped :=
        fun he => hne (Except.error.inj he)
      exact .atOnce _ _ rfl hu hs (.read handle count _ hne)
  | close handle =>
    rw [ask_close]
    exact .atOnce _ _ rfl rfl rfl (.closed handle _ (close_heard _ _))
  | spawn command args =>
    obtain ⟨text, hs⟩ | ⟨number, ended, hs, hne⟩ := child_cases system h.workingPath command args
    · rw [ask_spawn_refused hs]
      exact .atOnce h _ rfl rfl rfl (.refused command args text)
    · rw [ask_spawn hs]
      exact .later _ (.exit ended callback) rfl (List.append_nil _).symm (List.append_nil _).symm
        rfl (.spawn command args ended callback hne)

theorem ask_reaches (h : NativeHost Nat) (system : SystemStart) (callback : Nat) (call : HostCall) :
    Directories.Reaches h.directories (h.ask system callback call).1.directories := by
  cases call with
  | «open» id =>
    cases hp : id.hostPath with
    | error failure => exact ask_open_refused hp ▸ .refl _
    | ok path => exact ask_open hp ▸ .refl _
  | read handle count => exact readDirectory_reaches h handle count callback
  | close handle => exact closeDirectory_reaches h handle
  | spawn command args =>
    obtain ⟨text, hs⟩ | ⟨number, ended, hs, -⟩ := child_cases system h.workingPath command args
    · exact ask_spawn_refused hs ▸ .refl _
    · exact ask_spawn hs ▸ .refl _

namespace Course

variable {c c' : Course}

/-! ## What the callbacks of a course are -/

def asked? (c : Course) (callback : Nat) : Option HostCall := (c.calls[callback]?).map (·.2)

/-- Every callback is at one place, and each task holds the callback of the call that it serves. -/
structure Kept (c : Course) : Prop where
  once : ∀ callback, (c.answersOf callback).length + (c.refusalsOf callback).length +
    c.owing.count callback = if callback < c.calls.length then 1 else 0
  asleep : ∀ pair ∈ c.host.schedule.asleep, pair.2.callback? = none
  directories : c.host.directories.Valid
  fresh : c.host.schedule.ready.filterMap HostJob.read? = c.host.directories.spawned
  begun : c.host.directories.underWay = c.reading.map (·.1) ++ c.host.directories.spawned
  awaited : ∀ job ∈ c.host.schedule.ready, ∀ callback, job.callback? = some callback →
    ∃ call, c.asked? callback = some call ∧ call.Awaits job
  reading : ∀ pair ∈ c.reading, ∃ handle count, c.asked? pair.2 = some (.read handle count)
  heard : ∀ entry ∈ c.told, ∃ call, c.asked? entry.2.1 = some call ∧ call.Hears entry.2.2

/-- What a move does to the callbacks of a course. -/
inductive Turned (c c' : Course) : Prop
  | quiet (hc : c'.calls = c.calls) (ht : c'.told = c.told) (hr : c'.reading = c.reading)
      (hu : c'.host.directories.underWay = c.host.directories.underWay)
      (hd : c'.host.directories.spawned = c.host.directories.spawned)
      (hj : ∀ job ∈ c'.host.schedule.ready, job ∈ c.host.schedule.ready ∨ job.callback? = none)
      (ha : ∀ pair ∈ c'.host.schedule.asleep,
        pair ∈ c.host.schedule.asleep ∨ pair.2.callback? = none)
      (ho : ∀ callback, c'.owing.count callback = c.owing.count callback)
      (hf : c'.host.schedule.ready.filterMap HostJob.read? =
        c.host.schedule.ready.filterMap HostJob.read?)
  | toldAtOnce (moment : Nat) (call : HostCall) (word : HostWord) (hw : call.Hears word)
      (hc : c'.calls = c.calls ++ [(moment, call)])
      (ht : c'.told = c.told ++ [(moment, c.calls.length, word)]) (hr : c'.reading = c.reading)
      (hs : c'.host.schedule = c.host.schedule)
      (hu : c'.host.directories.underWay = c.host.directories.underWay)
      (hd : c'.host.directories.spawned = c.host.directories.spawned)
  | queued (moment : Nat) (call : HostCall) (job : HostJob Nat)
      (hb : job.callback? = some c.calls.length) (hw : call.Awaits job)
      (hc : c'.calls = c.calls ++ [(moment, call)]) (ht : c'.told = c.told)
      (hr : c'.reading = c.reading) (hs : c'.host.schedule = c.host.schedule.spawn job)
      (hu : c'.host.directories.underWay = c.host.directories.underWay ++ job.read?.toList)
      (hd : c'.host.directories.spawned = c.host.directories.spawned ++ job.read?.toList)
  | ended (job : HostJob Nat) (rest : List (HostJob Nat)) (callback moment : Nat)
      (answer : HostAnswer) (call : HostCall) (hq : c.host.schedule.ready = job :: rest)
      (hb : job.callback? = some callback) (hw : c.asked? callback = some call)
      (hh : call.Hears (.answered answer)) (hc : c'.calls = c.calls)
      (ht : c'.told = c.told ++ [(moment, callback, .answered answer)])
      (hr : c'.reading = c.reading) (hj : c'.host.schedule.ready = rest)
      (ha : c'.host.schedule.asleep = c.host.schedule.asleep)
      (hd : c.host.directories.spawned = job.read?.toList ++ c'.host.directories.spawned)
      (hu : c'.host.directories.underWay =
        c.host.directories.underWay.filter (some · ≠ job.read?))
  | begun (n callback : Nat) (rest : List (HostJob Nat))
      (hq : c.host.schedule.ready = .read n callback :: rest) (hc : c'.calls = c.calls)
      (ht : c'.told = c.told) (hr : c'.reading = c.reading ++ [(n, callback)])
      (hj : c'.host.schedule.ready = rest)
      (ha : c'.host.schedule.asleep = c.host.schedule.asleep)
      (hd : c.host.directories.spawned = n :: c'.host.directories.spawned)
      (hu : c'.host.directories.underWay = c.host.directories.underWay)
  | paged (n callback moment : Nat) (page : DirectoryPage)
      (hl : c.reading.lookup n = some callback) (hh : page ≠ .error .callbackDropped)
      (hc : c'.calls = c.calls)
      (ht : c'.told = c.told ++ [(moment, callback, .answered (.read page))])
      (hr : c'.reading = c.reading.filter (·.1 ≠ n)) (hs : c'.host.schedule = c.host.schedule)
      (hd : c'.host.directories.spawned = c.host.directories.spawned)
      (hu : c'.host.directories.underWay = c.host.directories.underWay.filter (· ≠ n))

/-! ## What is told -/

theorem answersOf_told {moment callback : Nat} {answer : HostAnswer}
    (h : c'.told = c.told ++ [(moment, callback, .answered answer)]) (other : Nat) :
    c'.answersOf other =
        c.answersOf other ++ (if callback = other then [(moment, answer)] else []) ∧
      c'.refusalsOf other = c.refusalsOf other := by
  constructor
  · rw [answersOf, h, List.filterMap_append]
    by_cases ho : callback = other <;> simp [answerIn, ho, answersOf]
  · rw [refusalsOf, h, List.filterMap_append]
    exact List.append_nil _

theorem refusalsOf_told {moment callback : Nat} {failure : HostFailure}
    (h : c'.told = c.told ++ [(moment, callback, .refused failure)]) (other : Nat) :
    c'.refusalsOf other = c.refusalsOf other ++ (if callback = other then [failure] else []) ∧
      c'.answersOf other = c.answersOf other := by
  constructor
  · rw [refusalsOf, h, List.filterMap_append]
    by_cases ho : callback = other <;> simp [refusalIn, ho, refusalsOf]
  · rw [answersOf, h, List.filterMap_append]
    exact List.append_nil _

theorem told_same (h : c'.told = c.told) (callback : Nat) :
    c'.answersOf callback = c.answersOf callback ∧
      c'.refusalsOf callback = c.refusalsOf callback := by
  rw [answersOf, refusalsOf, h]
  exact ⟨rfl, rfl⟩

theorem asked?_lt {callback : Nat} {call : HostCall} (h : c.asked? callback = some call) :
    callback < c.calls.length := by
  obtain ⟨asked, ha, -⟩ := Option.map_eq_some_iff.mp h
  exact (List.getElem?_eq_some_iff.mp ha).1

theorem asked?_append {call : HostCall} {callback : Nat} {more : List (Nat × HostCall)}
    (hc : c'.calls = c.calls ++ more) (h : c.asked? callback = some call) :
    c'.asked? callback = some call := by
  rw [asked?, hc, List.getElem?_append_left (asked?_lt h)]
  exact h

/-- More calls change nothing for the earlier ones. -/
theorem turned_asked (ht : Turned c c') (callback : Nat) (call : HostCall)
    (h : c.asked? callback = some call) : c'.asked? callback = some call := by
  cases ht with
  | quiet hc | ended _ _ _ _ _ _ _ _ _ _ hc | begun _ _ _ _ hc | paged _ _ _ _ _ _ hc =>
    exact asked?_append (hc.trans (List.append_nil _).symm) h
  | toldAtOnce _ _ _ _ hc | queued _ _ _ _ _ hc => exact asked?_append hc h

theorem told_length {moment callback : Nat} {word : HostWord}
    (h : c'.told = c.told ++ [(moment, callback, word)]) (other : Nat) :
    (c'.answersOf other).length + (c'.refusalsOf other).length =
      (c.answersOf other).length + (c.refusalsOf other).length +
        if callback = other then 1 else 0 := by
  cases word with
  | answered answer =>
    obtain ⟨ha, hr⟩ := answersOf_told h other
    rw [ha, hr, List.length_append]
    split <;> simp
    omega
  | refused failure =>
    obtain ⟨hr, ha⟩ := refusalsOf_told h other
    rw [ha, hr, List.length_append]
    split <;> simp
    omega

theorem callbacks_cons (job : HostJob Nat) (rest : List (HostJob Nat)) (callback : Nat) :
    ((job :: rest).filterMap HostJob.callback?).count callback =
      (rest.filterMap HostJob.callback?).count callback +
        if job.callback? = some callback then 1 else 0 := by
  rw [List.filterMap_cons]
  cases hb : job.callback? with
  | none => simp
  | some own => simp [List.count_cons]

theorem reads_cons (job : HostJob Nat) (rest : List (HostJob Nat)) :
    (job :: rest).filterMap HostJob.read? = job.read?.toList ++ rest.filterMap HostJob.read? := by
  cases job <;> rfl

theorem filter_absent {n : Nat} {reads : List Nat} (h : n ∉ reads) :
    reads.filter (· ≠ n) = reads :=
  List.filter_eq_self.mpr fun m hm => by
    have hne : m ≠ n := fun he => h (he ▸ hm)
    simpa using hne

/-! ## Callbacks stay at one place -/

namespace Kept

theorem distinct (hk : Kept c) :
    (c.reading.map (·.1) ++ c.host.directories.spawned).Nodup := by
  rw [← hk.begun]
  exact hk.directories.tables.distinct

theorem turned_once (hk : Kept c) (ht : Turned c c') (callback : Nat) :
    (c'.answersOf callback).length + (c'.refusalsOf callback).length + c'.owing.count callback =
      if callback < c'.calls.length then 1 else 0 := by
  have hone := hk.once callback
  -- A new call owes its callback one answer. Whatever answers it takes the callback from what is
  -- owed, so that the sum stays.
  cases ht with
  | quiet hc ht _ _ _ _ _ ho =>
    obtain ⟨hanswers, hrefusals⟩ := told_same ht callback
    rw [hanswers, hrefusals, ho, hc, hone]
  | toldAtOnce moment call word hw hc ht hr hs =>
    have howing : c'.owing = c.owing := by rw [owing, hs, hr, owing]
    rw [told_length ht, howing, hc, List.length_append, List.length_singleton]
    split at hone <;> split <;> split <;> omega
  | queued moment call job hb hw hc ht hr hs =>
    obtain ⟨hanswers, hrefusals⟩ := told_same ht callback
    have howing : c'.owing.count callback =
        c.owing.count callback + if c.calls.length = callback then 1 else 0 := by
      rw [owing, owing, hs, Schedule.spawn, hr, List.filterMap_append, List.count_append,
        List.count_append, List.count_append, callbacks_cons, hb]
      simp only [List.filterMap_nil, List.count_nil, Option.some.injEq]
      omega
    rw [hanswers, hrefusals, howing, hc, List.length_append, List.length_singleton]
    split at hone <;> split <;> split <;> omega
  | ended job rest own moment answer call hq hb hw hh hc ht hr hj =>
    have howing : c.owing.count callback =
        c'.owing.count callback + if own = callback then 1 else 0 := by
      rw [owing, owing, hq, hr, hj, List.count_append, List.count_append, callbacks_cons, hb]
      simp only [Option.some.injEq]
      omega
    rw [told_length ht, hc]
    omega
  | begun n own rest hq hc ht hr hj =>
    obtain ⟨hanswers, hrefusals⟩ := told_same ht callback
    have howing : c'.owing.count callback = c.owing.count callback := by
      rw [owing, owing, hq, hr, hj, List.count_append, List.count_append, callbacks_cons,
        List.map_append, List.count_append, List.map_singleton, List.count_singleton]
      simp only [HostJob.callback?, Option.some.injEq, beq_iff_eq]
      omega
    rw [hanswers, hrefusals, howing, hc, hone]
  | paged n own moment page hl hh hc ht hr hs =>
    obtain ⟨hin, -, -⟩ := List.nodup_append.mp hk.distinct
    have howing : c.owing.count callback =
        c'.owing.count callback + if own = callback then 1 else 0 := by
      have hperm := ((Association.perm_removed hin hl).map (·.2)).count_eq callback
      rw [owing, owing, hs, hr, List.count_append, List.count_append, hperm, List.map_cons,
        List.count_cons]
      simp only [beq_iff_eq]
      omega
    rw [told_length ht, hc]
    omega

theorem turned_asleep (hk : Kept c) (ht : Turned c c') :
    ∀ pair ∈ c'.host.schedule.asleep, pair.2.callback? = none := by
  cases ht with
  | quiet _ _ _ _ _ _ ha => exact fun pair hm => (ha pair hm).elim (hk.asleep pair) id
  | toldAtOnce _ _ _ _ _ _ _ hs | queued _ _ _ _ _ _ _ _ hs | paged _ _ _ _ _ _ _ _ _ hs =>
    exact hs ▸ hk.asleep
  | ended _ _ _ _ _ _ _ _ _ _ _ _ _ _ ha | begun _ _ _ _ _ _ _ _ ha => exact ha ▸ hk.asleep

theorem turned_fresh (hk : Kept c) (ht : Turned c c') :
    c'.host.schedule.ready.filterMap HostJob.read? = c'.host.directories.spawned := by
  have hfresh := hk.fresh
  cases ht with
  | quiet _ _ _ _ hd _ _ _ hf => exact hf.trans (hfresh.trans hd.symm)
  | toldAtOnce _ _ _ _ _ _ _ hs _ hd | paged _ _ _ _ _ _ _ _ _ hs hd => rw [hs, hd, hfresh]
  | queued _ _ job _ _ _ _ _ hs _ hd =>
    rw [hs, Schedule.spawn, List.filterMap_append, hfresh, hd, reads_cons, List.filterMap_nil,
      List.append_nil]
  | ended job rest _ _ _ _ hq _ _ _ _ _ _ hj _ hd =>
    rw [hq, hd, reads_cons] at hfresh
    rw [hj]
    exact List.append_cancel_left hfresh
  | begun _ _ rest hq _ _ _ hj _ hd =>
    rw [hq, hd] at hfresh
    rw [hj]
    exact (List.cons.inj hfresh).2

theorem turned_begun (hk : Kept c) (ht : Turned c c') :
    c'.host.directories.underWay = c'.reading.map (·.1) ++ c'.host.directories.spawned := by
  have hn := hk.distinct
  cases ht with
  | quiet _ _ hr hu hd | toldAtOnce _ _ _ _ _ _ hr _ hu hd => rw [hu, hr, hd, hk.begun]
  | queued _ _ _ _ _ _ _ hr _ hu hd => rw [hu, hr, hd, hk.begun, List.append_assoc]
  | ended job _ _ _ _ _ _ _ _ _ _ _ hr _ _ hd hu =>
    rw [hu, hk.begun, hr, hd]
    rw [hd] at hn
    cases job with
    | read n callback =>
      obtain ⟨-, hout, hapart⟩ := List.nodup_append.mp hn
      have hbefore : n ∉ c.reading.map (·.1) := fun hm => hapart n hm n List.mem_cons_self rfl
      have hafter : n ∉ c'.host.directories.spawned := (List.nodup_cons.mp hout).1
      have hsame : ∀ m : Nat, decide (some m ≠ some n) = decide (m ≠ n) := by simp
      show (_ ++ n :: c'.host.directories.spawned).filter (some · ≠ some n) = _
      simp only [hsame]
      rw [List.filter_append, List.filter_cons_of_neg (by simp), filter_absent hbefore,
        filter_absent hafter]
    | timer | «open» | exit => exact List.filter_eq_self.mpr fun _ _ => rfl
  | begun _ _ _ _ _ _ hr _ _ hd hu =>
    rw [hu, hk.begun, hr, hd, List.map_append, List.append_assoc]
    rfl
  | paged n callback _ _ hl _ _ _ hr _ hd hu =>
    obtain ⟨-, -, hapart⟩ := List.nodup_append.mp hn
    have hm : n ∈ c.reading.map (·.1) := List.mem_map_of_mem (Association.mem_of_lookup hl)
    have hout : n ∉ c.host.directories.spawned := fun hs => hapart n hm n hs rfl
    rw [hu, hk.begun, hr, hd, List.filter_append, filter_absent hout, List.filter_map]
    rfl

theorem turned_awaited (hk : Kept c) (ht : Turned c c') :
    ∀ job ∈ c'.host.schedule.ready, ∀ callback, job.callback? = some callback →
      ∃ call, c'.asked? callback = some call ∧ call.Awaits job := by
  intro job hm callback hb
  have hbefore : job ∈ c.host.schedule.ready →
      ∃ call, c'.asked? callback = some call ∧ call.Awaits job := fun hm =>
    have ⟨call, ha, hw⟩ := hk.awaited job hm callback hb
    ⟨call, turned_asked ht _ _ ha, hw⟩
  cases ht with
  | quiet _ _ _ _ _ hj =>
    rcases hj job hm with hm | hn
    · exact hbefore hm
    · rw [hn] at hb
      cases hb
  | toldAtOnce _ _ _ _ _ _ _ hs | paged _ _ _ _ _ _ _ _ _ hs => exact hbefore (hs ▸ hm)
  | queued moment call own hown hw hc _ _ hs =>
    rw [hs] at hm
    rcases List.mem_append.mp hm with hm | hm
    · exact hbefore hm
    · obtain rfl := List.mem_singleton.mp hm
      obtain rfl : c.calls.length = callback := Option.some.inj (hown.symm.trans hb)
      exact ⟨call, by simp [asked?, hc], hw⟩
  | ended _ _ _ _ _ _ hq _ _ _ _ _ _ hj | begun _ _ _ hq _ _ _ hj =>
    exact hbefore (hq ▸ List.mem_cons_of_mem _ (hj ▸ hm))

theorem turned_reading (hk : Kept c) (ht : Turned c c') :
    ∀ pair ∈ c'.reading, ∃ handle count, c'.asked? pair.2 = some (.read handle count) := by
  intro pair hm
  have hbefore : pair ∈ c.reading →
      ∃ handle count, c'.asked? pair.2 = some (.read handle count) := fun hm =>
    have ⟨handle, count, ha⟩ := hk.reading pair hm
    ⟨handle, count, turned_asked ht _ _ ha⟩
  have hasked := turned_asked ht
  cases ht with
  | quiet _ _ hr | toldAtOnce _ _ _ _ _ _ hr | queued _ _ _ _ _ _ _ hr
  | ended _ _ _ _ _ _ _ _ _ _ _ _ hr => exact hbefore (hr ▸ hm)
  | begun n callback _ hq _ _ hr =>
    rw [hr] at hm
    rcases List.mem_append.mp hm with hm | hm
    · exact hbefore hm
    · obtain rfl := List.mem_singleton.mp hm
      obtain ⟨call, ha, hw⟩ :=
        hk.awaited (.read n callback) (hq ▸ List.mem_cons_self) callback rfl
      cases hw with
      | read handle count => exact ⟨handle, count, hasked _ _ ha⟩
  | paged _ _ _ _ _ _ _ _ hr =>
    rw [hr] at hm
    exact hbefore (List.mem_filter.mp hm).1

theorem turned_heard (hk : Kept c) (ht : Turned c c') :
    ∀ entry ∈ c'.told, ∃ call, c'.asked? entry.2.1 = some call ∧ call.Hears entry.2.2 := by
  have hbefore : ∀ entry ∈ c.told,
      ∃ call, c'.asked? entry.2.1 = some call ∧ call.Hears entry.2.2 := fun entry hm =>
    have ⟨call, ha, hw⟩ := hk.heard entry hm
    ⟨call, turned_asked ht _ _ ha, hw⟩
  have hone : ∀ {moment callback word call}, c'.told = c.told ++ [(moment, callback, word)] →
      c'.asked? callback = some call → call.Hears word →
      ∀ entry ∈ c'.told, ∃ call, c'.asked? entry.2.1 = some call ∧ call.Hears entry.2.2 := by
    intro moment callback word call ht ha hw entry hm
    rw [ht] at hm
    rcases List.mem_append.mp hm with hm | hm
    · exact hbefore entry hm
    · obtain rfl := List.mem_singleton.mp hm
      exact ⟨call, ha, hw⟩
  have hasked := turned_asked ht
  cases ht with
  | quiet _ ht | queued _ _ _ _ _ _ ht | begun _ _ _ _ _ ht => exact ht ▸ hbefore
  | toldAtOnce moment call word hw hc ht => exact hone ht (by simp [asked?, hc]) hw
  | ended _ _ _ _ _ call _ _ hw hh _ ht => exact hone ht (hasked _ _ hw) hh
  | paged n callback _ page hl hh _ ht =>
    obtain ⟨handle, count, ha⟩ := hk.reading (n, callback) (Association.mem_of_lookup hl)
    exact hone ht (hasked _ _ ha) (.read handle count page hh)

theorem turned (hk : Kept c) (hd : c'.host.directories.Valid) (ht : Turned c c') : Kept c' where
  once := hk.turned_once ht
  asleep := hk.turned_asleep ht
  directories := hd
  fresh := hk.turned_fresh ht
  begun := hk.turned_begun ht
  awaited := hk.turned_awaited ht
  reading := hk.turned_reading ht
  heard := hk.turned_heard ht

end Kept

end Course

end NativeHost

end ScriptHost
