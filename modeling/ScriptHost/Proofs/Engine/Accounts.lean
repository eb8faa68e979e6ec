import ScriptHost.Proofs.Engine.TimerHistory

/-!
# Accounts of callbacks

A callback that a primitive accepts is due to be called once, one of a timer
once for each fire. The calls of a run with those it gives up and those it still
owes are as many as are due. Each call is of the function that was handed over,
with what shows the answer or with nothing at all, and none is given up but for
an answer that has a name with a setter.
-/

set_option autoImplicit false

namespace ScriptHost.Engine

def CallbackEvent.makesDue (source : CallbackSource) : CallbackEvent → Bool
  | .fired timer => CallbackSource.timer timer = source
  | .accepted key _ => CallbackSource.primitive key = source
  | _ => false

def CallbackEvent.isCallOf (source : CallbackSource) : CallbackEvent → Bool
  | .called other _ _ => other = source
  | _ => false

def CallbackEvent.isWaiverOf (source : CallbackSource) : CallbackEvent → Bool
  | .givenUp other _ => other = source
  | _ => false

def duesOf (history : List CallbackEvent) (source : CallbackSource) : Nat :=
  history.countP (·.makesDue source)

def callsOf (history : List CallbackEvent) (source : CallbackSource) : Nat :=
  history.countP (·.isCallOf source)

def waiversOf (history : List CallbackEvent) (source : CallbackSource) : Nat :=
  history.countP (·.isWaiverOf source)

def isKeptFor (source : CallbackSource) (kept : Nat × Callable) : Bool :=
  CallbackSource.primitive kept.1 = source

def isWakingOf (source : CallbackSource) (waking : Waking) : Bool := waking.1 = source

/-- The calls that are still owed, for which an answer is awaited or which are next. -/
def State.owed (s : State) (source : CallbackSource) : Nat :=
  s.callbacks.countP (isKeptFor source) + s.woken.countP (isWakingOf source)

/-- Why a callback is to be called. -/
inductive Due (history : List CallbackEvent) : Waking → Prop
  | timer {timer interval : Nat} {f : Callable} (h : .started timer interval f ∈ history) :
      Due history (.timer timer, f, none)
  | answer {key : Nat} {f : Callable} {answer : HostAnswer}
      (hf : .accepted key f ∈ history) (ha : .answered key answer ∈ history) :
      Due history (.primitive key, f, some answer)

structure Accounted (s : State) : Prop where
  timers : TimersTold s
  balance : ∀ source, duesOf s.history source =
    callsOf s.history source + waiversOf s.history source + s.owed source
  issued : ∀ key f, .accepted key f ∈ s.history → key ≤ s.issued
  once : ∀ key, duesOf s.history (.primitive key) ≤ 1
  kept : ∀ key f, (key, f) ∈ s.callbacks → .accepted key f ∈ s.history
  woken : ∀ waking ∈ s.woken, Due s.history waking
  called : ∀ source f args, .called source f args ∈ s.history →
    ∃ answer?, Due s.history (source, f, answer?) ∧ Suits s.Takes answer? args
  givenUp : ∀ source value, .givenUp source value ∈ s.history →
    ∃ f answer, Due s.history (source, f, some answer) ∧ ∃ name ∈ namesSet answer, s.Takes name

section Counts

variable {history : List CallbackEvent}

theorem duesOf_cons (e : CallbackEvent) (history : List CallbackEvent) (source : CallbackSource) :
    duesOf (e :: history) source =
      duesOf history source + if e.makesDue source then 1 else 0 := by
  simp [duesOf, List.countP_cons]

theorem callsOf_cons (e : CallbackEvent) (history : List CallbackEvent)
    (source : CallbackSource) :
    callsOf (e :: history) source =
      callsOf history source + if e.isCallOf source then 1 else 0 := by
  simp [callsOf, List.countP_cons]

theorem waiversOf_cons (e : CallbackEvent) (history : List CallbackEvent)
    (source : CallbackSource) :
    waiversOf (e :: history) source =
      waiversOf history source + if e.isWaiverOf source then 1 else 0 := by
  simp [waiversOf, List.countP_cons]

theorem callsOf_append (later earlier : List CallbackEvent) (source : CallbackSource) :
    callsOf (later ++ earlier) source = callsOf later source + callsOf earlier source :=
  List.countP_append

theorem duesOf_timer (history : List CallbackEvent) (timer : Nat) :
    duesOf history (.timer timer) = firesOf history timer := by
  refine List.countP_congr fun e _ => ?_
  cases e <;> simp [CallbackEvent.makesDue, CallbackEvent.isFireOf]

theorem makesDue_iff {e : CallbackEvent} {key : Nat} :
    e.makesDue (.primitive key) = true ↔ ∃ f, e = .accepted key f := by
  cases e <;> simp [CallbackEvent.makesDue, eq_comm]

theorem duesOf_eq_zero {key : Nat} :
    duesOf history (.primitive key) = 0 ↔ ∀ f, .accepted key f ∉ history := by
  simp only [duesOf, List.countP_eq_zero, makesDue_iff, not_exists]
  exact ⟨fun h f hm => h _ hm f rfl, fun h e hm f he => h f (he ▸ hm)⟩

theorem isCallOf_iff {e : CallbackEvent} {source : CallbackSource} :
    e.isCallOf source = true ↔ ∃ f args, e = .called source f args := by
  cases e <;> simp [CallbackEvent.isCallOf]

theorem callsOf_eq_zero {source : CallbackSource} :
    callsOf history source = 0 ↔ ∀ f args, .called source f args ∉ history := by
  simp only [callsOf, List.countP_eq_zero, isCallOf_iff, not_exists]
  exact ⟨fun h f args hm => h _ hm f args rfl, fun h e hm f args he => h f args (he ▸ hm)⟩

theorem isWaiverOf_iff {e : CallbackEvent} {source : CallbackSource} :
    e.isWaiverOf source = true ↔ ∃ value, e = .givenUp source value := by
  cases e <;> simp [CallbackEvent.isWaiverOf]

theorem waiversOf_eq_zero {source : CallbackSource} :
    waiversOf history source = 0 ↔ ∀ value, .givenUp source value ∉ history := by
  simp only [waiversOf, List.countP_eq_zero, isWaiverOf_iff, not_exists]
  exact ⟨fun h value hm => h _ hm value rfl, fun h e hm value he => h value (he ▸ hm)⟩

theorem Due.mono {history' : List CallbackEvent} {waking : Waking} (h : Due history waking)
    (hs : history ⊆ history') : Due history' waking := by
  cases h with
  | timer h => exact .timer (hs h)
  | answer hf ha => exact .answer (hs hf) (hs ha)

theorem eq_of_countP_le_one {α : Type} {p : α → Bool} {items : List α} {a b : α}
    (h : items.countP p ≤ 1) (ha : a ∈ items) (hb : b ∈ items) (hpa : p a = true)
    (hpb : p b = true) : a = b := by
  have ha : a ∈ items.filter p := List.mem_filter.mpr ⟨ha, hpa⟩
  have hb : b ∈ items.filter p := List.mem_filter.mpr ⟨hb, hpb⟩
  rw [List.countP_eq_length_filter] at h
  match hl : items.filter p with
  | [] => simp [hl] at ha
  | [c] =>
    rw [hl, List.mem_singleton] at ha hb
    rw [ha, hb]
  | c :: d :: rest => simp [hl] at h

end Counts

section Steps

variable {s s' : State}

@[simp] theorem withKept_callbacks (host : NativeHost Nat) (f : Callable) :
    (s.withKept host f).callbacks = (s.issued + 1, f) :: s.callbacks := rfl

section Answers

variable (key : Nat) (f : Callable) (answer : HostAnswer)

@[simp] theorem withAnswer_woken :
    (s.withAnswer key f answer).woken = s.woken ++ [(.primitive key, f, some answer)] := rfl

@[simp] theorem withAnswer_callbacks : (s.withAnswer key f answer).callbacks = s.callbacks := rfl

end Answers

theorem Accounted.kept_once (h : Accounted s) {key : Nat} {f : Callable}
    (hf : s.callbacks.lookup key = some f) :
    s.callbacks.countP (isKeptFor (.primitive key)) = 1 := by
  have hm : (key, f) ∈ s.callbacks := Association.mem_of_lookup hf
  have hpos : 0 < s.callbacks.countP (isKeptFor (.primitive key)) :=
    List.countP_pos_iff.mpr ⟨(key, f), hm, by simp [isKeptFor]⟩
  have hb := h.balance (.primitive key)
  have ho := h.once key
  unfold State.owed at hb
  omega

theorem kept_removed (callbacks : List (Nat × Callable)) (key : Nat) (source : CallbackSource) :
    (callbacks.filter (·.1 ≠ key)).countP (isKeptFor source) =
      if source = .primitive key then 0 else callbacks.countP (isKeptFor source) := by
  rw [List.countP_filter]
  split
  · rename_i he
    rw [List.countP_eq_zero]
    simp [he, isKeptFor]
  · rename_i hne
    refine List.countP_congr fun kept _ => ?_
    simp only [isKeptFor, Bool.and_eq_true, decide_eq_true_eq, and_iff_left_iff_imp]
    rintro rfl rfl
    exact hne rfl

theorem owed_withKept (host : NativeHost Nat) (f : Callable) (source : CallbackSource) :
    (s.withKept host f).owed source =
      s.owed source + if CallbackSource.primitive (s.issued + 1) = source then 1 else 0 := by
  simp only [State.owed, withKept_callbacks, List.countP_cons, isKeptFor, decide_eq_true_eq]
  rw [Nat.add_right_comm]
  rfl

theorem owed_withAnswer (key : Nat) (f : Callable) (answer : HostAnswer) (source : CallbackSource) :
    (s.withAnswer key f answer).owed source =
      s.owed source + if CallbackSource.primitive key = source then 1 else 0 := by
  simp only [State.owed, withAnswer_callbacks, withAnswer_woken, List.countP_append,
    List.countP_singleton, isWakingOf, decide_eq_true_eq]
  rw [Nat.add_assoc]

theorem balance_after {s s' : State} {source : CallbackSource} {e : CallbackEvent}
    (hb : duesOf s.history source =
      callsOf s.history source + waiversOf s.history source + s.owed source)
    (hh : s'.history = e :: s.history)
    (ho : s'.owed source + (if e.isCallOf source then 1 else 0) +
      (if e.isWaiverOf source then 1 else 0) = s.owed source + if e.makesDue source then 1 else 0) :
    duesOf s'.history source =
      callsOf s'.history source + waiversOf s'.history source + s'.owed source := by
  rw [hh, duesOf_cons, callsOf_cons, waiversOf_cons]
  omega

theorem owed_afterNext {other : CallbackSource} {f : Callable} {answer? : Option HostAnswer}
    {woken : List Waking} (hw : s.woken = (other, f, answer?) :: woken) (event : CallbackEvent)
    (source : CallbackSource) :
    (s.afterNext event).owed source + (if other = source then 1 else 0) = s.owed source := by
  simp only [State.owed, State.afterNext, hw, List.tail_cons, List.countP_cons, isWakingOf,
    decide_eq_true_eq]
  rw [Nat.add_assoc]

theorem codeStep_balance (h : CodeStep s s') (ha : Accounted s) (source : CallbackSource) :
    duesOf s'.history source =
      callsOf s'.history source + waiversOf s'.history source + s'.owed source := by
  have hb := ha.balance source
  cases h with
  | timerStarted delay interval f => exact balance_after hb (withTimer_history _ _ _ _) rfl
  | timerStopped handle => exact balance_after hb (withoutTimer_history _ _) rfl
  | accepted host f ht =>
    refine balance_after hb (withKept_history _ _ _) ?_
    simp [owed_withKept, CallbackEvent.makesDue, CallbackEvent.isCallOf, CallbackEvent.isWaiverOf]
  | settled host f answer ht =>
    rw [withInstant_history, State.withInstant, owed_withAnswer, duesOf_cons, callsOf_cons,
      waiversOf_cons, duesOf_cons, callsOf_cons, waiversOf_cons, hb]
    simp [CallbackEvent.makesDue, CallbackEvent.isCallOf, CallbackEvent.isWaiverOf, State.owed,
      Nat.add_assoc]
  | _ => exact hb

theorem step_balance (h : Step s s') (ha : Accounted s) (source : CallbackSource) :
    duesOf s'.history source =
      callsOf s'.history source + waiversOf s'.history source + s'.owed source := by
  have hb := ha.balance source
  cases h with
  | code h => exact codeStep_balance h ha source
  | answered host key f answer ht hf =>
    have hk := kept_removed s.callbacks key source
    have ho := ha.kept_once hf
    refine balance_after hb (withAnswer_history _ _ _ _) ?_
    rw [owed_withAnswer]
    simp only [State.owed, hk]
    -- the call that was owed for the answer is owed as the next one now
    by_cases he : source = .primitive key
    · subst he
      simp [CallbackEvent.makesDue, CallbackEvent.isCallOf, CallbackEvent.isWaiverOf, ho,
        Nat.add_comm]
    · simp [CallbackEvent.makesDue, CallbackEvent.isCallOf, CallbackEvent.isWaiverOf, he, Ne.symm he]
  | fired host timer ht =>
    obtain ⟨fired, hm, rfl, -⟩ := NativeHost.turn_fired ht
    obtain ⟨f, -, hl⟩ := ha.timers.kept fired hm
    refine balance_after hb (withFire_history _ _) ?_
    simp [State.owed, State.withFire, hl, CallbackEvent.makesDue, CallbackEvent.isCallOf,
      CallbackEvent.isWaiverOf, isWakingOf, List.countP_singleton, Nat.add_assoc]
  | called other f answer? args woken hw hs =>
    refine balance_after hb (afterNext_history _ _) ?_
    simpa [CallbackEvent.makesDue, CallbackEvent.isCallOf, CallbackEvent.isWaiverOf] using
      owed_afterNext hw _ source
  | givenUp other f answer value woken hw ht =>
    refine balance_after hb (afterNext_history _ _) ?_
    simpa [CallbackEvent.makesDue, CallbackEvent.isCallOf, CallbackEvent.isWaiverOf] using
      owed_afterNext hw _ source
  | _ => exact hb

theorem codeStep_accepted (h : CodeStep s s') (ha : Accounted s) :
    (∀ key f, .accepted key f ∈ s'.history → key ≤ s'.issued) ∧
      ∀ key, duesOf s'.history (.primitive key) ≤ 1 := by
  have hi : s.issued ≤ s'.issued := codeStep_issued h
  -- keys are references, and this one is given out just now
  have hnew : ∀ f, .accepted (s.issued + 1) f ∉ s.history := by
    intro f hm
    have := ha.issued _ f hm
    omega
  have honce : ∀ f key, duesOf (.accepted (s.issued + 1) f :: s.history) (.primitive key) ≤ 1 := by
    intro f key
    have ho := ha.once key
    rw [duesOf_cons]
    by_cases he : key = s.issued + 1
    · subst he
      simp [duesOf_eq_zero.mpr hnew, CallbackEvent.makesDue]
    · simpa [CallbackEvent.makesDue, Ne.symm he] using ho
  have hold : ∀ key f, .accepted key f ∈ s.history → key ≤ s'.issued :=
    fun key f hm => Nat.le_trans (ha.issued key f hm) hi
  cases h with
  | accepted host f ht =>
    refine ⟨fun key g hm => ?_, honce f⟩
    obtain hm | hm := List.mem_cons.mp hm
    · cases hm
      exact Nat.le_refl _
    · exact hold key g hm
  | settled host f answer ht =>
    constructor
    · intro key g hm
      rw [withInstant_history] at hm
      obtain hm | hm := List.mem_cons.mp hm
      · cases hm
      · obtain hm | hm := List.mem_cons.mp hm
        · cases hm
          exact Nat.le_refl _
        · exact hold key g hm
    · intro key
      simpa [duesOf_cons, CallbackEvent.makesDue] using honce f key
  | _ =>
    exact ⟨fun key g hm => hold key g (by simpa using hm),
      fun key => by simpa [duesOf_cons, CallbackEvent.makesDue] using ha.once key⟩

theorem step_accepted (h : Step s s') (ha : Accounted s) :
    (∀ key f, .accepted key f ∈ s'.history → key ≤ s'.issued) ∧
      ∀ key, duesOf s'.history (.primitive key) ≤ 1 := by
  have hold : ∀ key f, .accepted key f ∈ s.history → key ≤ s'.issued :=
    fun key f hm => Nat.le_trans (ha.issued key f hm) (step_issued h)
  cases h with
  | code h => exact codeStep_accepted h ha
  | _ =>
    exact ⟨fun key g hm => hold key g (by simpa using hm),
      fun key => by simpa [duesOf_cons, CallbackEvent.makesDue] using ha.once key⟩

theorem step_kept (h : Step s s') (ha : Accounted s) :
    ∀ key f, (key, f) ∈ s'.callbacks → .accepted key f ∈ s'.history := by
  have hs : s.history ⊆ s'.history := (timerStep_history (step_timer h)).subset
  have hold : ∀ key f, (key, f) ∈ s.callbacks → .accepted key f ∈ s'.history :=
    fun key f hm => hs (ha.kept key f hm)
  cases h with
  | code h =>
    cases h with
    | accepted host f ht =>
      intro key g hm
      obtain hm | hm := List.mem_cons.mp hm
      · cases hm
        exact List.mem_cons_self
      · exact hold key g hm
    | _ => exact hold
  | answered host key f answer ht hf =>
    exact fun other g hm => hold other g (List.mem_filter.mp hm).1
  | _ => exact hold

theorem step_woken (h : Step s s') (ha : Accounted s) :
    ∀ waking ∈ s'.woken, Due s'.history waking := by
  have hs : s.history ⊆ s'.history := (timerStep_history (step_timer h)).subset
  have hold : ∀ waking ∈ s.woken, Due s'.history waking :=
    fun waking hm => (ha.woken waking hm).mono hs
  cases h with
  | code h =>
    cases h with
    | settled host f answer ht =>
      intro waking hm
      obtain hm | hm := List.mem_append.mp hm
      · exact hold waking hm
      · rw [List.mem_singleton] at hm
        subst hm
        exact .answer (by simp) (by simp)
    | _ => exact hold
  | answered host key f answer ht hf =>
    intro waking hm
    obtain hm | hm := List.mem_append.mp hm
    · exact hold waking hm
    · rw [List.mem_singleton] at hm
      subst hm
      exact .answer (hs (ha.kept key f (Association.mem_of_lookup hf))) (by simp)
  | fired host timer ht =>
    -- a timer that fires was active, and its callback is kept as long as it is
    obtain ⟨fired, hm, rfl, -⟩ := NativeHost.turn_fired ht
    obtain ⟨f, hf, hl⟩ := ha.timers.kept fired hm
    intro waking hm
    simp only [State.withFire, hl, Option.toList_some, List.map_cons, List.map_nil] at hm
    obtain hm | hm := List.mem_append.mp hm
    · exact hold waking hm
    · rw [List.mem_singleton] at hm
      subst hm
      exact .timer (hs hf)
  | called source f answer? args woken hw hs =>
    exact fun waking hm => hold waking (List.mem_of_mem_tail hm)
  | givenUp source f answer value woken hw ht =>
    exact fun waking hm => hold waking (List.mem_of_mem_tail hm)
  | _ => exact hold

theorem step_called (h : Step s s') (ha : Accounted s) : ∀ source f args,
    .called source f args ∈ s'.history →
      ∃ answer?, Due s'.history (source, f, answer?) ∧ Suits s'.Takes answer? args := by
  have hs : s.history ⊆ s'.history := (timerStep_history (step_timer h)).subset
  have ht : ∀ name, s.Takes name → s'.Takes name := fun _ => step_takes h
  have hold : ∀ source f args, .called source f args ∈ s.history →
      ∃ answer?, Due s'.history (source, f, answer?) ∧ Suits s'.Takes answer? args := by
    intro source f args hm
    obtain ⟨answer?, hd, hw⟩ := ha.called source f args hm
    exact ⟨answer?, hd.mono hs, hw.mono ht⟩
  cases h with
  | called other g answer? given woken hw hg =>
    intro source f args hm
    obtain hm | hm := List.mem_cons.mp hm
    · cases hm
      exact ⟨answer?, (ha.woken _ (by rw [hw]; exact List.mem_cons_self)).mono hs, hg⟩
    · exact hold source f args hm
  | code h => cases h <;> exact fun source f args hm => hold source f args (by simpa using hm)
  | _ => exact fun source f args hm => hold source f args (by simpa using hm)

theorem step_givenUp (h : Step s s') (ha : Accounted s) : ∀ source value,
    .givenUp source value ∈ s'.history → ∃ f answer, Due s'.history (source, f, some answer) ∧
      ∃ name ∈ namesSet answer, s'.Takes name := by
  have hs : s.history ⊆ s'.history := (timerStep_history (step_timer h)).subset
  have ht : ∀ name, s.Takes name → s'.Takes name := fun _ => step_takes h
  have hold : ∀ source value, .givenUp source value ∈ s.history → ∃ f answer,
      Due s'.history (source, f, some answer) ∧ ∃ name ∈ namesSet answer, s'.Takes name := by
    intro source value hm
    obtain ⟨f, answer, hd, name, hn, hk⟩ := ha.givenUp source value hm
    exact ⟨f, answer, hd.mono hs, name, hn, ht name hk⟩
  cases h with
  | givenUp other g answer thrown woken hw hk =>
    intro source value hm
    obtain hm | hm := List.mem_cons.mp hm
    · cases hm
      exact ⟨g, answer, (ha.woken _ (by rw [hw]; exact List.mem_cons_self)).mono hs, hk⟩
    · exact hold source value hm
  | code h => cases h <;> exact fun source value hm => hold source value (by simpa using hm)
  | _ => exact fun source value hm => hold source value (by simpa using hm)

theorem step_accounted (h : Step s s') (ha : Accounted s) : Accounted s' where
  timers := timerStep_told (step_timer h) ha.timers
  balance := step_balance h ha
  issued := (step_accepted h ha).1
  once := (step_accepted h ha).2
  kept := step_kept h ha
  woken := step_woken h ha
  called := step_called h ha
  givenUp := step_givenUp h ha

theorem runStep_accounted (h : RunStep s s') (ha : Accounted s) : Accounted s' := by
  have ht : TimersTold s' := timerStep_told (runStep_timer h) ha.timers
  cases h with
  | turn h => exact step_accounted h ha
  | _ => exact ⟨ht, ha.balance, ha.issued, ha.once, ha.kept, ha.woken, ha.called, ha.givenUp⟩

theorem fresh_accounted (s : State) (view : HostView) : Accounted (fresh s view) where
  timers := fresh_told s view
  balance _ := rfl
  issued := by simp [fresh]
  once _ := Nat.zero_le 1
  kept := by simp [fresh]
  woken := by simp [fresh]
  called := by simp [fresh]
  givenUp := by simp [fresh]

theorem run_accounted (duration : Nat) (s : State) (view : HostView) :
    Accounted (runWithin duration s view).1 := by
  rw [runWithin_left]
  exact walks_keep (fun h => runStep_accounted h) walks_runEntry (fresh_accounted s view)

/-- A key is for one callback. -/
theorem Accounted.accepted_once (h : Accounted s) {key : Nat} {f g : Callable}
    (hf : .accepted key f ∈ s.history) (hg : .accepted key g ∈ s.history) : g = f := by
  have he := eq_of_countP_le_one (h.once key) hg hf (by simp [CallbackEvent.makesDue])
    (by simp [CallbackEvent.makesDue])
  cases he
  rfl

theorem Accounted.called_timer (h : Accounted s) {f g : Callable} {args : List Value}
    (timer interval : Nat) (started : .started timer interval f ∈ s.history)
    (called : .called (.timer timer) g args ∈ s.history) : g = f ∧ args = [] := by
  obtain ⟨answer?, hd, hs⟩ := h.called _ g args called
  cases hd with
  | timer hg =>
    cases hs
    exact ⟨(h.timers.unique _ _ f _ g started hg).2, rfl⟩

/-- No call of a timer's callback is given up. -/
theorem Accounted.timer_waivers (h : Accounted s) (timer : Nat) :
    waiversOf s.history (.timer timer) = 0 := by
  refine waiversOf_eq_zero.mpr fun value hm => ?_
  obtain ⟨f, answer, hd, -⟩ := h.givenUp _ value hm
  cases hd

end Steps

section Labels

/-- What an event is, without functions and what they are called with. -/
def CallbackEvent.label : CallbackEvent → String × CallbackSource
  | .started timer _ _ => ("started", .timer timer)
  | .stopped timer => ("stopped", .timer timer)
  | .fired timer => ("fired", .timer timer)
  | .accepted key _ => ("accepted", .primitive key)
  | .answered key _ => ("answered", .primitive key)
  | .called source _ _ => ("called", source)
  | .givenUp source _ => ("given up", source)

variable {history : List CallbackEvent}

theorem stopped_of_label {e : CallbackEvent} {timer : Nat}
    (h : e.label = ("stopped", .timer timer)) : e = .stopped timer := by
  cases e <;> simp_all [CallbackEvent.label]

theorem started_of_label {timer : Nat}
    (h : ("started", .timer timer) ∈ history.map CallbackEvent.label) :
    ∃ interval f, .started timer interval f ∈ history := by
  obtain ⟨e, hm, he⟩ := List.mem_map.mp h
  cases e <;> simp_all [CallbackEvent.label]
  exact ⟨_, _, hm⟩

theorem called_of_label {source : CallbackSource}
    (h : ("called", source) ∈ history.map CallbackEvent.label) :
    ∃ f args, .called source f args ∈ history := by
  obtain ⟨e, hm, he⟩ := List.mem_map.mp h
  cases e <;> simp_all [CallbackEvent.label]
  exact ⟨_, _, hm⟩

end Labels

end ScriptHost.Engine
