import ScriptHost.Proofs.Association
import ScriptHost.Proofs.Engine.Runs
import ScriptHost.Proofs.Host.Timers

/-!
# Timers in the history of a run

A run starts, stops and fires timers and does nothing else with them. Each of
the three is an event of the history, which therefore tells what timers are
active: a stopped timer neither is nor fires, one that fires once is until its
fire, and whatever is active still has the callback that it was started with.
-/

set_option autoImplicit false

open scoped List

namespace ScriptHost.Engine

def CallbackEvent.timer? : CallbackEvent → Option Nat
  | .started timer _ _ | .stopped timer | .fired timer => some timer
  | _ => none

def CallbackEvent.isFireOf (timer : Nat) : CallbackEvent → Bool
  | .fired other => other = timer
  | _ => false

/-- How often a timer fired. -/
def firesOf (history : List CallbackEvent) (timer : Nat) : Nat :=
  history.countP (·.isFireOf timer)

section Histories

variable (s : State)

@[simp] theorem withTimer_history (delay interval : Nat) (f : Callable) :
    (s.withTimer delay interval f).history =
      .started (s.host.timers.issued + 1) interval f :: s.history := rfl

@[simp] theorem withoutTimer_history (handle : Nat) :
    (s.withoutTimer handle).history = .stopped handle :: s.history := rfl

@[simp] theorem withFire_history (timer : Nat) :
    (s.withFire timer).history = .fired timer :: s.history := rfl

@[simp] theorem withKept_history (host : NativeHost Nat) (f : Callable) :
    (s.withKept host f).history = .accepted (s.issued + 1) f :: s.history := rfl

@[simp] theorem withAnswer_history (key : Nat) (f : Callable) (answer : HostAnswer) :
    (s.withAnswer key f answer).history = .answered key answer :: s.history := rfl

@[simp] theorem withInstant_history (host : NativeHost Nat) (f : Callable) (answer : HostAnswer) :
    (s.withInstant host f answer).history =
      .answered (s.issued + 1) answer :: .accepted (s.issued + 1) f :: s.history := rfl

@[simp] theorem afterNext_history (event : CallbackEvent) :
    (s.afterNext event).history = event :: s.history := rfl

@[simp] theorem afterFailedImport_history (name complaint : String) (failure : LoadFailure) :
    (s.afterFailedImport name complaint failure).history = s.history := rfl

end Histories

/-- The step as it is seen by timers. -/
inductive TimerStep (s : State) : State → Prop
  | started (delay interval : Nat) (f : Callable) : TimerStep s (s.withTimer delay interval f)
  | stopped (handle : Nat) : TimerStep s (s.withoutTimer handle)
  | fired (host : NativeHost Nat) (timer : Timer) (hm : timer ∈ s.host.timers.active)
      (ht : host.timers = s.host.timers.afterFire timer) :
      TimerStep s ({ s with host }.withFire timer.handle)
  | other {s' : State} (events : List CallbackEvent) (ht : s'.host.timers = s.host.timers)
      (hc : s'.timerCallbacks = s.timerCallbacks) (hh : s'.history = events ++ s.history)
      (hn : ∀ e ∈ events, e.timer? = none) : TimerStep s s'

section Steps

variable {s s' : State}

theorem codeStep_timer (h : CodeStep s s') : TimerStep s s' := by
  cases h with
  | timerStarted delay interval f => exact .started delay interval f
  | timerStopped handle => exact .stopped handle
  | accepted host f ht =>
    exact .other [.accepted (s.issued + 1) f] ht rfl rfl (by simp [CallbackEvent.timer?])
  | settled host f answer ht =>
    exact .other [.answered (s.issued + 1) answer, .accepted (s.issued + 1) f] ht rfl rfl
      (by simp [CallbackEvent.timer?])
  | _ => exact .other [] rfl rfl rfl (by simp)

theorem step_timer (h : Step s s') : TimerStep s s' := by
  cases h with
  | code h => exact codeStep_timer h
  | answered host key f answer ht hf =>
    have hs : host.timers = s.host.timers := NativeHost.turn_unfired ht (by simp)
    exact .other [.answered key answer] hs rfl rfl (by simp [CallbackEvent.timer?])
  | fired host timer ht =>
    obtain ⟨fired, hm, rfl, hs⟩ := NativeHost.turn_fired ht
    exact .fired host fired hm hs
  | hostTurned host event ht hn =>
    have hs : host.timers = s.host.timers := NativeHost.turn_unfired ht hn
    exact .other [] hs rfl rfl (by simp)
  | called source f answer? args woken hw ha =>
    exact .other [.called source f args] rfl rfl rfl (by simp [CallbackEvent.timer?])
  | givenUp source f answer value woken hw ht =>
    exact .other [.givenUp source value] rfl rfl rfl (by simp [CallbackEvent.timer?])
  | timePassed deadline hd => exact .other [] rfl rfl rfl (by simp)

theorem runStep_timer (h : RunStep s s') : TimerStep s s' := by
  cases h with
  | turn h => exact step_timer h
  | _ => exact .other [] rfl rfl rfl (by simp)

theorem timerStep_history (h : TimerStep s s') : s.history <:+ s'.history := by
  cases h with
  | other events ht hc hh hn => exact hh ▸ List.suffix_append events s.history
  | _ => exact List.suffix_cons _ _

end Steps

/-- What a history tells of the timers of its run. -/
structure TimersTold (s : State) : Prop where
  issued : ∀ handle interval f, .started handle interval f ∈ s.history →
    handle ≤ s.host.timers.issued
  unique : ∀ handle i f j g, .started handle i f ∈ s.history → .started handle j g ∈ s.history →
    j = i ∧ g = f
  kept : ∀ timer ∈ s.host.timers.active, ∃ f, .started timer.handle timer.interval f ∈ s.history ∧
    s.timerCallbacks.lookup timer.handle = some f
  fires : ∀ handle, .fired handle ∈ s.history → handle ≤ s.host.timers.issued
  /-- A timer that was stopped after its start is active no more. -/
  stopped : ∀ handle interval f, [.stopped handle, .started handle interval f] <+ s.history →
    s.host.timers.isActive handle = false
  silent : ∀ handle interval f,
    ¬ [.fired handle, .stopped handle, .started handle interval f] <+ s.history
  /-- A timer that fires once is active until it fires or is stopped. -/
  once : ∀ handle f, .started handle 0 f ∈ s.history →
    (firesOf s.history handle = 1 ∧ s.host.timers.isActive handle = false) ∨
      (firesOf s.history handle = 0 ∧ (s.host.timers.isActive handle = true ∨
        [.stopped handle, .started handle 0 f] <+ s.history))

section Told

variable {s s' : State} {history : List CallbackEvent}

theorem firesOf_cons (e : CallbackEvent) (history : List CallbackEvent) (timer : Nat) :
    firesOf (e :: history) timer = firesOf history timer + if e.isFireOf timer then 1 else 0 := by
  simp [firesOf, List.countP_cons]

theorem firesOf_append (later earlier : List CallbackEvent) (timer : Nat) :
    firesOf (later ++ earlier) timer = firesOf later timer + firesOf earlier timer :=
  List.countP_append

theorem isFireOf_iff {e : CallbackEvent} {timer : Nat} :
    e.isFireOf timer = true ↔ e = .fired timer := by
  cases e <;> simp [CallbackEvent.isFireOf]

theorem firesOf_eq_zero {timer : Nat} : firesOf history timer = 0 ↔ .fired timer ∉ history := by
  simp only [firesOf, List.countP_eq_zero, isFireOf_iff]
  exact ⟨fun h hm => h _ hm rfl, fun h e hm he => h (he ▸ hm)⟩

theorem sublist_of_cons {e first : CallbackEvent} {rest : List CallbackEvent}
    (h : first :: rest <+ e :: history) (hne : first ≠ e) : first :: rest <+ history := by
  obtain hs | ⟨r, hr, -⟩ := List.sublist_cons_iff.mp h
  · exact hs
  · exact absurd (List.cons.inj hr).1 hne

theorem sublist_of_append {events rest : List CallbackEvent} {first : CallbackEvent}
    (h : first :: rest <+ events ++ history) (hne : first ∉ events) : first :: rest <+ history := by
  induction events with
  | nil => exact h
  | cons e events ih =>
    obtain ⟨hh, ht⟩ : first ≠ e ∧ first ∉ events := by simpa using hne
    exact ih (sublist_of_cons h hh) ht

theorem TimersTold.active_issued (h : TimersTold s) {timer : Timer}
    (hm : timer ∈ s.host.timers.active) : timer.handle ≤ s.host.timers.issued := by
  obtain ⟨f, hs, -⟩ := h.kept timer hm
  exact h.issued _ _ f hs

theorem TimersTold.next_new (h : TimersTold s) {handle : Nat}
    (hh : s.host.timers.issued < handle) :
    (∀ i f, .started handle i f ∉ s.history) ∧ .fired handle ∉ s.history := by
  constructor
  · intro i f hs
    have := h.issued handle i f hs
    omega
  · intro hf
    have := h.fires handle hf
    omega

theorem withTimer_isActive (delay interval : Nat) (f : Callable) {other : Nat}
    (ho : other ≤ s.host.timers.issued) :
    (s.withTimer delay interval f).host.timers.isActive other = s.host.timers.isActive other := by
  have hne : s.host.timers.issued + 1 ≠ other := by omega
  change Timers.isActive
    ⟨_, s.host.timers.active ++ [⟨s.host.timers.issued + 1, interval⟩]⟩ other = _
  simp [Timers.isActive, hne]

theorem started_told (h : TimersTold s) (delay interval : Nat) (f : Callable) :
    TimersTold (s.withTimer delay interval f) := by
  -- the handle was never given out, so nothing that was told before is about it
  obtain ⟨hnew, hunfired⟩ := h.next_new (Nat.lt_succ_self _)
  constructor
  case issued =>
    intro other i g hs
    obtain hs | hs := List.mem_cons.mp hs
    · cases hs
      exact Nat.le_refl _
    · exact Nat.le_succ_of_le (h.issued other i g hs)
  case unique =>
    intro other i g j k hi hj
    obtain hi | hi := List.mem_cons.mp hi
    · obtain hj | hj := List.mem_cons.mp hj
      · cases hi
        cases hj
        exact ⟨rfl, rfl⟩
      · cases hi
        exact absurd hj (hnew j k)
    · obtain hj | hj := List.mem_cons.mp hj
      · cases hj
        exact absurd hi (hnew i g)
      · exact h.unique other i g j k hi hj
  case kept =>
    intro timer hm
    obtain hm | hm := List.mem_append.mp hm
    · obtain ⟨g, hs, hl⟩ := h.kept timer hm
      have hne : timer.handle ≠ s.host.timers.issued + 1 := by
        have := h.active_issued hm
        omega
      refine ⟨g, List.mem_cons_of_mem _ hs, ?_⟩
      change ((s.host.timers.issued + 1, f) :: s.timerCallbacks).lookup timer.handle = some g
      rw [Association.lookup_cons, if_neg hne, hl]
    · rw [List.mem_singleton] at hm
      subst hm
      exact ⟨f, List.mem_cons_self, List.lookup_cons_self⟩
  case fires =>
    intro other hf
    obtain hf | hf := List.mem_cons.mp hf
    · cases hf
    · exact Nat.le_succ_of_le (h.fires other hf)
  case stopped =>
    intro other i g hs
    have hold : [.stopped other, .started other i g] <+ s.history := sublist_of_cons hs (by simp)
    rw [withTimer_isActive delay interval f (h.issued other i g (hold.subset (by simp)))]
    exact h.stopped other i g hold
  case silent =>
    intro other i g hs
    exact h.silent other i g (sublist_of_cons hs (by simp))
  case once =>
    intro other g hs
    rw [withTimer_history] at hs ⊢
    rw [firesOf_cons]
    simp only [CallbackEvent.isFireOf, Bool.false_eq_true, if_false, Nat.add_zero]
    obtain hs | hs := List.mem_cons.mp hs
    · cases hs
      refine .inr ⟨firesOf_eq_zero.mpr hunfired, .inl ?_⟩
      exact Timers.isActive_iff.mpr ⟨⟨_, 0⟩, List.mem_append_right _ List.mem_cons_self, rfl⟩
    · rw [withTimer_isActive delay interval f (h.issued other 0 g hs)]
      exact (h.once other g hs).imp id fun ⟨hf, ha⟩ => ⟨hf, ha.imp id (·.cons _)⟩

theorem stopped_told (h : TimersTold s) (handle : Nat) : TimersTold (s.withoutTimer handle) := by
  have hactive : ∀ other, (s.withoutTimer handle).host.timers.isActive other =
      (decide (other ≠ handle) && s.host.timers.isActive other) := Timers.stop_isActive
  constructor
  case issued =>
    intro other i f hs
    exact h.issued other i f (by simpa using hs)
  case unique =>
    intro other i f j g hi hj
    exact h.unique other i f j g (by simpa using hi) (by simpa using hj)
  case kept =>
    intro timer hm
    obtain ⟨hm, hne⟩ := Timers.mem_stop.mp hm
    obtain ⟨f, hs, hl⟩ := h.kept timer hm
    refine ⟨f, List.mem_cons_of_mem _ hs, ?_⟩
    change (s.timerCallbacks.filter (·.1 ≠ handle)).lookup timer.handle = some f
    rw [Association.lookup_removed, if_neg hne, hl]
  case fires =>
    intro other hf
    exact h.fires other (by simpa using hf)
  case stopped =>
    intro other i f hs
    rw [hactive]
    by_cases he : other = handle
    · simp [he]
    · rw [h.stopped other i f (sublist_of_cons hs (by simpa using he)), Bool.and_false]
  case silent =>
    intro other i f hs
    exact h.silent other i f (sublist_of_cons hs (by simp))
  case once =>
    intro other f hs
    have hold : .started other 0 f ∈ s.history := by simpa using hs
    rw [withoutTimer_history, firesOf_cons, hactive]
    simp only [CallbackEvent.isFireOf, Bool.false_eq_true, if_false, Nat.add_zero]
    obtain ⟨hf, ha⟩ | ⟨hf, ha⟩ := h.once other f hold
    · exact .inl ⟨hf, by simp [ha]⟩
    · refine .inr ⟨hf, ?_⟩
      by_cases he : other = handle
      · subst he
        exact .inr ((List.singleton_sublist.mpr hold).cons_cons _)
      · exact ha.imp (fun ha => by simp [he, ha]) (·.cons _)

theorem TimersTold.fired_kept (h : TimersTold s) {host : NativeHost Nat} {timer : Timer}
    (ht : host.timers = s.host.timers.afterFire timer) {other : Timer}
    (ho : other ∈ host.timers.active) :
    ∃ f, .started other.handle other.interval f ∈ s.history ∧
      ({ s with host }.withFire timer.handle).timerCallbacks.lookup other.handle = some f := by
  have hstill : host.timers.isActive other.handle = true := Timers.isActive_iff.mpr ⟨other, ho, rfl⟩
  rw [ht] at ho
  obtain ⟨f, hs, hl⟩ := h.kept other (Timers.afterFire_active ho).1
  refine ⟨f, hs, ?_⟩
  change (if host.timers.isActive timer.handle = true then s.timerCallbacks
    else s.timerCallbacks.filter (·.1 ≠ timer.handle)).lookup other.handle = some f
  split
  · exact hl
  · next hn =>
    -- the callback that is dropped is that of the timer which fired for the last time
    have hne : other.handle ≠ timer.handle := fun he => hn (he ▸ hstill)
    rw [Association.lookup_removed, if_neg hne, hl]

/-- A timer that fires once is active no more after its fire, and it had none before. -/
theorem TimersTold.fired_once (h : TimersTold s) {timer : Timer}
    (hm : timer ∈ s.host.timers.active) {f : Callable}
    (hs : .started timer.handle 0 f ∈ s.history) :
    firesOf s.history timer.handle = 0 ∧
      (s.host.timers.afterFire timer).isActive timer.handle = false := by
  obtain ⟨g, hstarted, -⟩ := h.kept timer hm
  constructor
  · obtain ⟨-, ha⟩ | ⟨hf, -⟩ := h.once _ f hs
    · rw [Timers.isActive_iff.mpr ⟨timer, hm, rfl⟩] at ha
      cases ha
    · exact hf
  · have hi : timer.interval = 0 := (h.unique _ 0 f _ g hs hstarted).1
    rw [Timers.afterFire_isActive]
    simp [hi]

theorem fired_told (h : TimersTold s) {host : NativeHost Nat} {timer : Timer}
    (hm : timer ∈ s.host.timers.active) (ht : host.timers = s.host.timers.afterFire timer) :
    TimersTold ({ s with host }.withFire timer.handle) := by
  have hinactive : ∀ other, s.host.timers.isActive other = false →
      host.timers.isActive other = false := by
    intro other ho
    rw [ht, Timers.afterFire_isActive, ho, Bool.and_false]
  have hissued : host.timers.issued = s.host.timers.issued := by
    rw [ht, Timers.afterFire_issued]
  constructor
  case issued =>
    intro other i g hs
    change other ≤ host.timers.issued
    rw [hissued]
    exact h.issued other i g (by simpa using hs)
  case unique =>
    intro other i g j k hi hj
    exact h.unique other i g j k (by simpa using hi) (by simpa using hj)
  case kept =>
    intro other ho
    obtain ⟨f, hs, hl⟩ := h.fired_kept ht ho
    exact ⟨f, List.mem_cons_of_mem _ hs, hl⟩
  case fires =>
    intro other hf
    change other ≤ host.timers.issued
    rw [hissued]
    obtain hf | hf := List.mem_cons.mp hf
    · cases hf
      exact h.active_issued hm
    · exact h.fires other hf
  case stopped =>
    intro other i g hs
    exact hinactive other (h.stopped other i g (sublist_of_cons hs (by simp)))
  case silent =>
    intro other i g hs
    obtain hs | ⟨r, hr, hs⟩ := List.sublist_cons_iff.mp hs
    · exact h.silent other i g hs
    · -- a stopped timer is not active, and this one was
      cases hr
      have hstopped := h.stopped _ i g hs
      rw [Timers.isActive_iff.mpr ⟨timer, hm, rfl⟩] at hstopped
      cases hstopped
  case once =>
    intro other g hs
    have hs : .started other 0 g ∈ s.history := by simpa using hs
    rw [withFire_history, firesOf_cons]
    simp only [CallbackEvent.isFireOf, decide_eq_true_eq]
    by_cases he : timer.handle = other
    · subst he
      obtain ⟨hz, hinactive⟩ := h.fired_once hm hs
      exact .inl ⟨by simp [hz], ht ▸ hinactive⟩
    · have hactive : host.timers.isActive other = s.host.timers.isActive other := by
        rw [ht, Timers.afterFire_isActive]
        simp [Ne.symm he]
      rw [if_neg he]
      change firesOf s.history other + 0 = 1 ∧ host.timers.isActive other = false ∨
        firesOf s.history other + 0 = 0 ∧ (host.timers.isActive other = true ∨ _)
      rw [hactive, Nat.add_zero]
      exact (h.once other g hs).imp id fun ⟨hf, ha⟩ => ⟨hf, ha.imp id (·.cons _)⟩

theorem untimed_told (h : TimersTold s) {events : List CallbackEvent}
    (ht : s'.host.timers = s.host.timers) (hc : s'.timerCallbacks = s.timerCallbacks)
    (hh : s'.history = events ++ s.history) (hn : ∀ e ∈ events, e.timer? = none) :
    TimersTold s' := by
  have hnot : ∀ e : CallbackEvent, e.timer?.isSome → e ∉ events := by
    intro e he hm
    rw [hn e hm] at he
    cases he
  have hstarted : ∀ handle i f, .started handle i f ∈ s'.history →
      .started handle i f ∈ s.history := by
    intro handle i f hs
    rw [hh] at hs
    exact (List.mem_append.mp hs).resolve_left (hnot _ rfl)
  have hfires : ∀ handle, firesOf s'.history handle = firesOf s.history handle := by
    intro handle
    have hz : firesOf events handle = 0 := firesOf_eq_zero.mpr (hnot _ rfl)
    rw [hh, firesOf_append, hz, Nat.zero_add]
  constructor
  case issued => exact fun handle i f hs => ht ▸ h.issued handle i f (hstarted handle i f hs)
  case unique =>
    exact fun handle i f j g hi hj =>
      h.unique handle i f j g (hstarted handle i f hi) (hstarted handle j g hj)
  case kept =>
    intro timer hm
    rw [ht] at hm
    obtain ⟨f, hs, hl⟩ := h.kept timer hm
    exact ⟨f, by rw [hh]; exact List.mem_append_right _ hs, by rw [hc, hl]⟩
  case fires =>
    intro handle hf
    rw [hh] at hf
    rw [ht]
    exact h.fires handle ((List.mem_append.mp hf).resolve_left (hnot _ rfl))
  case stopped =>
    intro handle i f hs
    rw [hh] at hs
    rw [ht]
    exact h.stopped handle i f (sublist_of_append hs (hnot _ rfl))
  case silent =>
    intro handle i f hs
    rw [hh] at hs
    exact h.silent handle i f (sublist_of_append hs (hnot _ rfl))
  case once =>
    intro handle f hs
    rw [hfires, ht, hh]
    exact (h.once handle f (hstarted handle 0 f hs)).imp id fun ⟨hf, ha⟩ =>
      ⟨hf, ha.imp id (·.trans (List.sublist_append_right _ _))⟩

theorem timerStep_told (hs : TimerStep s s') (h : TimersTold s) : TimersTold s' := by
  cases hs with
  | started delay interval f => exact started_told h delay interval f
  | stopped handle => exact stopped_told h handle
  | fired host timer hm ht => exact fired_told h hm ht
  | other events ht hc hh hn => exact untimed_told h ht hc hh hn

theorem fresh_told (s : State) (view : HostView) : TimersTold (fresh s view) := by
  constructor <;> simp [fresh, NativeHost.start, Timers.empty]

end Told

end ScriptHost.Engine
