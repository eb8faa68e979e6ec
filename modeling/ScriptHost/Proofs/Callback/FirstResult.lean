import Mathlib.Data.List.Induction
import ScriptHost.Callback.Course
import ScriptHost.Proofs.Steps

/-!
# The first result wins

The first use of a callback decides what a wait comes to: the result that it
delivers, or the loss of the callback if it is dropped. A course keeps in step with
the moves that its function made. Before the first use there is nothing to see,
and from then on there is one thing to see, which was sent at the moment of that
use; the wait ends with it at that moment, because time does not pass before.
-/

set_option autoImplicit false

namespace ScriptHost

variable {α : Type}

def duration : List (HostMove α) → Nat
  | [] => 0
  | .wait ms :: rest => ms + duration rest
  | .use _ :: rest => duration rest

/-- What ends the wait for a function, and when: the first call or completion, unless the callback
is dropped before. A function drops its callback at the end. -/
inductive Ends (moves : List (HostMove α)) : HostResult α → Nat → Prop
  | delivered (before after : List (HostMove α)) (u : CallbackUse α) (result : HostResult α)
      (split : moves = before ++ .use u :: after) (unused : ∀ u, HostMove.use u ∉ before)
      (gives : u = .call result ∨ u = .complete result) : Ends moves result (duration before)
  | lost (before after : List (HostMove α))
      (split : moves ++ [.use .drop] = before ++ .use .drop :: after)
      (unused : ∀ u, HostMove.use u ∉ before) :
      Ends moves (.error .callbackDropped) (duration before)

def CallbackUse.outcome : CallbackUse α → HostResult α
  | .call result | .complete result => result
  | .drop => .error .callbackDropped

theorem Ends.wait {moves : List (HostMove α)} {result : HostResult α} {time : Nat}
    (h : Ends moves result time) (ms : Nat) :
    Ends (.wait ms :: moves) result (ms + time) := by
  cases h with
  | delivered before after u _ split unused gives =>
    exact .delivered (.wait ms :: before) after u result (by rw [split, List.cons_append])
      (by simpa using unused) gives
  | lost before after split unused =>
    exact .lost (.wait ms :: before) after (by rw [List.cons_append, split, List.cons_append])
      (by simpa using unused)

theorem Ends.use (u : CallbackUse α) (after : List (HostMove α)) :
    Ends (.use u :: after) (u.outcome) 0 := by
  cases u with
  | call result => exact .delivered [] after _ result rfl (by simp) (.inl rfl)
  | complete result => exact .delivered [] after _ result rfl (by simp) (.inr rfl)
  | drop => exact .lost [] (after ++ [HostMove.use .drop]) rfl (by simp)

/-- The moves that deliver a result, if nothing was delivered before. -/
def HostMove.delivers : HostMove α → Bool
  | .use (.call _) | .use (.complete _) => true
  | _ => false

/-- The moves after which the callback is gone. -/
def HostMove.consumes : HostMove α → Bool
  | .use .drop | .use (.complete _) => true
  | _ => false

namespace Callback

variable {callback : Callback} {u : CallbackUse α}

theorem use_used (h : callback ≠ .waiting) :
    (callback.use u).2 = none ∧ (callback.use u).1 ≠ .waiting := by
  cases callback with
  | waiting => exact (h rfl).elim
  | spent => cases u <;> exact ⟨rfl, nofun⟩
  | gone => cases u <;> exact ⟨rfl, nofun⟩

end Callback

theorem Channel.after_used {callback : Callback} {u : CallbackUse α} {channel : Channel α}
    (h : callback ≠ .waiting) : channel.after callback u = channel := by
  cases callback with
  | waiting => exact (h rfl).elim
  | spent => cases u <;> rfl
  | gone => cases u <;> rfl

namespace Adaptation

variable {a : Adaptation α} {m : HostMove α} {moves : List (HostMove α)} {result : HostResult α}
  {time : Nat}

def after (moves : List (HostMove α)) : Adaptation α := moves.foldl move start

theorem after_append (made : List (HostMove α)) (m : HostMove α) :
    after (made ++ [m]) = (after made).move m := by
  rw [after, List.foldl_append, List.foldl_cons, List.foldl_nil, after]

theorem move_first (hs : a.settled = none) (hc : a.callback = .waiting) (u : CallbackUse α) :
    (a.move (.use u)).settled = some (u.outcome, a.now) := by
  rw [move, settle, hs, hc]
  cases u <;> rfl

theorem move_use_now (u : CallbackUse α) : (a.move (.use u)).now = a.now := by
  rw [move, settle]
  cases a.settled <;> rfl

theorem move_use_callback (u : CallbackUse α) :
    (a.move (.use u)).callback = (a.callback.use u).1 := by
  rw [move, settle]
  cases a.settled <;> rfl

theorem move_settled (h : a.settled = some (result, time)) :
    (a.move m).settled = some (result, time) := by
  cases m with
  | wait ms => exact h
  | use u =>
    rw [move, settle, h]

theorem foldl_settled (h : a.settled = some (result, time)) (moves : List (HostMove α)) :
    (moves.foldl move a).settled = some (result, time) := by
  induction moves generalizing a with
  | nil => exact h
  | cons m moves ih => exact ih (move_settled h)

/-- What ends the wait is what the moves settle on, whenever they begin. -/
theorem exists_ends (moves : List (HostMove α)) (a : Adaptation α) (hs : a.settled = none)
    (hc : a.callback = .waiting) : ∃ result time, Ends moves result time ∧
      ((moves ++ [HostMove.use .drop]).foldl move a).settled = some (result, a.now + time) := by
  induction moves generalizing a with
  | nil => exact ⟨_, 0, .lost [] [] rfl (by simp), move_first hs hc .drop⟩
  | cons m moves ih =>
    cases m with
    | wait ms =>
      obtain ⟨result, time, ends, settled⟩ := ih (a.move (.wait ms)) hs hc
      refine ⟨result, ms + time, ends.wait ms, ?_⟩
      rw [← Nat.add_assoc]
      exact settled
    | use u =>
      exact ⟨u.outcome, 0, .use u moves, foldl_settled (move_first hs hc u) _⟩

theorem adapt_ends (moves : List (HostMove α)) : ∃ result time, Ends moves result time ∧
    (run moves).settled = some (result, time) ∧ adapt moves = (result, time) := by
  obtain ⟨result, time, ends, settled⟩ := exists_ends moves start rfl rfl
  have settled : (run moves).settled = some (result, time) := by
    rw [run, settled]
    exact congrArg (fun t => some (result, t)) (Nat.zero_add time)
  exact ⟨result, time, ends, settled, by rw [adapt, settled]; rfl⟩

namespace Course

variable {c c' : Course α}

/-- How a course stands to what its moves settle on. -/
inductive Stage (c : Course α) (a : Adaptation α) : Prop
  | unused (settled : a.settled = none) (callback : c.callback = .waiting)
      (channel : c.channel.seen? = none) (sent : c.sent = []) (resolved : c.resolved = [])
  | seen (result : HostResult α) (settled : a.settled = some (result, c.now))
      (callback : c.callback ≠ .waiting) (channel : c.channel.seen? = some result)
      (sent : c.sent = [] ∨ c.sent = [(result, c.now)]) (resolved : c.resolved = [])
  | done (result : HostResult α) (time : Nat) (settled : a.settled = some (result, time))
      (callback : c.callback ≠ .waiting) (sent : c.sent = [] ∨ c.sent = [(result, time)])
      (resolved : c.resolved = [(result, time)])

/-- A course is in step with its function. -/
structure Valid (moves : List (HostMove α)) (c : Course α) : Prop where
  split : c.made ++ c.rest = moves ++ [.use .drop]
  now : (after c.made).now = c.now
  callback : (after c.made).callback = c.callback
  stage : c.Stage (after c.made)

theorem start_valid (moves : List (HostMove α)) : Valid moves (start moves) :=
  ⟨rfl, rfl, rfl, .unused rfl rfl rfl rfl rfl⟩

theorem Valid.split_next {rest : List (HostMove α)} (h : Valid moves c) (hr : c.rest = m :: rest) :
    c.made ++ [m] ++ rest = moves ++ [.use .drop] := by
  rw [List.append_assoc, List.singleton_append, ← hr]
  exact h.split

theorem use_valid (h : Valid moves c) (hc : c.use? = some c') : Valid moves c' := by
  unfold use? at hc
  split at hc
  · next u rest hr =>
    cases hc
    refine ⟨h.split_next hr, ?_, ?_, ?_⟩
    · rw [after_append, move_use_now]
      exact h.now
    · rw [after_append, move_use_callback, h.callback]
    · rw [after_append]
      cases h.stage with
      | unused settled callback channel sent resolved =>
        have first := move_first settled (h.callback.trans callback) u
        rw [h.now] at first
        refine .seen u.outcome first ?_ ?_ ?_ resolved
        · rw [callback]
          cases u <;> exact nofun
        · rw [callback]
          cases u <;> rfl
        · rw [callback, sent]
          cases u with
          | call | complete => exact .inr rfl
          | drop => exact .inl rfl
      | seen result settled callback channel sent resolved =>
        obtain ⟨silent, used⟩ := Callback.use_used (u := u) callback
        refine .seen result (move_settled settled) used ?_ ?_ resolved
        · rw [Channel.after_used callback]
          exact channel
        · rw [silent]
          simpa using sent
      | done result time settled callback sent resolved =>
        obtain ⟨silent, used⟩ := Callback.use_used (u := u) callback
        refine .done result time (move_settled settled) used ?_ resolved
        rw [silent]
        simpa using sent
  · cases hc

theorem pass_valid (h : Valid moves c) (hc : c.pass? = some c') : Valid moves c' := by
  unfold pass? at hc
  split at hc
  · next ms rest hr =>
    split at hc
    · next allowed =>
      cases hc
      refine ⟨h.split_next hr, ?_, ?_, ?_⟩
      · rw [after_append, move, h.now]
      · rw [after_append, move, h.callback]
      · rw [after_append]
        cases h.stage with
        | unused settled callback channel sent resolved =>
          exact .unused settled callback channel sent resolved
        | seen result settled callback channel sent resolved =>
          -- There is something to see, so only a wait of no time can pass.
          have still : ms = 0 := by simpa [isQuiet, resolved, channel] using allowed
          subst still
          exact .seen result settled callback channel sent resolved
        | done result time settled callback sent resolved =>
          exact .done result time settled callback sent resolved
    · cases hc
  · cases hc

theorem look_valid (h : Valid moves c) (hc : c.look? = some c') : Valid moves c' := by
  unfold look? at hc
  split at hc
  · next waiting =>
    cases h.stage with
    | unused settled callback channel sent resolved =>
      rw [channel] at hc
      cases hc
      exact ⟨h.split, h.now, h.callback, .unused settled callback channel sent resolved⟩
    | seen result settled callback channel sent resolved =>
      rw [channel] at hc
      cases hc
      exact ⟨h.split, h.now, h.callback, .done result c.now settled callback sent
        (by rw [resolved]; rfl)⟩
    | done result time settled callback sent resolved => simp [resolved] at waiting
  · cases hc

theorem step_valid {a : Step} (h : Valid moves c) (hc : c.step? a = some c') : Valid moves c' := by
  cases a with
  | use => exact use_valid h hc
  | pass => exact pass_valid h hc
  | look => exact look_valid h hc

theorem runsBy : RunsBy (S := Course α) step? run :=
  ⟨fun _ => rfl, fun _ _ _ => rfl⟩

theorem run_valid {steps : List Step} (h : Valid moves c) (hc : c.run steps = some c') :
    Valid moves c' :=
  runsBy.keeps (fun _ _ _ _ => step_valid) hc h

theorem Valid.settled {final : HostResult α × Nat} (h : Valid moves c)
    (ends : (Adaptation.run moves).settled = some final) {x : HostResult α × Nat}
    (hx : (after c.made).settled = some x) : x = final := by
  have whole : Adaptation.run moves = c.rest.foldl move (after c.made) := by
    rw [Adaptation.run, ← h.split, List.foldl_append]
    rfl
  rw [whole, foldl_settled hx] at ends
  exact Option.some.inj ends

/-! ## A course can always come to its end -/

theorem exists_quiet (c : Course α) : ∃ steps d, c.run steps = some d ∧ d.isQuiet = true ∧
    d.rest = c.rest := by
  cases resolved : c.resolved with
  | cons x xs => exact ⟨[], c, rfl, by simp [isQuiet, resolved], rfl⟩
  | nil =>
    cases channel : c.channel.seen? with
    | none =>
      refine ⟨[.look], { c with isAwaited := true }, ?_, ?_, rfl⟩
      · simp [run, step?, look?, resolved, channel]
      · simp [isQuiet, channel]
    | some result =>
      refine ⟨[.look], { c with
        isAwaited := true
        channel := .closed
        resolved := [(result, c.now)] }, ?_, ?_, rfl⟩
      · simp [run, step?, look?, resolved, channel]
      · simp [isQuiet]

theorem exists_next {m : HostMove α} {rest : List (HostMove α)} (hr : c.rest = m :: rest)
    (quiet : c.isQuiet = true) : ∃ a d, c.step? a = some d ∧ d.rest = rest := by
  cases m with
  | wait ms =>
    refine ⟨.pass, { c with now := c.now + ms, made := c.made ++ [.wait ms], rest }, ?_, rfl⟩
    simp [step?, pass?, hr, quiet]
  | use u =>
    refine ⟨.use, { c with
      made := c.made ++ [.use u]
      rest
      callback := (c.callback.use u).1
      channel := c.channel.after c.callback u
      sent := c.sent ++ (c.callback.use u).2.toList.map (·, c.now) }, ?_, rfl⟩
    simp only [step?, use?, hr]

theorem exists_over (c : Course α) : ∃ steps d, c.run steps = some d ∧ d.isOver = true := by
  obtain ⟨rest, hr⟩ : ∃ rest, c.rest = rest := ⟨_, rfl⟩
  induction rest generalizing c with
  | nil =>
    obtain ⟨steps, d, hd, quiet, same⟩ := c.exists_quiet
    exact ⟨steps, d, hd, by simp [isOver, quiet, same, hr]⟩
  | cons m rest ih =>
    obtain ⟨steps, d, hd, quiet, same⟩ := c.exists_quiet
    obtain ⟨a, e, he, left⟩ := exists_next (same.trans hr) quiet
    obtain ⟨more, f, hf, ended⟩ := ih e left
    refine ⟨steps ++ a :: more, f, ?_, ended⟩
    rw [runsBy.append, hd, Option.bind_some, run, he, Option.bind_some, hf]

end Course

/-! ## What the moves tell -/

theorem duration_append (made : List (HostMove α)) (m : HostMove α) :
    duration (made ++ [m]) = duration made + duration [m] := by
  induction made with
  | nil => simp [duration]
  | cons first made ih => cases first <;> simp [duration, ih, Nat.add_assoc]

theorem after_now (made : List (HostMove α)) : (after made).now = duration made := by
  induction made using List.reverseRecOn with
  | nil => rfl
  | append_singleton made m ih =>
    rw [after_append, duration_append, ← ih]
    cases m with
    | wait ms => rfl
    | use u => exact move_use_now u

theorem isSpent?_use (callback : Callback) (u : CallbackUse α) : (callback.use u).1.isSpent? =
    if (HostMove.use u).consumes then none else callback.isSpent?.map fun _ => true := by
  cases callback <;> cases u <;> rfl

theorem after_isSpent? (made : List (HostMove α)) : (after made).callback.isSpent? =
    if made.any (·.consumes) then none else some (made.any (·.delivers)) := by
  induction made using List.reverseRecOn with
  | nil => rfl
  | append_singleton made m ih =>
    rw [after_append, List.any_append, List.any_append]
    cases m with
    | wait ms => simpa [move, HostMove.consumes, HostMove.delivers] using ih
    | use u =>
      rw [move_use_callback, isSpent?_use, ih]
      cases u <;> cases made.any (·.consumes) <;> simp [HostMove.consumes, HostMove.delivers]

/-- For every function and every course of its moves and of the wait for its result: the wait ends
once, with the first result that is delivered before the callback is dropped and at that moment, or
else with the loss of the callback when it is dropped. Nothing else is ever sent, and a callback
that is still there is spent from the first delivery on. No course can get stuck before its end. -/
theorem first_result_wins (moves : List (HostMove α)) : ∃ result time, Ends moves result time ∧
    adapt moves = (result, time) ∧
    ∀ steps c, (Course.start moves).run steps = some c →
      c.made ++ c.rest = moves ++ [.use .drop] ∧ c.now = duration c.made ∧
      (c.resolved = [] ∨ c.resolved = [(result, time)]) ∧
      (c.isOver = true → c.resolved = [(result, time)]) ∧
      (c.sent = [] ∨ c.sent = [(result, time)]) ∧
      c.callback.isSpent? =
        (if c.made.any (·.consumes) then none else some (c.made.any (·.delivers))) ∧
      ∃ more d, c.run more = some d ∧ d.isOver = true := by
  obtain ⟨result, time, ends, settled, adapted⟩ := adapt_ends moves
  refine ⟨result, time, ends, adapted, fun steps c hc => ?_⟩
  have valid : Course.Valid moves c := Course.run_valid (Course.start_valid moves) hc
  have now : c.now = duration c.made := by rw [← valid.now, after_now]
  have spent : c.callback.isSpent? =
      if c.made.any (·.consumes) then none else some (c.made.any (·.delivers)) := by
    rw [← valid.callback, after_isSpent?]
  suffices h : (c.resolved = [] ∨ c.resolved = [(result, time)]) ∧
      (c.isOver = true → c.resolved = [(result, time)]) ∧
      (c.sent = [] ∨ c.sent = [(result, time)]) from
    ⟨valid.split, now, h.1, h.2.1, h.2.2, spent, c.exists_over⟩
  cases valid.stage with
  | unused unsettled callback channel sent resolved =>
    refine ⟨.inl resolved, fun ended => ?_, .inl sent⟩
    have rest : c.rest = [] := by
      simp only [Course.isOver, Bool.and_eq_true, List.isEmpty_iff] at ended
      exact ended.1
    have made : c.made = moves ++ [.use .drop] := by
      rw [← valid.split, rest, List.append_nil]
    rw [made] at unsettled
    have none : (run moves).settled = none := unsettled
    rw [settled] at none
    cases none
  | seen outcome there callback channel sent resolved =>
    cases valid.settled settled there
    refine ⟨.inl resolved, fun ended => ?_, sent⟩
    simp [Course.isOver, Course.isQuiet, resolved, channel] at ended
  | done outcome moment there callback sent resolved =>
    cases valid.settled settled there
    exact ⟨.inr resolved, fun _ => resolved, sent⟩

/-- A function waits, delivers two results and waits again. Only the first result is sent, at the
time of its delivery, and the wait that began before it ends with it. -/
theorem second_result_ignored : ∃ c : Course Nat,
    (Course.start [.wait 2, .use (.call (.ok 1)), .use (.complete (.ok 2)), .wait 3]).run
      [.look, .pass, .use, .use, .look, .pass, .use] = some c ∧ c.now = 5 ∧ c.isOver = true ∧
      c.resolved = [(.ok 1, 2)] ∧ (c.sent = [] ∨ c.sent = [(.ok 1, 2)]) := by
  obtain ⟨result, time, -, adapted, law⟩ := first_result_wins
    ([.wait 2, .use (.call (.ok 1)), .use (.complete (.ok 2)), .wait 3] : List (HostMove Nat))
  have first : (result, time) = (.ok 1, 2) := adapted.symm.trans rfl
  cases first
  obtain ⟨-, -, -, ended, sent, -⟩ :=
    law [.look, .pass, .use, .use, .look, .pass, .use] _ rfl
  exact ⟨_, rfl, rfl, rfl, ended rfl, sent⟩

end Adaptation

end ScriptHost
