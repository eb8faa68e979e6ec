import ScriptHost.Proofs.Engine.Instance

/-!
# Steps of the host's objects

Setting a property of a new object does no more than the setter for it does. Setters
are only ever added, so a property that is missing in the end has a setter then,
and so has one whose setter threw.
-/

set_option autoImplicit false

namespace ScriptHost.Engine

variable {α : Type} {s s' : State}

section Walks

variable {R : State → State → Prop} [Covers R]

theorem walks_bindAll (values : List (String × Value)) :
    ∀ scope, WalksBy R (bindAll scope values) := by
  induction values with
  | nil => exact fun _ => walks_pure _
  | cons first rest ih => exact fun _ => walks_bind walks_bindName fun _ => ih _

theorem walks_settleWith {promise : Nat} {tellsFailure : Bool} {args : List Value} :
    WalksBy R (settleWith promise tellsFailure args) :=
  walks_ite walks_settlePromise walks_settlePromise

theorem walks_callOnNothing {name : String} {args : List Value} :
    WalksBy R (callOnNothing name args) := by
  unfold callOnNothing
  split
  · exact walks_pure _
  · exact walks_pure _
  · exact walks_throwType
  · exact walks_ite walks_throwType (walks_pure _)
  · exact walks_throwType

theorem walks_callBackWith {f : Callable} {args : List Value} :
    WalksBy R (callBackWith f args) := by
  cases f with
  | arrow body text scope context => exact walks_bind (walks_eval body) fun _ => walks_pure _
  | closure parameters body scope context =>
    exact walks_bind (walks_bindAll _ scope) fun _ => walks_bind walks_enter fun _ =>
      walks_bind (walks_execBlock _ _ _) fun _ => walks_pure _
  | main key => exact walks_pure _
  | settle promise tellsFailure => exact walks_settleWith
  | host name => exact walks_bind walks_callHost fun _ => walks_pure _
  | inherited name => exact walks_callOnNothing

theorem walks_setProperty {name : String} {value : Value} : WalksBy R (setProperty name value) := by
  refine walks_get fun s => ?_
  split
  · exact walks_from_pure _
  · exact walks_bind walks_callBackWith (fun _ => walks_pure _) s

theorem walks_setEach {value : α → Value} (properties : List (String × α)) :
    WalksBy R (setEach value properties) := by
  induction properties with
  | nil => exact walks_pure _
  | cons first rest ih =>
    exact walks_bind walks_setProperty fun _ => walks_bind ih fun _ => walks_pure _

theorem walks_failureArguments {failure : HostFailure} : WalksBy R (failureArguments failure) :=
  walks_bind (walks_setEach _) fun _ => walks_bind walks_errorValue fun _ => walks_pure _

theorem walks_resultArguments {convert : α → Run Value} (h : ∀ a, WalksBy R (convert a))
    (result : HostResult α) : WalksBy R (resultArguments convert result) := by
  cases result with
  | error failure => exact walks_failureArguments
  | ok a => exact walks_bind (h a) fun _ => walks_pure _

theorem walks_argumentsFor (answer? : Option HostAnswer) : WalksBy R (argumentsFor answer?) := by
  cases answer? with
  | none => exact walks_pure _
  | some answer =>
    cases answer with
    | opened result => exact walks_resultArguments (fun _ => walks_pure _) result
    | read result =>
      exact walks_resultArguments (fun names => walks_bind (walks_setEach _) fun _ =>
        walks_bind walks_issue fun _ => walks_pure _) result
    | closed result => exact walks_resultArguments (fun _ => walks_pure _) result
    | exited result =>
      exact walks_resultArguments (fun exit => walks_bind (walks_setEach _) fun _ =>
        walks_bind walks_issue fun _ => walks_pure _) result

theorem walks_hostFunctionValues : WalksBy R hostFunctionValues :=
  walks_mapM (fun _ => walks_bind walks_issue fun _ => walks_pure _) _

theorem walks_grant {argument : EntryArgument} : WalksBy R (grant argument) := by
  unfold grant
  split
  · exact walks_pure _
  · refine walks_bind (walks_setEach _) fun _ => walks_bind (walks_setEach _) fun _ =>
      walks_bind walks_issue fun _ => ?_
    split
    · exact walks_bind walks_hostFunctionValues fun _ => walks_bind (walks_setEach _) fun _ =>
        walks_bind walks_issue fun _ => walks_pure _
    · exact walks_bind (walks_pure _) fun _ => walks_bind (walks_setEach _) fun _ =>
        walks_bind walks_issue fun _ => walks_pure _

end Walks

section Waiting

/-- What waits, to be called or for an answer, still does, and in the same order. -/
structure StillWaiting (s s' : State) : Prop where
  woken : s.woken <+: s'.woken
  callbacks : s.callbacks <:+ s'.callbacks

theorem codeStep_waiting (h : CodeStep s s') : StillWaiting s s' := by
  cases h with
  | accepted host f ht => exact ⟨List.prefix_rfl, List.suffix_cons _ _⟩
  | settled host f answer ht => exact ⟨List.prefix_append _ _, List.suffix_rfl⟩
  | _ => exact ⟨List.prefix_rfl, List.suffix_rfl⟩

/-- Code calls nothing that waits: it may only hand over more. -/
theorem code_waiting {code : Run α} (hw : Walks code) (s : State) :
    StillWaiting s (left (code.run s)) := by
  refine walks_keep (fun h hs => ?_) hw (⟨List.prefix_rfl, List.suffix_rfl⟩ : StillWaiting s s)
  have ht := codeStep_waiting h
  exact ⟨hs.woken.trans ht.woken, hs.callbacks.trans ht.callbacks⟩

end Waiting

section Setters

variable {value : α → Value} {v : Value}

theorem codeStep_takes (h : CodeStep s s') {name : String} (ht : s.Takes name) : s'.Takes name := by
  cases h with
  | setterAdded other setter h =>
    unfold State.Takes at *
    rw [List.lookup_cons]
    split
    · rfl
    · exact ht
  | _ => exact ht

theorem step_takes (h : Step s s') {name : String} (ht : s.Takes name) : s'.Takes name := by
  cases h with
  | code h => exact codeStep_takes h ht
  | _ => exact ht

theorem takes_left {code : Run α} {result : EStateM.Result Value State α} (hw : Walks code)
    (hr : code.run s = result) {name : String} (ht : s.Takes name) : (left result).Takes name := by
  subst hr
  exact walks_keep (P := (State.Takes · name)) (fun h ht => codeStep_takes h ht) hw ht

theorem Sets.mono {takes takes' : String → Prop} {properties : List (String × α)}
    {kept : List (Option (String × α))} (h : Sets takes properties kept)
    (ht : ∀ name, takes name → takes' name) : Sets takes' properties kept :=
  List.Forall₂.imp (fun property _ h => h.imp_right fun ⟨hn, hp⟩ => ⟨hn, ht property.1 hp⟩) h

theorem Shows.mono {takes takes' : String → Prop} {answer : HostAnswer} {args : List Value}
    (h : Shows takes answer args) (ht : ∀ name, takes name → takes' name) :
    Shows takes' answer args := by
  cases h with
  | failed ref code h hc => exact .failed ref code h (hc.imp_right fun ⟨hn, hs⟩ => ⟨hn, ht _ hs⟩)
  | opened handle => exact .opened handle
  | read ref names kept h => exact .read ref names kept (h.mono ht)
  | closed => exact .closed
  | exited ref exit kept h => exact .exited ref exit kept (h.mono ht)

theorem Suits.mono {takes takes' : String → Prop} {answer? : Option HostAnswer} {args : List Value}
    (h : Suits takes answer? args) (ht : ∀ name, takes name → takes' name) :
    Suits takes' answer? args := by
  cases h with
  | fire => exact .fire
  | answer h => exact .answer (h.mono ht)

theorem setProperty_free {name : String} (h : s.setters.lookup name = none) :
    (setProperty name v).run s = .ok true s := by
  rw [setProperty, run_get, h]
  rfl

theorem setProperty_taken {name : String} {setter : Callable}
    (h : s.setters.lookup name = some setter) :
    (setProperty name v).run s = (callBackWith setter [v] >>= fun _ => pure false).run s := by
  rw [setProperty, run_get, h]

theorem setProperty_returns {name : String} {isKept : Bool}
    (h : (setProperty name v).run s = .ok isKept s') : isKept = true ∨ isKept = false ∧ s'.Takes name := by
  cases hl : s.setters.lookup name with
  | none =>
    rw [setProperty_free hl] at h
    cases h
    exact .inl rfl
  | some setter =>
    -- the setter may have added others, but it took none away
    have hs : s'.Takes name := takes_left walks_setProperty h (by simp [State.Takes, hl])
    rw [setProperty_taken hl] at h
    obtain ⟨_, t, -, h⟩ := exists_of_bind h
    cases h
    exact .inr ⟨rfl, hs⟩

theorem setProperty_throws {name : String} {thrown : Value}
    (h : (setProperty name v).run s = .error thrown s') : s'.Takes name := by
  cases hl : s.setters.lookup name with
  | none =>
    rw [setProperty_free hl] at h
    cases h
  | some setter => exact takes_left walks_setProperty h (by simp [State.Takes, hl])

theorem setEach_returns {properties : List (String × α)} {kept : List (Option (String × α))}
    (h : (setEach value properties).run s = .ok kept s') : Sets s'.Takes properties kept := by
  induction properties generalizing s s' kept with
  | nil =>
    cases h
    exact .nil
  | cons first rest ih =>
    obtain ⟨isKept, t, hp, h⟩ := exists_of_bind h
    obtain ⟨others, t', he, h⟩ := exists_of_bind h
    cases h
    refine .cons ?_ (ih he)
    obtain rfl | ⟨rfl, ht⟩ := setProperty_returns hp
    · exact .inl rfl
    · exact .inr ⟨rfl, takes_left (walks_setEach rest) he ht⟩

theorem setEach_throws {properties : List (String × α)} {thrown : Value}
    (h : (setEach value properties).run s = .error thrown s') :
    ∃ name ∈ properties.map (·.1), s'.Takes name := by
  induction properties generalizing s with
  | nil => cases h
  | cons first rest ih =>
    obtain h | ⟨isKept, t, -, h⟩ := error_of_bind h
    · exact ⟨first.1, List.mem_cons_self, setProperty_throws h⟩
    · obtain h | ⟨others, t', -, h⟩ := error_of_bind h
      · obtain ⟨name, hm, ht⟩ := ih h
        exact ⟨name, List.mem_cons_of_mem _ hm, ht⟩
      · cases h

end Setters

section Answers

/-- Where nothing is missing no setter took anything. -/
theorem code_shown {failure : HostFailure} {kept : List (Option (String × Value))}
    {takes : String → Prop} (h : Sets takes (failureProperties failure) kept) :
    (if kept.any Option.isNone then none else failureCode? failure) = failureCode? failure ∨
      (if kept.any Option.isNone then none else failureCode? failure) = none ∧ takes codeName := by
  unfold failureProperties at h
  cases hc : failureCode? failure with
  | none => simp
  | some code =>
    simp only [hc, Option.toList_some, List.map_cons, List.map_nil] at h
    cases h with
    | cons hp hr =>
      cases hr
      obtain rfl | ⟨rfl, ht⟩ := hp
      · simp
      · simp [ht]

theorem failure_shown {failure : HostFailure} {answer : HostAnswer} {args : List Value}
    (ha : failureIn? answer = some failure) (h : (failureArguments failure).run s = .ok args s') :
    Shows s'.Takes answer args := by
  obtain ⟨kept, t, hk, h⟩ := exists_of_bind h
  obtain ⟨error, t', he, h⟩ := exists_of_bind h
  cases h
  cases he
  have hs : Sets t.Takes (failureProperties failure) kept := setEach_returns hk
  exact .failed _ _ ha (code_shown hs)

theorem failure_throws {failure : HostFailure} {thrown : Value}
    (h : (failureArguments failure).run s = .error thrown s') :
    ∃ name ∈ (failureProperties failure).map (·.1), s'.Takes name := by
  obtain h | ⟨kept, t, -, h⟩ := error_of_bind h
  · exact setEach_throws h
  · cases h

theorem names_shown {names : List String} {args : List Value}
    (h : (resultArguments namesValue (.ok names)).run s = .ok args s') :
    Shows s'.Takes (.read (.ok names)) args := by
  obtain ⟨list, t, hn, h⟩ := exists_of_bind h
  obtain ⟨kept, t', hk, hn⟩ := exists_of_bind hn
  cases hn
  cases h
  have hs : Sets t'.Takes (indexed names) kept := setEach_returns hk
  exact .read _ names kept hs

theorem exit_shown {exit : ChildExit} {args : List Value}
    (h : (resultArguments exitValue (.ok exit)).run s = .ok args s') :
    Shows s'.Takes (.exited (.ok exit)) args := by
  obtain ⟨object, t, hn, h⟩ := exists_of_bind h
  obtain ⟨kept, t', hk, hn⟩ := exists_of_bind hn
  cases hn
  cases h
  have hs : Sets t'.Takes (exitProperties exit) kept := setEach_returns hk
  exact .exited _ exit kept hs

theorem argumentsFor_suits {answer? : Option HostAnswer} {args : List Value}
    (h : (argumentsFor answer?).run s = .ok args s') : Suits s'.Takes answer? args := by
  cases answer? with
  | none =>
    cases h
    exact .fire
  | some answer =>
    refine .answer ?_
    match answer, h with
    | .opened (.ok handle), h =>
      cases h
      exact .opened handle
    | .opened (.error failure), h => exact failure_shown rfl h
    | .read (.ok names), h => exact names_shown h
    | .read (.error failure), h => exact failure_shown rfl h
    | .closed (.ok ()), h =>
      cases h
      exact .closed
    | .closed (.error failure), h => exact failure_shown rfl h
    | .exited (.ok exit), h => exact exit_shown h
    | .exited (.error failure), h => exact failure_shown rfl h

/-- The arguments of a call cannot be made only if a name that is set for them has a setter. -/
theorem argumentsFor_throws {answer? : Option HostAnswer} {thrown : Value}
    (h : (argumentsFor answer?).run s = .error thrown s') :
    ∃ answer, answer? = some answer ∧ ∃ name ∈ namesSet answer, s'.Takes name := by
  cases answer? with
  | none => cases h
  | some answer =>
    refine ⟨answer, rfl, ?_⟩
    match answer, h with
    | .opened (.ok handle), h => cases h
    | .opened (.error failure), h => exact failure_throws h
    | .read (.ok names), h =>
      obtain h | ⟨list, t, -, h⟩ := error_of_bind h
      · obtain h | ⟨kept, t, -, h⟩ := error_of_bind h
        · exact setEach_throws h
        · cases h
      · cases h
    | .read (.error failure), h => exact failure_throws h
    | .closed (.ok ()), h => cases h
    | .closed (.error failure), h => exact failure_throws h
    | .exited (.ok exit), h =>
      obtain h | ⟨list, t, -, h⟩ := error_of_bind h
      · obtain h | ⟨kept, t, -, h⟩ := error_of_bind h
        · exact setEach_throws h
        · cases h
      · cases h
    | .exited (.error failure), h => exact failure_throws h

end Answers

end ScriptHost.Engine
