import ScriptHost.Proofs.Association
import ScriptHost.Proofs.Engine.HostObject

/-!
# Code apart from the host

Where no `main` was given the functions of a host, no value leads to one and no
code can name one. Such code does the same beside any host, and leaves the host
as it was. What it throws may be rescued and what it keeps may be read later, so
values are followed through cells, failed evaluations and jobs.
-/

set_option autoImplicit false

namespace ScriptHost.Engine

variable {α β : Type}

def Granted.isFunction : Granted → Bool
  | .function .. => true
  | _ => false

/-- An argument without functions of a host. -/
def MainArgument.Tame : MainArgument → Prop
  | .nothing => True
  | .object _ own => ∀ property ∈ own, property.2.isFunction = false

/-- Code that stands here was not given the functions of a host. -/
def Context.Tame (context : Context) : Prop :=
  ∀ argument, context.argument = some argument → argument.Tame

def Callable.Tame : Callable → Prop
  | .arrow _ _ _ context | .closure _ _ _ context => context.Tame
  | .main _ | .settle .. | .inherited _ => True
  | .host _ => False

def Value.isPlain : Value → Bool
  | .array .. | .object .. | .function .. => false
  | _ => true

/-- A value that leads to no function of a host. -/
inductive Value.Tame : Value → Prop
  | plain {value : Value} (h : value.isPlain = true) : Value.Tame value
  | array (ref : Nat) {items : List Value} (h : ∀ item ∈ items, Value.Tame item) :
      Value.Tame (.array ref items)
  | object (ref : Nat) {own : List (String × Value)} (h : ∀ property ∈ own, Value.Tame property.2) :
      Value.Tame (.object ref own)
  | function (ref : Nat) {f : Callable} (h : f.Tame) : Value.Tame (.function ref f)

def Brings (Q : α → Prop) : Except Value α → Prop
  | .ok a => Q a
  | .error value => value.Tame

def Stage.Tame : Stage → Prop
  | .failed value => value.Tame
  | _ => True

def Job.Tame : Job → Prop
  | .resume _ result => Brings Value.Tame result
  | .load .. => True

/-- Nothing that an engine keeps leads to a function of a host, and no callback was handed to
one. -/
structure State.Tame (s : State) : Prop where
  cells : ∀ value, some value ∈ s.cells → value.Tame
  stages : ∀ i ∈ s.instances, i.stage.Tame
  threads : ∀ entry ∈ s.threads, entry.2.context.Tame
  jobs : ∀ job ∈ s.jobs, job.Tame
  mains : ∀ entry ∈ s.mains, entry.2.Tame
  setters : ∀ entry ∈ s.setters, entry.2.Tame
  callbacks : s.callbacks = []
  timerCallbacks : s.timerCallbacks = []
  woken : s.woken = []
  mode : s.config.entryMode ≠ .raw

def State.beside (s : State) (host : NativeHost Nat) (history : List CallbackEvent) : State :=
  { s with host, history }

def resultBeside (host : NativeHost Nat) (history : List CallbackEvent) :
    EStateM.Result Value State α → EStateM.Result Value State α
  | .ok a s => .ok a (s.beside host history)
  | .error value s => .error value (s.beside host history)

/-- The state is tame again, and so is what was thrown; what was given has a property. -/
def Yields (Q : α → Prop) : EStateM.Result Value State α → Prop
  | .ok a s => Q a ∧ s.Tame
  | .error value s => value.Tame ∧ s.Tame

/-- From this state code comes to one result beside every host, which stays as it was. -/
def SecludedFrom (s : State) (Q : α → Prop) (code : Run α) : Prop :=
  ∃ r, Yields Q r ∧ ∀ host history, code.run (s.beside host history) = resultBeside host history r

/-- Code that neither sees the host nor changes it, and gives what has a property. -/
def Secluded (Q : α → Prop) (code : Run α) : Prop := ∀ s, s.Tame → SecludedFrom s Q code

abbrev Any (_ : α) : Prop := True

section Values

variable {value : Value} {ref : Nat}

theorem Value.Tame.items {items : List Value} (h : Value.Tame (.array ref items)) :
    ∀ item ∈ items, item.Tame := by
  cases h with
  | plain h => cases h
  | array _ h => exact h

theorem Value.Tame.own {own : List (String × Value)} (h : Value.Tame (.object ref own)) :
    ∀ property ∈ own, property.2.Tame := by
  cases h with
  | plain h => cases h
  | object _ h => exact h

theorem Value.Tame.callable {f : Callable} (h : Value.Tame (.function ref f)) : f.Tame := by
  cases h with
  | plain h => cases h
  | function _ h => exact h

theorem tame_item {items : List Value} (h : ∀ item ∈ items, item.Tame) (i : Nat) :
    (items[i]?.getD .undefined).Tame := by
  cases hi : items[i]? with
  | none => exact .plain rfl
  | some item => exact h item (List.mem_of_getElem? hi)

theorem tame_inherited (name : String) : (Value.inherited name).Tame := by
  unfold Value.inherited
  split
  · exact .object _ nofun
  · split
    · exact .function _ trivial
    · exact .plain rfl

/-- A property is one of the object's own, or it is inherited. -/
theorem tame_property {own : List (String × Value)} (h : ∀ property ∈ own, property.2.Tame)
    (name : String) : ((own.lookup name).getD (.inherited name)).Tame := by
  cases hl : own.lookup name with
  | none => exact tame_inherited name
  | some value => exact h (name, value) (Association.mem_of_lookup hl)

theorem tame_granted {granted : Granted} (h : granted.isFunction = false) : granted.value.Tame := by
  cases granted with
  | text s => exact .plain rfl
  | texts ref items =>
    refine .array ref fun item hi => ?_
    obtain ⟨place, hp, rfl⟩ := List.mem_map.mp hi
    obtain ⟨text?, -, rfl⟩ := List.mem_map.mp hp
    cases text? <;> exact .plain rfl
  | function ref name => cases h

theorem tame_mainValue {argument : MainArgument} (h : argument.Tame) :
    ∀ value ∈ argument.value?, value.Tame := by
  cases argument with
  | nothing => exact nofun
  | object ref own =>
    intro value hv
    cases hv
    refine .object ref fun property hp => ?_
    obtain ⟨granted, hg, rfl⟩ := List.mem_map.mp hp
    exact tame_granted (h granted hg)

theorem tame_thrownBy {context : Context} (h : value.Tame) : (value.thrownBy context).Tame := by
  cases value with
  | error ref e => exact .plain rfl
  | _ => exact h

theorem tame_add {a b : Value} (h : a.add? b = some value) : value.Tame := by
  unfold Value.add? at h
  split at h
  · rw [← Option.some.inj h, Value.ofSum]
    split <;> exact .plain rfl
  · split at h
    · rw [← Option.some.inj h]
      exact .plain rfl
    · split at h
      · rw [← Option.some.inj h]
        exact .plain rfl
      · cases h

end Values

section Combining

variable {s : State} {P Q : α → Prop} {R : β → Prop}

theorem State.Tame.beside (h : s.Tame) (host : NativeHost Nat) (history : List CallbackEvent) :
    (s.beside host history).Tame :=
  { h with }

theorem secluded_from_pure (hs : s.Tame) {a : α} (h : Q a) : SecludedFrom s Q (pure a) :=
  ⟨.ok a s, ⟨h, hs⟩, fun _ _ => rfl⟩

theorem secluded_pure {a : α} (h : Q a) : Secluded Q (pure a) := fun _ hs => secluded_from_pure hs h

theorem secluded_throw {value : Value} (h : value.Tame) : Secluded Q (throw value : Run α) :=
  fun s hs => ⟨.error value s, ⟨h, hs⟩, fun _ _ => rfl⟩

theorem secluded_from_bind {code : Run α} {next : α → Run β} (h : SecludedFrom s P code)
    (hn : ∀ a, P a → Secluded R (next a)) : SecludedFrom s R (code >>= next) := by
  obtain ⟨r, hr, hc⟩ := h
  cases r with
  | ok a t =>
    obtain ⟨r, ho, hd⟩ := hn a hr.1 t hr.2
    exact ⟨r, ho, fun host history => by rw [bind_run, hc]; exact hd host history⟩
  | error value t => exact ⟨.error value t, hr, fun host history => by rw [bind_run, hc]; rfl⟩

theorem secluded_bind {code : Run α} {next : α → Run β} (h : Secluded P code)
    (hn : ∀ a, P a → Secluded R (next a)) : Secluded R (code >>= next) :=
  fun s hs => secluded_from_bind (h s hs) hn

theorem secluded_get {next : State → Run β}
    (hi : ∀ s host history, next (s.beside host history) = next s)
    (h : ∀ s, s.Tame → SecludedFrom s R (next s)) : Secluded R (get >>= next) := by
  intro s hs
  obtain ⟨r, hr, hc⟩ := h s hs
  refine ⟨r, hr, fun host history => ?_⟩
  change (next (s.beside host history)).run (s.beside host history) = _
  rw [hi]
  exact hc host history

theorem secluded_modify {f : State → State}
    (hi : ∀ s host history, f (s.beside host history) = (f s).beside host history)
    (h : ∀ s, s.Tame → (f s).Tame) : Secluded Any (modify f) :=
  fun s hs => ⟨.ok () (f s), ⟨trivial, h s hs⟩, fun host history =>
    congrArg (EStateM.Result.ok ()) (hi s host history)⟩

theorem Secluded.mono {code : Run α} (h : Secluded P code) (hq : ∀ a, P a → Q a) :
    Secluded Q code := by
  intro s hs
  obtain ⟨r, hr, hc⟩ := h s hs
  refine ⟨r, ?_, hc⟩
  cases r with
  | ok a t => exact ⟨hq a hr.1, hr.2⟩
  | error value t => exact hr

theorem secluded_ite {c : Prop} [Decidable c] {yes no : Run α} (h : Secluded Q yes)
    (hn : Secluded Q no) : Secluded Q (if c then yes else no) := by
  split
  · exact h
  · exact hn

theorem secluded_attempted {code : Run α} (h : Secluded Q code) :
    Secluded (Brings Q) (attempted code) := by
  intro s hs
  obtain ⟨r, hr, hc⟩ := h s hs
  cases r with
  | ok a t =>
    exact ⟨.ok (.ok a) t, hr, fun host history => by rw [attempted_run, hc]; rfl⟩
  | error value t =>
    exact ⟨.ok (.error value) t, hr, fun host history => by rw [attempted_run, hc]; rfl⟩

theorem secluded_mapM {f : α → Run β} {items : List α} (h : ∀ a ∈ items, Secluded R (f a)) :
    Secluded (fun results => ∀ b ∈ results, R b) (items.mapM f) := by
  induction items with
  | nil => exact secluded_pure (by simp)
  | cons a rest ih =>
    rw [List.mapM_cons]
    refine secluded_bind (h a List.mem_cons_self) fun b hb =>
      secluded_bind (ih fun c hc => h c (List.mem_cons_of_mem a hc)) fun results hr => ?_
    exact secluded_pure (List.forall_mem_cons.mpr ⟨hb, hr⟩)

end Combining

section Errors

variable {context : Context} {class_ message : String} {Q : α → Prop}

theorem secluded_issue : Secluded Any issue :=
  fun s hs => ⟨.ok (s.issued + 1) { s with issued := s.issued + 1 }, ⟨trivial, { hs with }⟩,
    fun _ _ => rfl⟩

theorem secluded_errorValue {trace code : Option String} :
    Secluded Value.Tame (errorValue class_ message trace code) :=
  secluded_bind secluded_issue fun _ _ => secluded_pure (.plain rfl)

theorem secluded_throwNew : Secluded Q (throwNew context class_ message : Run α) :=
  secluded_bind secluded_errorValue fun _ h => secluded_throw h

theorem secluded_throwType : Secluded Q (throwType context message : Run α) := secluded_throwNew

theorem secluded_throwReference : Secluded Q (throwReference context message : Run α) :=
  secluded_throwNew

end Errors

section Cells

variable {cell : Cell}

theorem secluded_newCell {value : Option Value} (h : ∀ v, value = some v → v.Tame) :
    Secluded Any (newCell value) := by
  refine fun s hs => ⟨.ok s.cells.size { s with cells := s.cells.push value },
    ⟨trivial, { hs with cells := fun v hv => ?_ }⟩, fun _ _ => rfl⟩
  obtain hv | hv := Array.mem_push.mp hv
  · exact hs.cells v hv
  · exact h v hv.symm

theorem secluded_writeCell {value : Value} (h : value.Tame) :
    Secluded Any (writeCell cell value) := by
  refine secluded_modify (fun _ _ _ => rfl) fun s hs => { hs with cells := fun v hv => ?_ }
  obtain hv | hv := Array.mem_or_eq_of_mem_setIfInBounds hv
  · exact hs.cells v hv
  · exact Option.some.inj hv ▸ h

theorem secluded_cell? : Secluded (fun held => ∀ v, held = some v → v.Tame) (cell? cell) := by
  refine secluded_get (fun _ _ _ => rfl) fun s hs => secluded_from_pure hs fun v hv => ?_
  exact hs.cells v (Array.mem_of_getElem? (Option.join_eq_some_iff.mp hv))

end Cells

section Bookkeeping

variable {key : Nat}

theorem secluded_instance? :
    Secluded (fun found => ∀ i, found = some i → i.stage.Tame) (instance? key) :=
  secluded_get (fun _ _ _ => rfl) fun _ hs => secluded_from_pure hs fun i hi =>
    hs.stages i (List.mem_of_find?_eq_some hi)

end Bookkeeping

section Arguments

variable {context : Context} {name : String}

theorem secluded_theArgument (hc : context.Tame) :
    Secluded MainArgument.Tame (theArgument context) := by
  unfold theArgument
  split
  · rename_i argument ha
    exact secluded_pure (hc argument ha)
  · exact secluded_throwReference

theorem argumentProperty_tame {ref : Nat} {own : List (String × Granted)}
    (h : (MainArgument.object ref own).Tame) : (argumentProperty own name).Tame := by
  unfold argumentProperty
  cases hl : own.lookup name with
  | none => exact tame_inherited name
  | some granted => exact tame_granted (h (name, granted) (Association.mem_of_lookup hl))

theorem secluded_hostProperty (hc : context.Tame) :
    Secluded Value.Tame (hostProperty context name) := by
  refine secluded_bind (secluded_theArgument hc) fun argument ha => ?_
  split
  · exact secluded_throwType
  · exact secluded_pure (argumentProperty_tame ha)

theorem secluded_hasProperty (hc : context.Tame) : Secluded Any (hasProperty context name) := by
  refine secluded_bind (secluded_theArgument hc) fun argument ha => ?_
  split
  · exact secluded_pure trivial
  · split <;> exact secluded_pure trivial

theorem secluded_valueText {value : Value} : Secluded Any (valueText context value) := by
  unfold valueText
  split
  · exact secluded_pure trivial
  · exact secluded_throwType

theorem secluded_callOnArgument (hc : context.Tame) {args : List Value} :
    Secluded Value.Tame (callOnArgument context name args) := by
  refine secluded_bind (secluded_theArgument hc) fun argument ha => ?_
  split
  · exact secluded_pure (.plain rfl)
  · exact secluded_pure (.plain rfl)
  · refine secluded_pure ?_
    cases hv : argument.value? with
    | none => exact .plain rfl
    | some value => exact tame_mainValue ha value hv
  · exact secluded_pure (.plain rfl)
  · exact secluded_pure (.plain rfl)
  · exact secluded_bind secluded_valueText fun _ _ => secluded_pure (.plain rfl)
  · exact secluded_bind secluded_valueText fun _ _ => secluded_pure (.plain rfl)
  · exact secluded_pure (.plain rfl)
  · exact secluded_pure (.plain rfl)

theorem secluded_callValue (hc : context.Tame) {value : Value} {args : List Value}
    (h : value.Tame) : Secluded Value.Tame (callValue context value args) := by
  unfold callValue
  split
  · exact h.callable.elim
  · exact secluded_callOnArgument hc
  · exact secluded_throwType

end Arguments

end ScriptHost.Engine
