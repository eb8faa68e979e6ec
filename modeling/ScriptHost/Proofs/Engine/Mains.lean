import ScriptHost.Proofs.Association
import ScriptHost.Proofs.Engine.Scripts

/-!
# The mains of an engine

An evaluation that succeeds keeps the `main` that its module exports. One whose
module exports none leaves what was kept before, so that the `main` of an
evaluation is that of an earlier one of the same module if it has none itself.
-/

set_option autoImplicit false

namespace ScriptHost.Engine

/-- An evaluation that succeeded, with the function that its module exports as `main`. -/
structure Evaluation where
  id : ModuleId
  main? : Option Callable

def State.setOut (s : State) (module : ModuleId) (isMain : Bool) : State :=
  { s with failure := none, trail := s.trail ++ [.begun module isMain] }

/-- An engine after its evaluations, of which those that succeeded are told, the newest first.
Between them mains are called, hosts are renewed and records change, as when a module is
invalidated. -/
inductive Evaluated : State → List Evaluation → Prop
  | start (config : Config) (sources : Sources) (view : HostView) :
      Evaluated (start config sources view) []
  | succeeded {s t : State} {past : List Evaluation} (h : Evaluated s past) (id : ModuleId)
      (source : String) (limit : Nat) (main? : Option Callable)
      (he : (evaluateEntry id source limit).run (s.setOut id false) = .ok (some (.ok main?)) t) :
      Evaluated (left ((evaluateSource id source limit).run s)) (⟨id, main?⟩ :: past)
  | failed {s : State} {past : List Evaluation} (h : Evaluated s past) (id : ModuleId)
      (source : String) (limit : Nat)
      (he : ∀ main? t, (evaluateEntry id source limit).run (s.setOut id false) ≠
        .ok (some (.ok main?)) t) :
      Evaluated (left ((evaluateSource id source limit).run s)) past
  | called {s : State} {past : List Evaluation} (h : Evaluated s past) (id : ModuleId)
      (f : Callable) (argument : EntryArgument) (limit : Nat) :
      Evaluated (left ((callMain id f argument limit).run s)) past
  | renewed {s : State} {past : List Evaluation} (h : Evaluated s past) (view : HostView) :
      Evaluated (fresh s view) past
  | recordsChanged {s : State} {past : List Evaluation} (h : Evaluated s past)
      (registry : Registry ModuleId Unit) : Evaluated { s with registry } past

/-- The `main` of the newest evaluation of a module that exported one. -/
def lastMain (past : List Evaluation) (id : ModuleId) : Option Callable :=
  past.findSome? fun e => if e.id = id then e.main? else none

section Lasts

variable {past : List Evaluation} {id : ModuleId}

theorem lastMain_cons (e : Evaluation) (past : List Evaluation) (id : ModuleId) :
    lastMain (e :: past) id =
      if e.id = id then e.main?.or (lastMain past id) else lastMain past id := by
  rw [lastMain, List.findSome?_cons]
  by_cases he : e.id = id
  · rw [if_pos he, if_pos he]
    cases e.main? <;> rfl
  · rw [if_neg he, if_neg he]
    rfl

theorem lastMain_of_latest {later earlier : List Evaluation} {e : Evaluation}
    (latest : ∀ other ∈ later, other.id ≠ e.id) :
    lastMain (later ++ e :: earlier) e.id = e.main?.or (lastMain earlier e.id) := by
  induction later with
  | nil => rw [List.nil_append, lastMain_cons, if_pos rfl]
  | cons other later ih =>
    rw [List.cons_append, lastMain_cons, if_neg (latest other List.mem_cons_self)]
    exact ih fun o ho => latest o (List.mem_cons_of_mem _ ho)

theorem lastMain_eq_none :
    lastMain past id = none ↔ ∀ e ∈ past, e.id = id → e.main? = none := by
  simp [lastMain, List.findSome?_eq_none_iff]

end Lasts

section Keeping

variable {α : Type} {s s' t : State} {id : ModuleId} {source : String} {limit : Nat}

def KeepsMains (s s' : State) : Prop := s'.mains = s.mains

theorem step_mains (h : Step s s') : KeepsMains s s' := by
  cases h with
  | code h => cases h <;> rfl
  | _ => rfl

theorem turns_mains {code : Run α} (hw : Turns code) : WalksBy KeepsMains code :=
  fun s => Relation.ReflTransGen.mono (fun _ _ => step_mains) _ _ (hw s)

theorem left_mains {code : Run α} (hw : WalksBy KeepsMains code) (s : State) :
    (left (code.run s)).mains = s.mains :=
  walks_keep (P := fun t => t.mains = s.mains) (fun hs h => Eq.trans hs h) hw rfl

theorem describe_mains {value : Value} : WalksBy KeepsMains (describe value) :=
  fun _ => .single rfl

theorem callMain_mains {f : Callable} {argument : EntryArgument} :
    WalksBy KeepsMains (callMain id f argument limit) := by
  refine walks_bind (fun _ => .single rfl) fun _ => walks_bind (turns_mains turns_awaitMain) ?_
  intro outcome
  split
  · exact walks_pure _
  · exact turns_mains turns_finish
  · exact walks_bind describe_mains fun _ => walks_pure _

def afterEvaluation (id : ModuleId) :
    Option (Except Value (Option Callable)) → Run (Option (LoadResult ModuleId))
  | none => return none
  | some (.ok main?) => do
    main?.forM (keepMain id)
    return some (.ok id)
  | some (.error value) => return some (.error ((← describe value).toLoad .evaluation))

theorem evaluateSource_run (s : State) : (evaluateSource id source limit).run s =
    (evaluateEntry id source limit >>= afterEvaluation id).run (s.setOut id false) := by
  unfold afterEvaluation
  rfl

theorem evaluateEntry_mains (s : State) :
    (left ((evaluateEntry id source limit).run (s.setOut id false))).mains = s.mains :=
  left_mains (turns_mains turns_evaluateEntry) (s.setOut id false)

theorem evaluateSource_succeeded {main? : Option Callable}
    (h : (evaluateEntry id source limit).run (s.setOut id false) = .ok (some (.ok main?)) t) :
    (left ((evaluateSource id source limit).run s)).mains =
      main?.elim s.mains fun f => (id, f) :: s.mains.filter (·.1 ≠ id) := by
  have ht : (left ((evaluateEntry id source limit).run (s.setOut id false))).mains = s.mains :=
    evaluateEntry_mains s
  rw [evaluateSource_run, bind_run]
  rw [h] at ht ⊢
  have ht : t.mains = s.mains := ht
  rw [← ht]
  cases main? <;> rfl

theorem evaluateSource_failed (h : ∀ main? t,
    (evaluateEntry id source limit).run (s.setOut id false) ≠ .ok (some (.ok main?)) t) :
    (left ((evaluateSource id source limit).run s)).mains = s.mains := by
  have ht : (left ((evaluateEntry id source limit).run (s.setOut id false))).mains = s.mains :=
    evaluateEntry_mains s
  rw [evaluateSource_run, bind_run]
  cases hr : (evaluateEntry id source limit).run (s.setOut id false) with
  | error value t =>
    rw [hr] at ht
    exact ht
  | ok outcome t =>
    rw [hr] at ht
    match outcome with
    | none => exact ht
    | some (.ok main?) => exact absurd hr (h main? t)
    | some (.error value) => exact ht

/-- The `main` that is kept for a module is that of the newest evaluation of it that exported
one. -/
theorem Evaluated.mains {past : List Evaluation} (h : Evaluated s past) (id : ModuleId) :
    s.mains.lookup id = lastMain past id := by
  induction h with
  | start config sources view => rfl
  | succeeded h other source limit main? he ih =>
    rename_i s t past
    rw [evaluateSource_succeeded he, lastMain_cons, ← ih]
    cases main? with
    | none => simp
    | some f =>
      change ((other, f) :: s.mains.filter (·.1 ≠ other)).lookup id = _
      rw [Association.lookup_cons, Association.lookup_removed]
      by_cases ho : id = other
      · simp [ho]
      · simp [ho, Ne.symm ho]
  | failed h other source limit he ih => rw [evaluateSource_failed he, ih]
  | called h other f argument limit ih => rw [left_mains callMain_mains, ih]
  | renewed h view ih => exact ih
  | recordsChanged h registry ih => exact ih

end Keeping

/-! A module that exports a `main` is evaluated, and then once more without any text. -/

namespace Replaced

open Rethrown (state)
open Script (app)

def source : String := (Json.object [("main", .string "sync")]).write

/-- Whether an evaluation that succeeded exports a `main`. -/
def exports? : EStateM.Result Value State (Option (Except Value (Option Callable))) → Option Bool
  | .ok (some (.ok main?)) _ => some main?.isSome
  | _ => none

theorem exists_of_exports {r : EStateM.Result Value State (Option (Except Value (Option Callable)))}
    {b : Bool} (h : exports? r = some b) :
    ∃ main? t, r = .ok (some (.ok main?)) t ∧ main?.isSome = b := by
  unfold exports? at h
  split at h
  · exact ⟨_, _, rfl, Option.some.inj h⟩
  · cases h

set_option maxRecDepth 100000 in
theorem first_exports :
    exports? ((evaluateEntry app source 0).run (state.setOut app false)) = some true := by
  decide +kernel

set_option maxRecDepth 100000 in
theorem second_exports :
    exports? ((evaluateEntry app "" 0).run
      ((left ((evaluateSource app source 0).run state)).setOut app false)) = some false := by
  decide +kernel

def latest : Evaluation := ⟨app, none⟩

theorem evaluated : ∃ s f, Evaluated s [latest, ⟨app, some f⟩] := by
  have hs : Evaluated state [] := .start _ _ _
  obtain ⟨first?, t, ht, hf⟩ := exists_of_exports first_exports
  obtain ⟨second?, t', ht', hn⟩ := exists_of_exports second_exports
  obtain ⟨f, rfl⟩ := Option.isSome_iff_exists.mp hf
  obtain rfl := Option.isSome_eq_false_iff.mp hn |> Option.isNone_iff_eq_none.mp
  exact ⟨_, f, .succeeded (.succeeded hs app source 0 _ ht) app "" 0 _ ht'⟩

end Replaced

/-- The `main` of the latest evaluation of a module is its own if it exports one, and otherwise
that of the newest evaluation of the same module before it that did. So it is its own exactly if
it exports one or none of those did. -/
theorem main_of_latest {s : State} {later earlier : List Evaluation} {e : Evaluation}
    (h : Evaluated s (later ++ e :: earlier)) (latest : ∀ other ∈ later, other.id ≠ e.id) :
    s.mains.lookup e.id = e.main?.or (lastMain earlier e.id) ∧
      (s.mains.lookup e.id = e.main? ↔
        e.main?.isSome ∨ ∀ other ∈ earlier, other.id = e.id → other.main? = none) := by
  have hm : s.mains.lookup e.id = e.main?.or (lastMain earlier e.id) := by
    rw [h.mains, lastMain_of_latest latest]
  refine ⟨hm, ?_⟩
  rw [hm, ← lastMain_eq_none]
  cases e.main? with
  | none => simp
  | some f => simp

section Replaced

open Replaced
open Script (app)

theorem replaced_main : ∃ s f, Evaluated s ([] ++ latest :: [⟨app, some f⟩]) ∧
    s.mains.lookup latest.id = latest.main?.or (lastMain [⟨app, some f⟩] latest.id) ∧
      (s.mains.lookup latest.id = latest.main? ↔ latest.main?.isSome ∨
        ∀ other ∈ [Evaluation.mk app (some f)], other.id = latest.id → other.main? = none) := by
  obtain ⟨s, f, h⟩ := evaluated
  have hl : ∀ other ∈ ([] : List Evaluation), other.id ≠ latest.id := by simp
  exact ⟨s, f, h, main_of_latest h hl⟩

/-- An evaluation that exports no `main` gets the one of an earlier evaluation. -/
theorem replaced_main_kept : ¬ ∀ (s : State) (later earlier : List Evaluation) (e : Evaluation),
    Evaluated s (later ++ e :: earlier) → (∀ other ∈ later, other.id ≠ e.id) →
    s.mains.lookup e.id = e.main? := by
  intro h
  obtain ⟨s, f, hs⟩ := evaluated
  have hk : s.mains.lookup latest.id = latest.main? := h s [] [⟨app, some f⟩] latest hs (by simp)
  rw [hs.mains] at hk
  simp [lastMain, latest] at hk

end Replaced

end ScriptHost.Engine
