import Mathlib.Data.List.Nodup
import ScriptHost.Proofs.Engine.Runs

/-!
# Modules and their instances

No two instances have one name, what is told of modules fits with the instances
that are there, and no body is executed twice. An instance whose body was
executed is past the stages from which evaluations start. What code inside the
instances does keeps all this, and so does every change of one instance that
leaves its key and its name.
-/

set_option autoImplicit false

namespace ScriptHost.Engine

variable {α β : Type} {s t : State}

def Stage.hasBegun : Stage → Bool
  | .running | .done | .failed _ => true
  | _ => false

def Stage.isFresh : Stage → Bool
  | .fresh => true
  | _ => false

namespace State

def standings (s : State) : List Standing := s.instances.map Instance.standing

def Holds (s : State) (key : Nat) (name : String) : Prop :=
  ∃ i ∈ s.standings, i.key = key ∧ i.name = name

/-- What is told of a module fits with the instances. -/
def Explains (s : State) : ModuleEvent → Prop
  | .entered id key => s.Holds key id.text
  | .loaded base specifier key => ∃ name, resolution base specifier = .ok name ∧ s.Holds key name
  | .executed name key => ∃ i ∈ s.standings, i.key = key ∧ i.name = name ∧ i.stage.hasBegun = true

/-- An import of an instance has a name, which the instance it leads to has if it is there. -/
def Links (s : State) (i : Standing) (link : Import × Nat) : Prop :=
  ∃ name, resolution i.name link.1.specifier = .ok name ∧ link.2 ≤ s.issued ∧
    ∀ j ∈ s.standings, j.key = link.2 → j.name = name

end State

def executedKey? : ModuleEvent → Option Nat
  | .executed _ key => some key
  | _ => none

structure Sound (s : State) : Prop where
  keys : (s.standings.map (·.key)).Nodup
  names : (s.standings.map (·.name)).Nodup
  issued : ∀ i ∈ s.standings, i.key ≤ s.issued
  told : ∀ event ∈ s.moduleEvents, s.Explains event
  once : (s.moduleEvents.filterMap executedKey?).Nodup
  links : ∀ i ∈ s.standings, ∀ link ∈ i.wanted.zip i.imports, s.Links i link

section Sound

theorem Sound.eq_of_key (h : Sound s) {i j : Standing} (hi : i ∈ s.standings)
    (hj : j ∈ s.standings) (hk : i.key = j.key) : i = j :=
  List.inj_on_of_nodup_map h.keys hi hj hk

/-- Instances stay, and those whose evaluation has begun are not taken back. -/
def Grows (s t : State) : Prop :=
  ∀ i ∈ s.standings, ∃ j ∈ t.standings, j.key = i.key ∧ j.name = i.name ∧
    (i.stage.hasBegun = true → j.stage.hasBegun = true)

theorem Grows.holds (h : Grows s t) {key : Nat} {name : String} (hs : s.Holds key name) :
    t.Holds key name := by
  obtain ⟨i, hi, rfl, rfl⟩ := hs
  obtain ⟨j, hj, hk, hn, -⟩ := h i hi
  exact ⟨j, hj, hk, hn⟩

theorem Grows.explains (h : Grows s t) {event : ModuleEvent} (hs : s.Explains event) :
    t.Explains event := by
  cases event with
  | entered id key => exact h.holds hs
  | loaded base specifier key =>
    obtain ⟨name, hr, hh⟩ := hs
    exact ⟨name, hr, h.holds hh⟩
  | executed name key =>
    obtain ⟨i, hi, rfl, rfl, hb⟩ := hs
    obtain ⟨j, hj, hk, hn, hg⟩ := h i hi
    exact ⟨j, hj, hk, hn, hg hb⟩

/-- The instances of `t` are those of `s` with something of them changed, but not their keys and
their names. -/
structure Changes (f : Standing → Standing) (s t : State) : Prop where
  standings : t.standings = s.standings.map f
  issued : s.issued ≤ t.issued
  key (i : Standing) : (f i).key = i.key
  name (i : Standing) : (f i).name = i.name

variable {f : Standing → Standing}

theorem Changes.mem (h : Changes f s t) {i : Standing} (hi : i ∈ s.standings) :
    f i ∈ t.standings := by
  rw [h.standings]
  exact List.mem_map_of_mem hi

theorem Changes.exists (h : Changes f s t) {j : Standing} (hj : j ∈ t.standings) :
    ∃ i ∈ s.standings, j = f i := by
  rw [h.standings] at hj
  obtain ⟨i, hi, rfl⟩ := List.mem_map.mp hj
  exact ⟨i, hi, rfl⟩

theorem Changes.links (h : Changes f s t) {i : Standing} {link : Import × Nat}
    (hl : s.Links i link) : t.Links (f i) link := by
  obtain ⟨name, hr, hi, hn⟩ := hl
  refine ⟨name, (h.name i).symm ▸ hr, Nat.le_trans hi h.issued, fun j hj hk => ?_⟩
  obtain ⟨i', hi', rfl⟩ := h.exists hj
  rw [h.name]
  exact hn i' hi' (by rw [← hk, h.key])

theorem Sound.change (h : Sound s) (hc : Changes f s t)
    (told : ∀ event ∈ t.moduleEvents, t.Explains event)
    (once : (t.moduleEvents.filterMap executedKey?).Nodup)
    (links : ∀ i ∈ s.standings, ∀ link ∈ (f i).wanted.zip (f i).imports, t.Links (f i) link) :
    Sound t where
  keys := by
    have hk : (t.standings.map (·.key)) = s.standings.map (·.key) := by
      rw [hc.standings, List.map_map]
      exact List.map_congr_left fun i _ => hc.key i
    rw [hk]
    exact h.keys
  names := by
    have hn : (t.standings.map (·.name)) = s.standings.map (·.name) := by
      rw [hc.standings, List.map_map]
      exact List.map_congr_left fun i _ => hc.name i
    rw [hn]
    exact h.names
  issued j hj := by
    obtain ⟨i, hi, rfl⟩ := hc.exists hj
    rw [hc.key]
    exact Nat.le_trans (h.issued i hi) hc.issued
  told := told
  once := once
  links j hj := by
    obtain ⟨i, hi, rfl⟩ := hc.exists hj
    exact links i hi

end Sound

section Undisturbed

/-- No module was touched, and references were only given out. -/
structure Undisturbed (s t : State) : Prop where
  same : SameModules s t
  issued : s.issued ≤ t.issued

theorem Undisturbed.refl (s : State) : Undisturbed s s := ⟨⟨rfl, rfl⟩, Nat.le_refl _⟩

theorem Undisturbed.trans {u : State} (h : Undisturbed s t) (h' : Undisturbed t u) : Undisturbed s u :=
  ⟨⟨h'.same.instances.trans h.same.instances, h'.same.events.trans h.same.events⟩,
    Nat.le_trans h.issued h'.issued⟩

instance : Covers Undisturbed := ⟨fun h hm => ⟨hm, codeStep_issued h⟩⟩

theorem undisturbed_left {code : Run α} (hw : WalksBy Undisturbed code) (s : State) :
    Undisturbed s (left (code.run s)) :=
  walks_keep (fun hr h => h.trans hr) hw (.refl s)

theorem Undisturbed.standings (h : Undisturbed s t) : t.standings = s.standings := h.same.instances

theorem Undisturbed.changes (h : Undisturbed s t) : Changes id s t :=
  ⟨by rw [h.standings, List.map_id], h.issued, fun _ => rfl, fun _ => rfl⟩

theorem Undisturbed.grows (h : Undisturbed s t) : Grows s t := by
  intro i hi
  exact ⟨i, h.standings ▸ hi, rfl, rfl, fun hb => hb⟩

theorem Sound.undisturbed (h : Sound s) (hq : Undisturbed s t) : Sound t := by
  refine h.change hq.changes (fun event he => ?_) ?_ fun i hi link hl => ?_
  · rw [hq.same.events] at he
    exact hq.grows.explains (h.told event he)
  · rw [hq.same.events]
    exact h.once
  · exact hq.changes.links (h.links i hi link hl)

end Undisturbed

section Changes

def Standing.staged (key : Nat) (stage : Stage) (i : Standing) : Standing :=
  if i.key = key then { i with stage } else i

variable {key : Nat} {stage : Stage} {i : Standing}

theorem staged_other (h : i.key ≠ key) : i.staged key stage = i := if_neg h

theorem staged_key (i : Standing) : (i.staged key stage).key = i.key := by
  unfold Standing.staged
  split <;> rfl

theorem staged_name (i : Standing) : (i.staged key stage).name = i.name := by
  unfold Standing.staged
  split <;> rfl

theorem staged_links (i : Standing) :
    (i.staged key stage).wanted.zip (i.staged key stage).imports = i.wanted.zip i.imports := by
  unfold Standing.staged
  split <;> rfl

def State.withStage (s : State) (key : Nat) (stage : Stage) : State :=
  { s with instances := s.instances.map fun i => if i.key = key then { i with stage } else i }

theorem setStage_run : (setStage key stage).run s = .ok () (s.withStage key stage) := rfl

theorem standings_changed (change : Instance → Instance) {f : Standing → Standing} (s : State)
    (key : Nat) (h : ∀ i, (change i).standing = f i.standing) :
    State.standings { s with
      instances := s.instances.map fun i => if i.key = key then change i else i } =
        s.standings.map fun i => if i.key = key then f i else i := by
  unfold State.standings
  rw [List.map_map, List.map_map]
  refine List.map_congr_left fun i _ => ?_
  rw [Function.comp_apply, Function.comp_apply]
  by_cases hk : i.key = key
  · exact (congrArg Instance.standing (if_pos hk)).trans
      ((h i).trans (if_pos (c := i.key = key) hk).symm)
  · exact (congrArg Instance.standing (if_neg hk)).trans (if_neg (c := i.key = key) hk).symm

theorem withStage_changes (s : State) (key : Nat) (stage : Stage) :
    Changes (Standing.staged key stage) s (s.withStage key stage) where
  standings := standings_changed (fun i => { i with stage }) s key fun _ => rfl
  issued := Nat.le_refl _
  key := staged_key
  name := staged_name

theorem withStage_grows
    (h : stage.hasBegun = true ∨ ∀ i ∈ s.standings, i.key = key → i.stage.hasBegun = false) :
    Grows s (s.withStage key stage) := by
  intro i hi
  refine ⟨_, (withStage_changes s key stage).mem hi, staged_key i, staged_name i, fun hb => ?_⟩
  unfold Standing.staged
  split
  · rename_i hk
    rcases h with h | h
    · exact h
    · rw [h i hi hk] at hb
      cases hb
  · exact hb

theorem Sound.withStage (h : Sound s)
    (hb : stage.hasBegun = true ∨ ∀ i ∈ s.standings, i.key = key → i.stage.hasBegun = false) :
    Sound (s.withStage key stage) := by
  refine h.change (withStage_changes s key stage) (fun event he => ?_) h.once fun i hi link hl => ?_
  · exact (withStage_grows hb).explains (h.told event he)
  · rw [staged_links] at hl
    exact (withStage_changes s key stage).links (h.links i hi link hl)

theorem Sound.execute (h : Sound s) (hi : i ∈ s.standings) (hu : i.stage.hasBegun = false)
    (hst : t.standings = s.standings) (ht : s.issued ≤ t.issued)
    (he : t.moduleEvents = s.moduleEvents ++ [.executed i.name i.key])
    (hb : stage.hasBegun = true) : Sound (t.withStage i.key stage) := by
  have hc : Changes (Standing.staged i.key stage) s (t.withStage i.key stage) :=
    { withStage_changes t i.key stage with
      standings := by rw [(withStage_changes t i.key stage).standings, hst]
      issued := ht }
  have hg : Grows s (t.withStage i.key stage) := by
    have hg : Grows t (t.withStage i.key stage) := withStage_grows (.inl hb)
    unfold Grows at hg
    rw [hst] at hg
    exact hg
  refine h.change hc (fun event hm => ?_) ?_ fun j hj link hl => ?_
  · replace hm : event ∈ t.moduleEvents := hm
    rw [he, List.mem_append, List.mem_singleton] at hm
    rcases hm with hm | rfl
    · exact hg.explains (h.told event hm)
    · refine ⟨_, hc.mem hi, staged_key i, staged_name i, ?_⟩
      rw [Standing.staged, if_pos rfl]
      exact hb
  · change (t.moduleEvents.filterMap executedKey?).Nodup
    rw [he, List.filterMap_append]
    refine List.nodup_append.mpr ⟨h.once, List.nodup_singleton _, fun a ha b hk heq => ?_⟩
    obtain ⟨event, hm, hx⟩ := List.mem_filterMap.mp ha
    have hk : b = i.key := List.mem_singleton.mp hk
    cases event with
    | executed name key =>
      obtain ⟨j, hj, hjk, -, hjb⟩ := h.told _ hm
      have hkey : key = a := Option.some.inj hx
      -- an instance whose body was executed had begun, but this one had not
      have hij : j = i := h.eq_of_key hj hi (by rw [hjk, hkey, heq, hk])
      rw [hij, hu] at hjb
      cases hjb
    | entered id key => cases hx
    | loaded base specifier key => cases hx
  · rw [staged_links] at hl
    exact hc.links (h.links j hj link hl)

theorem Sound.tell (h : Sound s) {event : ModuleEvent} (hf : s.Explains event)
    (hn : executedKey? event = none) :
    Sound { s with moduleEvents := s.moduleEvents ++ [event] } := by
  have hc : Changes id s { s with moduleEvents := s.moduleEvents ++ [event] } :=
    ⟨(List.map_id _).symm, Nat.le_refl _, fun _ => rfl, fun _ => rfl⟩
  refine h.change hc (fun e he => ?_) ?_ fun i hi link hl => hc.links (h.links i hi link hl)
  · have hg : Grows s { s with moduleEvents := s.moduleEvents ++ [event] } :=
      fun i hi => ⟨i, hi, rfl, rfl, fun hb => hb⟩
    rcases List.mem_append.mp he with he | he
    · exact hg.explains (h.told e he)
    · rw [List.mem_singleton.mp he]
      exact hg.explains hf
  · change ((s.moduleEvents ++ [event]).filterMap executedKey?).Nodup
    rw [List.filterMap_append]
    simpa [hn] using h.once

end Changes

section Leaving

variable {P : State → Prop} {code : Run α} {next : α → Run β}

theorem run_bind {a : α} (hc : code.run s = .ok a t) :
    (code >>= next).run s = (next a).run t := by
  rw [bind_run, hc]

theorem left_bind (he : ∀ value t, code.run s = .error value t → P t)
    (hn : ∀ a t, code.run s = .ok a t → P (left ((next a).run t))) :
    P (left ((code >>= next).run s)) := by
  rw [bind_run]
  cases hc : code.run s with
  | ok a t => exact hn a t hc
  | error value t => exact he value t hc

def NoStep (_ _ : State) : Prop := False

theorem read_left (hw : WalksBy NoStep code) (s : State) : left (code.run s) = s :=
  walks_keep (P := fun t => t = s) (fun h _ => h.elim) hw rfl

theorem left_read (hw : WalksBy NoStep code) (h : P s) (hn : ∀ a, P (left ((next a).run s))) :
    P (left ((code >>= next).run s)) := by
  have hl := read_left hw s
  refine left_bind (fun value t hc => ?_) fun a t hc => ?_
  · rw [hc] at hl
    exact (show t = s from hl) ▸ h
  · rw [hc] at hl
    exact (show t = s from hl) ▸ hn a

end Leaving

end ScriptHost.Engine
