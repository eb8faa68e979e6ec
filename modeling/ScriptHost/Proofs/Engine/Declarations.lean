import ScriptHost.Proofs.Engine.Modules

/-!
# Declaring modules

A declaration leaves the instances that were there as they are. What it adds has
names that were not there, and an import of it leads to the instance with the
name that its specifier stands for. A declaration that fails takes back its own
instance, of which nothing was told.
-/

set_option autoImplicit false

namespace ScriptHost.Engine

variable {α β : Type} {s t u : State}

section Results

def Results (P : α → State → Prop) (E : State → Prop) : EStateM.Result Value State α → Prop
  | .ok a t => P a t
  | .error _ t => E t

variable {P : α → State → Prop} {Q : β → State → Prop} {E E' : State → Prop} {code : Run α}

theorem results_bind {next : α → Run β} (h : Results P E (code.run s))
    (hn : ∀ a t, P a t → Results Q E ((next a).run t)) :
    Results Q E ((code >>= next).run s) := by
  rw [bind_run]
  cases hc : code.run s with
  | ok a t =>
    rw [hc] at h
    exact hn a t h
  | error value t =>
    rw [hc] at h
    exact h

theorem Results.mono {P' : α → State → Prop} {r : EStateM.Result Value State α}
    (h : Results P E r) (hp : ∀ a t, P a t → P' a t) (he : ∀ t, E t → E' t) : Results P' E' r := by
  cases r with
  | ok a t => exact hp a t h
  | error value t => exact he t h

def Attempted (P : α → State → Prop) (E : State → Prop) : Except Value α → State → Prop
  | .ok a, t => P a t
  | .error _, t => E t

theorem results_attempted (h : Results P E (code.run s)) :
    Results (Attempted P E) E' ((attempted code).run s) := by
  rw [attempted_run]
  cases hc : code.run s with
  | ok a t =>
    rw [hc] at h
    exact h
  | error value t =>
    rw [hc] at h
    exact h

theorem results_undisturbed (hw : WalksBy Undisturbed code) (s : State) :
    Results (fun _ t => Undisturbed s t) (Undisturbed s) (code.run s) := by
  have h := undisturbed_left hw s
  cases hc : code.run s with
  | ok a t =>
    rw [hc] at h
    exact h
  | error value t =>
    rw [hc] at h
    exact h

end Results

/-- Instances were added to those that are there, and nothing is told of them. -/
structure Declared (s t : State) : Prop where
  sound : Sound t
  issued : s.issued ≤ t.issued
  events : t.moduleEvents = s.moduleEvents
  kept : ∀ i ∈ s.standings, i ∈ t.standings

namespace Declared

theorem refl (h : Sound s) : Declared s s := ⟨h, Nat.le_refl _, rfl, fun _ hi => hi⟩

theorem trans (h : Declared s t) (h' : Declared t u) : Declared s u where
  sound := h'.sound
  issued := Nat.le_trans h.issued h'.issued
  events := h'.events.trans h.events
  kept i hi := h'.kept i (h.kept i hi)

theorem ofUndisturbed (h : Sound s) (hq : Undisturbed s t) : Declared s t :=
  ⟨h.undisturbed hq, hq.issued, hq.same.events, fun _ hi => hq.standings ▸ hi⟩

theorem holds (h : Declared s t) {key : Nat} {name : String} (hs : s.Holds key name) :
    t.Holds key name := by
  obtain ⟨i, hi, hk, hn⟩ := hs
  exact ⟨i, h.kept i hi, hk, hn⟩

end Declared

section Adding

variable {key : Nat} {name : String} {program : Program}

def added (key : Nat) (name : String) (program : Program) : Standing :=
  ⟨key, name, program.imports, [], .fresh⟩

structure Added (s : State) (name : String) (program : Program) (key : Nat) (t : State) : Prop where
  next : key = s.issued + 1
  standings : t.standings = s.standings ++ [added key name program]
  events : t.moduleEvents = s.moduleEvents
  issued : key ≤ t.issued

theorem addInstance_adds (s : State) :
    Results (Added s name program) (Undisturbed s) ((addInstance name program).run s) := by
  refine results_bind (P := fun key t => key = s.issued + 1 ∧ t = { s with issued := key })
    ⟨rfl, rfl⟩ fun key t ht => ?_
  obtain ⟨rfl, rfl⟩ := ht
  have hs : Undisturbed s { s with issued := s.issued + 1 } := ⟨⟨rfl, rfl⟩, Nat.le_succ _⟩
  have inScope : Results (fun _ t => Undisturbed { s with issued := s.issued + 1 } t)
      (Undisturbed { s with issued := s.issued + 1 })
      ((moduleScope (s.issued + 1) program).run { s with issued := s.issued + 1 }) :=
    results_undisturbed walks_moduleScope _
  refine results_bind (inScope.mono (fun _ _ h => h) fun t h => hs.trans h) fun scope t hq => ?_
  refine ⟨rfl, ?_, hq.same.events, hq.issued⟩
  change ((t.instances ++ _).map Instance.standing : List Standing) = _
  rw [List.map_append, hq.same.instances]
  rfl

theorem Sound.add (h : Sound s) (hn : ∀ i ∈ s.standings, i.name ≠ name)
    (ha : Added s name program key t) : Sound t := by
  have hk : ∀ i ∈ s.standings, i.key < key := by
    intro i hi
    have hi := h.issued i hi
    have hkey := ha.next
    omega
  have mem : ∀ i ∈ t.standings, i ∈ s.standings ∨ i = added key name program := by
    intro i hi
    rw [ha.standings, List.mem_append, List.mem_singleton] at hi
    exact hi
  have grows : Grows s t := by
    intro i hi
    refine ⟨i, ?_, rfl, rfl, fun hb => hb⟩
    rw [ha.standings]
    exact List.mem_append_left _ hi
  constructor
  case keys =>
    rw [ha.standings, List.map_append]
    refine List.nodup_append.mpr ⟨h.keys, List.nodup_singleton _, fun a hm b hb he => ?_⟩
    obtain ⟨i, hi, rfl⟩ := List.mem_map.mp hm
    exact Nat.ne_of_lt (hk i hi) (he.trans (List.mem_singleton.mp hb))
  case names =>
    rw [ha.standings, List.map_append]
    refine List.nodup_append.mpr ⟨h.names, List.nodup_singleton _, fun a hm b hb he => ?_⟩
    obtain ⟨i, hi, rfl⟩ := List.mem_map.mp hm
    exact hn i hi (he.trans (List.mem_singleton.mp hb))
  case issued =>
    intro i hi
    rcases mem i hi with hi | rfl
    · exact Nat.le_trans (Nat.le_of_lt (hk i hi)) ha.issued
    · exact ha.issued
  case told =>
    intro event he
    rw [ha.events] at he
    exact grows.explains (h.told event he)
  case once =>
    rw [ha.events]
    exact h.once
  case links =>
    intro i hi link hl
    rcases mem i hi with hi | rfl
    -- what the older instances import has an older key, so it is never the new one
    · obtain ⟨target, hr, hb, ht⟩ := h.links i hi link hl
      have hkey := ha.next
      refine ⟨target, hr, by have := ha.issued; omega, fun j hj hjk => ?_⟩
      rcases mem j hj with hj | rfl
      · exact ht j hj hjk
      · have he : key = link.2 := hjk
        omega
    · rw [added, List.zip_nil_right] at hl
      cases hl

end Adding

section Importing

variable {base specifier : String}

/-- An import leads to an instance with the name of the specifier. -/
def Imported (s : State) (base specifier : String) (key : Nat) (t : State) : Prop :=
  Declared s t ∧ ∃ name, resolution base specifier = .ok name ∧ t.Holds key name

def Declares (declare : String → String → Run Nat) : Prop :=
  ∀ name source s, Sound s → (∀ i ∈ s.standings, i.name ≠ name) →
    Results (fun key t => Declared s t ∧ t.Holds key name) (Declared s) ((declare name source).run s)

theorem found_holds {name : String} {i : Instance}
    (h : s.instances.find? (·.name = name) = some i) : s.Holds i.key name :=
  ⟨i.standing, List.mem_map_of_mem (List.mem_of_find?_eq_some h), rfl,
    of_decide_eq_true (List.find?_some (p := fun i : Instance => decide (i.name = name)) h)⟩

theorem unfound_fresh {name : String} (h : s.instances.find? (·.name = name) = none) :
    ∀ i ∈ s.standings, i.name ≠ name := by
  intro i hi
  obtain ⟨j, hj, rfl⟩ := List.mem_map.mp hi
  exact of_decide_eq_false (Bool.eq_false_iff.mpr (List.find?_eq_none.mp h j hj))

theorem importInstance_imports {declare : String → String → Run Nat} (hd : Declares declare)
    (h : Sound s) :
    Results (Imported s base specifier) (Declared s)
      ((importInstance declare base specifier).run s) := by
  have resolved : Results (fun name t => resolution base specifier = .ok name ∧ t = s) (Declared s)
      ((resolveImport base specifier).run s) := by
    have hq : Undisturbed s (left ((resolveImport base specifier).run s)) :=
      undisturbed_left walks_resolveImport s
    unfold resolveImport at hq ⊢
    split
    · rename_i name hr
      exact ⟨hr, rfl⟩
    · rename_i failure hr
      rw [hr] at hq
      exact .ofUndisturbed h hq
  refine results_bind resolved fun name t ht => ?_
  obtain ⟨hr, rfl⟩ := ht
  rw [run_get]
  split
  · rename_i i hf
    exact ⟨.refl h, name, hr, found_holds hf⟩
  · rename_i hf
    have fetched : Results (fun _ u => Undisturbed t u) (Undisturbed t) ((fetchImport name).run t) :=
      results_undisturbed walks_fetchImport t
    refine results_bind (fetched.mono (fun _ _ hq => hq) fun _ hq => .ofUndisturbed h hq) ?_
    intro source u hq
    have hfresh : ∀ i ∈ u.standings, i.name ≠ name := hq.standings ▸ unfound_fresh hf
    have hs := Declared.ofUndisturbed h hq
    exact (hd name source u hs.sound hfresh).mono
      (fun key v hv => ⟨hs.trans hv.1, name, hr, hv.2⟩) fun v hv => hs.trans hv

theorem mapM_imports {declare : String → String → Run Nat} (hd : Declares declare)
    (base : String) (wanted : List Import) : ∀ s, Sound s →
      Results (fun keys t => Declared s t ∧ ∀ link ∈ wanted.zip keys,
          ∃ name, resolution base link.1.specifier = .ok name ∧ t.Holds link.2 name)
        (Declared s) ((wanted.mapM fun i => importInstance declare base i.specifier).run s) := by
  induction wanted with
  | nil =>
    intro s h
    exact ⟨.refl h, by simp⟩
  | cons first rest ih =>
    intro s h
    rw [List.mapM_cons]
    refine results_bind (importInstance_imports hd h) fun key t ht => ?_
    obtain ⟨ht, name, hr, hk⟩ := ht
    refine results_bind ((ih t ht.sound).mono (fun _ _ hv => hv) fun _ hv => ht.trans hv) ?_
    intro keys u hu
    refine ⟨ht.trans hu.1, fun link hl => ?_⟩
    rw [List.zip_cons_cons, List.mem_cons] at hl
    rcases hl with rfl | hl
    · exact ⟨name, hr, hu.1.holds hk⟩
    · exact hu.2 link hl

end Importing

section Declaring

variable {key : Nat} {name : String} {program : Program} {imports : List Nat}

def State.withImports (s : State) (key : Nat) (imports : List Nat) : State :=
  { s with instances := s.instances.map fun i => if i.key = key then { i with imports } else i }

def Standing.linked (key : Nat) (imports : List Nat) (i : Standing) : Standing :=
  if i.key = key then { i with imports } else i

theorem withImports_changes (s : State) (key : Nat) (imports : List Nat) :
    Changes (Standing.linked key imports) s (s.withImports key imports) where
  standings := standings_changed (fun i => { i with imports }) s key fun _ => rfl
  issued := Nat.le_refl _
  key i := by unfold Standing.linked; split <;> rfl
  name i := by unfold Standing.linked; split <;> rfl

theorem Sound.withImports (h : Sound s) {i : Standing} (hi : i ∈ s.standings)
    (hl : ∀ link ∈ i.wanted.zip imports,
      ∃ name, resolution i.name link.1.specifier = .ok name ∧ s.Holds link.2 name) :
    Sound (s.withImports i.key imports) := by
  have hc := withImports_changes s i.key imports
  refine h.change hc (fun event he => ?_) h.once fun j hj link hlink => ?_
  · refine Grows.explains (s := s) (fun j hj => ?_) (h.told event he)
    refine ⟨_, hc.mem hj, hc.key j, hc.name j, fun hb => ?_⟩
    unfold Standing.linked
    split <;> exact hb
  · by_cases hk : j.key = i.key
    · obtain rfl : j = i := h.eq_of_key hj hi hk
      rw [Standing.linked, if_pos rfl] at hlink
      obtain ⟨target, hr, m, hm, hmk, hmn⟩ := hl link hlink
      refine hc.links ⟨target, hr, hmk ▸ h.issued m hm, fun n hn hnk => ?_⟩
      rw [← hmn, h.eq_of_key hn hm (hnk.trans hmk.symm)]
    · rw [Standing.linked, if_neg hk] at hlink ⊢
      have hj := hc.links (h.links j hj link hlink)
      rwa [Standing.linked, if_neg hk] at hj

def State.without (s : State) (key : Nat) : State :=
  { s with instances := s.instances.filter (·.key ≠ key) }

theorem mem_without {i : Standing} : i ∈ (s.without key).standings ↔ i ∈ s.standings ∧ i.key ≠ key := by
  unfold State.standings State.without
  constructor
  · intro hi
    obtain ⟨j, hj, rfl⟩ := List.mem_map.mp hi
    rw [List.mem_filter] at hj
    exact ⟨List.mem_map_of_mem hj.1, of_decide_eq_true hj.2⟩
  · rintro ⟨hi, hk⟩
    obtain ⟨j, hj, rfl⟩ := List.mem_map.mp hi
    exact List.mem_map_of_mem (List.mem_filter.mpr ⟨hj, decide_eq_true hk⟩)

theorem Sound.without (h : Sound s) (ht : ∀ event ∈ s.moduleEvents, (s.without key).Explains event) :
    Sound (s.without key) := by
  have sub : List.Sublist (s.without key).standings s.standings := by
    exact List.filter_sublist.map _
  constructor
  case keys => exact (sub.map _).nodup h.keys
  case names => exact (sub.map _).nodup h.names
  case issued => exact fun i hi => h.issued i (sub.subset hi)
  case told => exact ht
  case once => exact h.once
  case links =>
    intro i hi link hl
    obtain ⟨target, hr, hb, hj⟩ := h.links i (sub.subset hi) link hl
    exact ⟨target, hr, hb, fun j hm hk => hj j (sub.subset hm) hk⟩

theorem throwNew_declared {context : Context} {class_ message : String} (h : Sound s)
    {P : α → State → Prop} :
    Results P (Declared s) ((throwNew context class_ message : Run α).run s) :=
  .ofUndisturbed h ⟨⟨rfl, rfl⟩, Nat.le_succ _⟩

theorem declare_declares (fuel : Nat) : Declares (declare fuel) := by
  induction fuel with
  | zero => exact fun name source s h _ => throwNew_declared h
  | succ fuel ih =>
    intro name source s h hn
    unfold declare
    split
    · exact throwNew_declared h
    · rename_i program _
      refine results_bind ((addInstance_adds s).mono (fun _ _ ha => ha) fun _ hq => .ofUndisturbed h hq) ?_
      intro key t ha
      have hs : Sound t := h.add hn ha
      have old : ∀ i ∈ s.standings, i ∈ t.standings ∧ i.key ≠ key := by
        intro i hi
        refine ⟨ha.standings ▸ List.mem_append_left _ hi, fun hk => ?_⟩
        have hle := h.issued i hi
        have hkey := ha.next
        omega
      have own : added key name program ∈ t.standings := ha.standings ▸ List.mem_append_right _ (by simp)
      refine results_bind (results_attempted (mapM_imports ih name program.imports t hs)) ?_
      intro result u hu
      -- if an import fails the instance is taken back, but those that it imported stay
      cases result with
      | ok imports =>
        obtain ⟨hd, hl⟩ := hu
        have hi : added key name program ∈ u.standings := hd.kept _ own
        have hc := withImports_changes u key imports
        refine ⟨⟨hd.sound.withImports hi hl, ?_, hd.events.trans ha.events, fun i hi => ?_⟩, ?_⟩
        · have hkey := ha.next
          exact Nat.le_trans (by omega) (Nat.le_trans ha.issued hd.issued)
        · have hm := hc.mem (hd.kept i (old i hi).1)
          rwa [Standing.linked, if_neg (old i hi).2] at hm
        · exact ⟨_, hc.mem hi, hc.key _, hc.name _⟩
      | error value =>
        have hd : Declared t u := hu
        have kept : ∀ i ∈ s.standings, i ∈ (u.without key).standings :=
          fun i hi => mem_without.mpr ⟨hd.kept i (old i hi).1, (old i hi).2⟩
        refine ⟨hd.sound.without fun event he => ?_, ?_, hd.events.trans ha.events, kept⟩
        · rw [hd.events, ha.events] at he
          exact Grows.explains (fun i hi => ⟨i, kept i hi, rfl, rfl, fun hb => hb⟩) (h.told event he)
        · have hkey := ha.next
          exact Nat.le_trans (by omega) (Nat.le_trans ha.issued hd.issued)

end Declaring

end ScriptHost.Engine
