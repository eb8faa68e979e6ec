import ScriptHost.Proofs.Host.Directories

/-!
# Reads under way

A read is under way from its acceptance to its page. Every turn of a read keeps
it under way or brings the one page, and a read that begins leaves the queue of
those that did not.
-/

set_option autoImplicit false

namespace ScriptHost

namespace Association

variable {K V : Type} [DecidableEq K]

theorem perm_removed {k : K} {v : V} {pairs : List (K × V)} (hn : (pairs.map (·.1)).Nodup)
    (h : pairs.lookup k = some v) : pairs.Perm ((k, v) :: pairs.filter (·.1 ≠ k)) := by
  induction pairs with
  | nil => simp at h
  | cons pair rest ih =>
    obtain ⟨key, w⟩ := pair
    obtain ⟨hfresh, hrest⟩ := List.nodup_cons.mp hn
    rw [lookup_cons] at h
    by_cases hk : k = key
    · subst hk
      rw [if_pos rfl] at h
      obtain rfl := Option.some.inj h
      have hkept : rest.filter (·.1 ≠ k) = rest := by
        refine List.filter_eq_self.mpr fun other hm => ?_
        have hne : other.1 ≠ k := fun he => hfresh (List.mem_map.mpr ⟨other, hm, he⟩)
        simpa using hne
      rw [List.filter_cons_of_neg (by simp), hkept]
    · rw [if_neg hk] at h
      rw [List.filter_cons_of_pos (by simpa using Ne.symm hk)]
      exact ((ih hrest h).cons (key, w)).trans (.swap _ _ _)

end Association

namespace Directories

variable {d d' : Directories} {read : Nat} {page : Option DirectoryPage}

def underWay (d : Directories) : List Nat := d.reads.map (·.1)

/-- What a turn of a read makes of the reads under way, if it may bring a page. -/
structure Went (d d' : Directories) (read : Nat) (page : Option DirectoryPage) : Prop where
  underWay : d'.underWay = if page.isSome then d.underWay.filter (· ≠ read) else d.underWay
  spawned : d'.spawned = d.spawned
  heard : page ≠ some (.error .callbackDropped)

theorem begin_some (h : d.begin read = some d') :
    d.spawned = read :: d'.spawned ∧ d'.underWay = d.underWay := by
  cases begin_turn h with
  | begun read spawned r stream hs hr hl => exact ⟨hs, rfl⟩

theorem ends_heard {r : DirectoryRead} {entries left : List DirectoryEntry} {last : DirectoryPage}
    (h : Ends r entries left last) : last ≠ .error .callbackDropped := by
  cases h <;> simp [HostFailure.ofFault]

theorem pull_went (h : d.pull read = some (d', page)) : Went d d' read page := by
  obtain ⟨r, stream, -, ⟨bytes, entries, -, -, rfl, rfl⟩ | ⟨entries, last, he, rfl, rfl⟩⟩ :=
    pull_cases h
  · exact ⟨changed_keys _ _ _, rfl, nofun⟩
  · refine ⟨?_, rfl, ?_⟩
    · show (d.reads.filter (·.1 ≠ read)).map (·.1) = (d.reads.map (·.1)).filter (· ≠ read)
      rw [List.filter_map]
      rfl
    · exact fun hp => ends_heard he (Option.some.inj hp)

theorem pullAll_went (fuel : Nat) (d : Directories) (read : Nat) :
    Went d (d.pullAll fuel read).1 read (d.pullAll fuel read).2 := by
  induction fuel generalizing d with
  | zero => exact ⟨rfl, rfl, nofun⟩
  | succ fuel ih =>
    unfold pullAll
    split
    · exact ⟨rfl, rfl, nofun⟩
    · next next page hp => exact pull_went hp
    · next next hp =>
      obtain ⟨hunder, hspawned, -⟩ := pull_went hp
      obtain ⟨hu, hs, hh⟩ := ih next
      exact ⟨by rw [hu, hunder]; rfl, hs.trans hspawned, hh⟩

theorem serve_went {spawned : List Nat} (h : Valid d) (hs : d.spawned = read :: spawned) :
    Valid (d.serve read).1 ∧ Went { d with spawned } (d.serve read).1 read (d.serve read).2 := by
  obtain ⟨begun, fresh, hl⟩ := h.lines
  obtain ⟨r, hm⟩ : ∃ r, (read, r) ∈ d.reads := by
    have hread : read ∈ fresh.map (·.1) := by
      rw [← hl.spawned, hs]
      exact List.mem_cons_self
    obtain ⟨entry, hm, rfl⟩ := List.mem_map.mp hread
    exact ⟨entry.2, hl.reads ▸ List.mem_append_right _ hm⟩
  obtain ⟨next, hb⟩ := Option.isSome_iff_exists.mp (begin_isSome h.tables hs hm)
  obtain ⟨hspawned, hunder⟩ := begin_some hb
  obtain ⟨-, hspawned⟩ := List.cons.inj (hs.symm.trans hspawned)
  obtain ⟨steps, hsteps⟩ := serve_reaches d read
  refine ⟨run_valid h hsteps, ?_⟩
  have hserve : d.serve read = next.pullAll next.work read := by rw [serve, hb]
  obtain ⟨hu, hk, hh⟩ := pullAll_went next.work next read
  rw [hserve]
  exact ⟨by rw [hu, hunder]; rfl, hk.trans hspawned.symm, hh⟩

theorem read_cases (d : Directories) (handle count : Nat) :
    (∃ n, (d.read handle count).2 = .ok n ∧
      (d.read handle count).1.underWay = d.underWay ++ [n] ∧
      (d.read handle count).1.spawned = d.spawned ++ [n]) ∨
    ∃ failure, (d.read handle count).2 = .error failure ∧ failure ≠ .callbackDropped ∧
      (d.read handle count).1.underWay = d.underWay ∧
      (d.read handle count).1.spawned = d.spawned := by
  unfold Directories.read
  split
  · next failure ha =>
    refine .inr ⟨failure, rfl, ?_, rfl, rfl⟩
    rintro rfl
    unfold accept badHandle emptyPage at ha
    split at ha
    · cases ha
    · split at ha <;> cases ha
  · next ha => exact .inl ⟨d.accepted, rfl, List.map_append, rfl⟩

/-- As long as a read that began is under way, some read of these can go on. -/
theorem pull_goes_on (h : Valid d) (hs : d.spawned = []) (hr : d.underWay ≠ []) :
    ∃ read d' page, d.pull read = some (d', page) := by
  obtain ⟨a, d', ha, hd⟩ := goes_on h fun he => hr (by rw [underWay, he]; rfl)
  cases a with
  | «open» _ | read _ _ | close _ => cases ha
  | begin read => simp [step, begin, hs] at hd
  | pull read =>
    obtain ⟨⟨next, page⟩, hp, rfl⟩ := Option.map_eq_some_iff.mp hd
    exact ⟨read, next, page, hp⟩

end Directories

end ScriptHost
