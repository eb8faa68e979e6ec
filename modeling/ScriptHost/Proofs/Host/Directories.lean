import ScriptHost.Host.Basic
import ScriptHost.Proofs.Directories.Partition

/-!
# Directories of a host

Whatever a host does to its directories are steps of them, so what holds after
all steps holds of every host at work. A read that has its turn when none waits
before it comes to its end in that turn.
-/

set_option autoImplicit false

namespace ScriptHost

namespace Directories

def Reaches (d d' : Directories) : Prop := ∃ steps, d.run steps = some d'

variable {d d' d'' : Directories} {read : Nat} {r : DirectoryRead} {stream : DirectoryStream}

theorem Reaches.refl (d : Directories) : Reaches d d := ⟨[], rfl⟩

theorem Reaches.single {a : Step} (h : d.step a = some d') : Reaches d d' :=
  ⟨[a], by simp [run, h]⟩

theorem Reaches.trans (h : Reaches d d') (h' : Reaches d' d'') : Reaches d d'' := by
  obtain ⟨steps, hs⟩ := h
  obtain ⟨rest, hr⟩ := h'
  exact ⟨steps ++ rest, by rw [runsBy.append, hs]; exact hr⟩

theorem pullAll_reaches (fuel : Nat) (d : Directories) (read : Nat) :
    Reaches d (d.pullAll fuel read).1 := by
  induction fuel generalizing d with
  | zero => exact .refl d
  | succ fuel ih =>
    unfold pullAll
    split
    · exact .refl d
    · next next page hp => exact .single (a := .pull read) (by simp [step, hp])
    · next next hp =>
      have hs : Reaches d next := .single (a := .pull read) (by simp [step, hp])
      exact hs.trans (ih next)

theorem serve_reaches (d : Directories) (read : Nat) : Reaches d (d.serve read).1 := by
  unfold serve
  split
  · exact .refl d
  · next next hb =>
    have hs : Reaches d next := .single (a := .begin read) hb
    exact hs.trans (pullAll_reaches _ next read)

/-- A read that begins when no read waits for its stream ends in the same turn. -/
theorem serve_ends {spawned : List Nat} (h : Valid d) (hs : d.spawned = read :: spawned)
    (hr : d.reads.lookup read = some r) (hl : d.streams.lookup r.handle = some stream)
    (hn : stream.line = []) : (d.serve read).2.isSome := by
  obtain ⟨next, hb⟩ :=
    Option.isSome_iff_exists.mp (begin_isSome h.tables hs (Association.mem_of_lookup hr))
  have hv : Valid next := step_valid (a := .begin read) h hb
  have he : next = { d with spawned }.setStream r.handle { stream with line := [read] } := by
    simp [begin, hs, hr, hl, hn] at hb
    exact hb.symm
  have hh : next.Holds read r { stream with line := [read] } := by
    rw [he]
    refine ⟨hr, ?_, rfl⟩
    rw [lookup_setStream, if_pos rfl]
    show (d.streams.lookup r.handle).map _ = _
    rw [hl]
    rfl
  unfold serve
  rw [hb]
  exact pullAll_ends hv hh (Nat.le_refl _)

end Directories

namespace NativeHost

open Directories

variable {K : Type} {h host : NativeHost K} {fs : FileSystem} {event : Option (HostEvent K)}

theorem readDirectory_reaches (h : NativeHost K) (handle count : Nat) (callback : K) :
    Reaches h.directories (h.readDirectory handle count callback).1.directories := by
  have hs : Reaches h.directories (h.directories.read handle count).1 :=
    .single (a := .read handle count) rfl
  unfold readDirectory
  simp only
  split <;> exact hs

theorem closeDirectory_reaches (h : NativeHost K) (handle : Nat) :
    Reaches h.directories (h.closeDirectory handle).1.directories :=
  .single (a := .close handle) rfl

theorem opened_reaches (h : NativeHost K) (fs : FileSystem) (path : NativePath) :
    Reaches h.directories (h.opened fs path).1.directories := by
  unfold opened
  split
  · exact .refl _
  · next names _ => exact .single (a := .open (names.map .ok)) rfl

theorem run_reaches (h : NativeHost K) (fs : FileSystem) (job : HostJob K) :
    Reaches h.directories (h.run fs job).1.directories := by
  cases job with
  | timer job => exact .refl _
  | «open» path callback => exact opened_reaches h fs path
  | read read callback => exact serve_reaches h.directories read
  | exit exit callback => exact .refl _

theorem turn_reaches (ht : h.turn? fs = some (host, event)) :
    Reaches h.directories host.directories := by
  unfold turn? at ht
  split at ht
  · cases ht
  · next job schedule _ =>
    have hr := run_reaches { h with schedule } fs job
    rw [Option.some.inj ht] at hr
    exact hr

end NativeHost

end ScriptHost
