import Mathlib.Logic.Relation
import ScriptHost.Proofs.Host.Moves

/-!
# What a host does by itself

Between the calls of programs a host runs the jobs in its queue and lets time
pass. That writes no text and starts no child, and a host without jobs stays as
it is.
-/

set_option autoImplicit false

namespace ScriptHost

def HostJob.isExit {K : Type} : HostJob K → Bool
  | .exit .. => true
  | _ => false

namespace NativeHost

variable {K : Type} {files : FileSystem} {h host : NativeHost K}

/-- A move of a host that nobody asked for: the job whose turn it is runs, or time passes. -/
inductive OwnMove (files : FileSystem) (h : NativeHost K) : NativeHost K → Prop
  | turn {host : NativeHost K} {event : Option (HostEvent K)}
      (ht : h.turn? files = some (host, event)) : OwnMove files h host
  | time {deadline : Nat} (hd : h.schedule.earliest? = some deadline) :
      OwnMove files h { h with schedule := h.schedule.wakeAt deadline }

/-- The children that are under way, by the jobs that tell their ends. -/
def children (h : NativeHost K) : List (HostJob K) :=
  (h.schedule.ready ++ h.schedule.asleep.map (·.2)).filter HostJob.isExit

/-- No job can run, and none will wake. -/
def IsResting (h : NativeHost K) : Prop := h.schedule.ready = [] ∧ h.schedule.asleep = []

theorem mem_children {job : HostJob K} : job ∈ h.children ↔
    (job ∈ h.schedule.ready ∨ ∃ pair ∈ h.schedule.asleep, pair.2 = job) ∧ job.isExit = true := by
  simp [children, or_and_right]

theorem run_sink (h : NativeHost K) (files : FileSystem) (job : HostJob K) :
    (h.run files job).1.sink = h.sink := by
  cases job with
  | «open» path callback =>
    simp only [run, opened]
    split <;> rfl
  | _ => rfl

theorem run_children (h : NativeHost K) (files : FileSystem) (job : HostJob K) :
    ∀ child ∈ (h.run files job).1.children, child ∈ h.children := by
  cases job with
  | timer job =>
    intro child hc
    obtain ⟨hready, hasleep⟩ := h.timers.run_schedule h.schedule .timer job
    obtain ⟨hm | ⟨pair, hp, rfl⟩, he⟩ := mem_children.mp hc
    · exact mem_children.mpr ⟨.inl (hready ▸ hm), he⟩
    · obtain hp | ⟨own, ho⟩ := hasleep pair hp
      · exact mem_children.mpr ⟨.inr ⟨pair, hp, rfl⟩, he⟩
      · rw [ho] at he
        cases he
  | «open» path callback =>
    simp only [run, children, (Course.opened_frame h files path).1]
    exact fun _ hc => hc
  | read read callback => exact fun _ hc => hc
  | exit exit callback => exact fun _ hc => hc

theorem turn_run {event : Option (HostEvent K)} (ht : h.turn? files = some (host, event)) :
    ∃ job schedule, h.schedule.next? = some (job, schedule) ∧
      host = (({ h with schedule } : NativeHost K).run files job).1 := by
  unfold turn? at ht
  split at ht
  · cases ht
  · rename_i job schedule hn
    exact ⟨job, schedule, hn, (Prod.mk.inj (Option.some.inj ht)).1.symm⟩

theorem OwnMove.sink (m : OwnMove files h host) : host.sink = h.sink := by
  cases m with
  | turn ht =>
    obtain ⟨job, schedule, -, rfl⟩ := turn_run ht
    exact run_sink _ files job
  | time hd => rfl

theorem OwnMove.children (m : OwnMove files h host) :
    ∀ child ∈ host.children, child ∈ h.children := by
  intro child hc
  cases m with
  | turn ht =>
    obtain ⟨job, schedule, hn, rfl⟩ := turn_run ht
    obtain ⟨hr, ha⟩ := Course.next?_some hn
    obtain ⟨hm, he⟩ := mem_children.mp (run_children _ files job child hc)
    refine mem_children.mpr ⟨hm.imp (fun hm => ?_) fun ⟨pair, hp, h⟩ => ⟨pair, ha ▸ hp, h⟩, he⟩
    exact hr ▸ List.mem_cons_of_mem job hm
  | time hd =>
    obtain ⟨hm | ⟨pair, hp, h⟩, he⟩ := mem_children.mp hc
    · obtain hm | hm := List.mem_append.mp hm
      · exact mem_children.mpr ⟨.inl hm, he⟩
      · obtain ⟨pair, hp, rfl⟩ := List.mem_map.mp hm
        exact mem_children.mpr ⟨.inr ⟨pair, (List.mem_filter.mp hp).1, rfl⟩, he⟩
    · exact mem_children.mpr ⟨.inr ⟨pair, (List.mem_filter.mp hp).1, h⟩, he⟩

theorem IsResting.no_move (hr : h.IsResting) : ¬ OwnMove files h host := by
  obtain ⟨hready, hasleep⟩ := hr
  intro m
  cases m with
  | turn ht => simp [turn?, Schedule.next?, hready] at ht
  | time hd => simp [Schedule.earliest?, Schedule.earliest, hasleep] at hd

section Runs

variable (m : Relation.ReflTransGen (OwnMove files) h host)

include m

theorem IsResting.moves (hr : h.IsResting) : host = h := by
  induction m with
  | refl => rfl
  | tail _ last ih =>
    subst ih
    exact absurd last hr.no_move

end Runs

end NativeHost

end ScriptHost
