import ScriptHost.Host.Basic
import ScriptHost.Proofs.Timers.Basic

/-!
# Timers of a host

No turn of a host changes its timers unless one of them fires in it.
-/

set_option autoImplicit false

namespace ScriptHost

namespace NativeHost

variable {K : Type} {h host : NativeHost K} {fs : FileSystem}

theorem run_timers (h : NativeHost K) (fs : FileSystem) (job : HostJob K) :
    (∃ timer ∈ h.timers.active, (h.run fs job).2 = some (.fired timer.handle) ∧
      (h.run fs job).1.timers = h.timers.afterFire timer) ∨
    (∀ handle, (h.run fs job).2 ≠ some (.fired handle)) ∧ (h.run fs job).1.timers = h.timers := by
  cases job with
  | timer job =>
    obtain ⟨hn, ht⟩ | ⟨timer, hm, he, ht⟩ :=
      h.timers.run_cases h.schedule .timer job
    · exact .inr ⟨by simp [run, hn], ht⟩
    · exact .inl ⟨timer, hm, by simp [run, he], ht⟩
  | «open» path callback =>
    refine .inr ⟨by simp [run], ?_⟩
    simp only [run, opened]
    split <;> rfl
  | read read callback => exact .inr ⟨by simp [run], rfl⟩
  | exit exit callback => exact .inr ⟨by simp [run], rfl⟩

theorem turn_timers {event : Option (HostEvent K)} (ht : h.turn? fs = some (host, event)) :
    (∃ timer ∈ h.timers.active, event = some (.fired timer.handle) ∧
      host.timers = h.timers.afterFire timer) ∨
    (∀ handle, event ≠ some (.fired handle)) ∧ host.timers = h.timers := by
  unfold turn? at ht
  split at ht
  · cases ht
  · rename_i job schedule hj
    have hr := run_timers { h with schedule } fs job
    rw [Option.some.inj ht] at hr
    exact hr

theorem turn_fired {handle : Nat} (ht : h.turn? fs = some (host, some (.fired handle))) :
    ∃ timer ∈ h.timers.active, timer.handle = handle ∧
      host.timers = h.timers.afterFire timer := by
  obtain ⟨timer, hm, he, hs⟩ | ⟨hn, -⟩ := turn_timers ht
  · cases he
    exact ⟨timer, hm, rfl, hs⟩
  · exact absurd rfl (hn handle)

theorem turn_unfired {event : Option (HostEvent K)} (ht : h.turn? fs = some (host, event))
    (hn : ∀ handle, event ≠ some (.fired handle)) : host.timers = h.timers := by
  obtain ⟨timer, -, he, -⟩ | ⟨-, hs⟩ := turn_timers ht
  · exact absurd he (hn timer.handle)
  · exact hs

end NativeHost

end ScriptHost
