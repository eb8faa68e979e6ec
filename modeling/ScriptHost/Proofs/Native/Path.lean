import ScriptHost.Native.Path
import ScriptHost.Proofs.Text.Pieces

/-!
# The components of a path

Splitting at a slash splits the components, so a path that was put together
from components has just these, with or without a slash at its end.
-/

set_option autoImplicit false

namespace ScriptHost.NativePath

def IsComponent (c : Utf8.Bytes) : Prop := c ≠ [] ∧ c ≠ dot ∧ slash ∉ c

instance : DecidablePred IsComponent :=
  fun c => inferInstanceAs (Decidable (c ≠ [] ∧ c ≠ dot ∧ slash ∉ c))

def joined (cs : List Utf8.Bytes) : NativePath := cs.flatMap (slash :: ·)

variable {c : Utf8.Bytes} {cs : List Utf8.Bytes} {path rest : NativePath}

theorem slash_notMem_piece (path : NativePath) : ∀ piece ∈ path.splitOn slash, slash ∉ piece := by
  intro piece h hs
  rw [List.splitOn_eq_splitOnP] at h
  simpa using (mem_piece h hs).2

theorem isComponent_of_mem (h : c ∈ components path) : IsComponent c := by
  rw [components, List.mem_filter] at h
  have hc : c ≠ [] ∧ c ≠ dot := by simpa using h.2
  exact ⟨hc.1, hc.2, slash_notMem_piece path c h.1⟩

theorem components_append (path rest : NativePath) :
    components (path ++ slash :: rest) = components path ++ components rest := by
  rw [components, List.splitOn_append_cons_self, List.filter_append]
  rfl

theorem components_single (h : IsComponent c) : components c = [c] := by
  rw [components, List.splitOn_eq_singleton h.2.2]
  simp [h.1, h.2.1]

theorem components_append_joined (h : ∀ c ∈ cs, IsComponent c) (path : NativePath) :
    components (path ++ joined cs) = components path ++ cs := by
  induction cs generalizing path with
  | nil => simp [joined]
  | cons c cs ih =>
    have hc := components_single (h c List.mem_cons_self)
    have hr := ih (fun d hd => h d (List.mem_cons_of_mem c hd)) c
    show components (path ++ slash :: (c ++ joined cs)) = components path ++ c :: cs
    rw [components_append, hr, hc]
    rfl

theorem components_joined (h : ∀ c ∈ cs, IsComponent c) : components (joined cs) = cs := by
  have hs := components_append_joined h []
  rwa [List.nil_append] at hs

theorem components_joined_slash (h : ∀ c ∈ cs, IsComponent c) :
    components (joined cs ++ [slash]) = cs := by
  rw [components_append, components_joined h]
  exact List.append_nil cs

end ScriptHost.NativePath
