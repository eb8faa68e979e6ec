import ScriptHost.Proofs.Dispatch.Basic
import ScriptHost.Recipe.Runs

/-!
# The dispatchers of worlds

A world changes its dispatcher, and the loads in it, by taking turns of it and
in no other way. So what holds of all dispatchers and of all runs of loads holds
in every session and in every run of recipes.
-/

set_option autoImplicit false

namespace ScriptHost.Recipe

namespace World

def Lawful (w : World) : Prop := w.dispatcher.Reachable

section Frame

variable (w : World) (t : TaskId)

@[simp] theorem note_dispatcher (entry : Entry) : (w.note entry).dispatcher = w.dispatcher := rfl

@[simp] theorem put_dispatcher (task : Task) : (w.put t task).dispatcher = w.dispatcher := rfl

@[simp] theorem become_dispatcher (activity : Activity) : (w.become t activity).dispatcher = w.dispatcher := rfl

@[simp] theorem remove_dispatcher : (w.remove t).dispatcher = w.dispatcher := rfl

@[simp] theorem await_dispatcher (call : CallId) : (w.await call t).dispatcher = w.dispatcher := rfl

@[simp] theorem wake_dispatcher : (w.wake t).dispatcher = w.dispatcher := by
  unfold wake
  split <;> rfl

@[simp] theorem spawnAs_dispatcher (activity : Activity) : (w.spawnAs t activity).dispatcher = w.dispatcher := by
  rw [spawnAs, wake_dispatcher, become_dispatcher]

@[simp] theorem spawn_dispatcher (activity : Activity) : (w.spawn activity).dispatcher = w.dispatcher := by
  simp [spawn, issue]

@[simp] theorem deliver_dispatcher (outcome : LoadResult Exports) :
    (deliver outcome w t).dispatcher = w.dispatcher := by
  unfold deliver
  split <;> simp

@[simp] theorem enter_dispatcher (name : String) : (w.enter name t).1.dispatcher = w.dispatcher := by
  unfold enter
  dsimp only
  split <;> rfl

@[simp] theorem release_dispatcher (name : String) : (w.release name).1.dispatcher = w.dispatcher :=
  List.foldlRecOn (motive := fun next : World => next.dispatcher = w.dispatcher) _ _ rfl
    fun next h t _ => (next.wake_dispatcher t).trans h

end Frame

variable {w w' : World} {t : TaskId} {call : CallId} {id home : ModuleId}

theorem Lawful.of_same (h : w.Lawful) (hs : w'.dispatcher = w.dispatcher) : w'.Lawful := by
  rw [Lawful, hs]
  exact h

theorem Lawful.dispatch (h : w.Lawful) (a : Turn) : (w.dispatch a).Lawful := by
  unfold World.dispatch Lawful
  cases hs : w.dispatcher.step a with
  | none => exact h
  | some d => exact h.step hs

theorem Lawful.take (h : w.Lawful) (a : LoadStep Exports) : (w.take a).Lawful := h.dispatch _

theorem Lawful.dispatchAll {turns : Nat → Turn} (numbers : List Nat) (h : w.Lawful) :
    (numbers.foldl (fun w n => w.dispatch (turns n)) w).Lawful :=
  List.foldlRecOn (motive := World.Lawful) numbers _ h fun _ h n _ => h.dispatch (turns n)

theorem Lawful.loadBy (h : w.Lawful) (a : Turn) : (w.loadBy a id t).1.Lawful := by
  have ht : (w.dispatch a).Lawful := h.dispatch a
  unfold World.loadBy
  dsimp only
  split
  · exact ht
  · exact ht.of_same rfl
  · exact ht.of_same (by simp)

theorem Lawful.load (h : w.Lawful) : (w.load id t).1.Lawful := h.loadBy _

theorem Lawful.hand (h : w.Lawful) : (w.hand call).Lawful := by
  have ht : (w.take .resume).Lawful := h.take _
  unfold World.hand
  dsimp only
  split
  · exact ht.of_same (by simp)
  · exact ht

theorem Lawful.close (h : w.Lawful) : (w.close t).Lawful :=
  List.foldlRecOn (motive := World.Lawful) _ _ (h.of_same (remove_dispatcher w t))
    fun _ h _ _ => h.hand

theorem Lawful.abandon (h : w.Lawful) (isGone : TaskId × Task → Bool) :
    (w.abandon isGone).Lawful :=
  Lawful.dispatchAll _ (Lawful.dispatchAll _ (h.of_same rfl))

section Bodies

theorem Lawful.performLoad (h : w.Lawful) {specifier : String} {isTolerant : Bool} :
    (w.performLoad t home specifier isTolerant).1.Lawful := by
  unfold World.performLoad
  split
  · exact h.take _
  · rename_i id _
    have hl : (w.load id t).1.Lawful := h.load
    split <;> rename_i he <;> rw [he] at hl <;> exact hl

theorem Lawful.performInvalidate (h : w.Lawful) {specifier : String} :
    (w.performInvalidate home specifier).1.Lawful := by
  unfold World.performInvalidate
  split
  · exact h
  · rename_i id _
    exact (h.take (.invalidate id)).of_same rfl

theorem Lawful.instruct (h : w.Lawful) {isNative : Bool} (instruction : Instruction) :
    (w.instruct t home isNative instruction).1.Lawful := by
  cases instruction with
  | load specifier isTolerant => exact h.performLoad
  | invalidate specifier => exact h.performInvalidate
  | gate name =>
    have he : (w.enter name t).1.Lawful := h.of_same (by simp)
    unfold World.instruct
    dsimp only
    split <;> rename_i hw <;> rw [hw] at he <;> exact he
  | print text =>
    apply h.of_same
    unfold World.instruct
    dsimp only
    split <;> rfl
  | wait ms =>
    apply h.of_same
    unfold World.instruct World.performWait
    dsimp only
    split
    · split <;> rfl
    · rfl
  | fail text => exact h
  | log text => exact h.of_same rfl
  | nothing => exact h

theorem Lawful.perform {isNative : Bool} (todo : List Instruction) :
    ∀ {w : World}, w.Lawful → (w.perform t home isNative todo).1.Lawful := by
  induction todo with
  | nil => exact fun h => h
  | cons instruction todo ih =>
    intro w h
    have hi : (w.instruct t home isNative instruction).1.Lawful := h.instruct instruction
    unfold World.perform
    split <;> rename_i he <;> rw [he] at hi
    · exact ih hi
    · exact hi
    · exact hi

theorem Lawful.resume (h : w.Lawful) {delivered : Option (LoadResult Exports)} {rest : Rest} :
    (w.resume t delivered rest).1.Lawful := by
  have ha : (w.awaited delivered rest.waiting).1.Lawful := by
    apply h.of_same
    unfold World.awaited
    split
    · split <;> rfl
    · rfl
    · rfl
    · rfl
  unfold World.resume
  split <;> rename_i he <;> rw [he] at ha
  · exact Lawful.perform _ ha
  · exact ha
  · exact ha

theorem Lawful.afterBody {exports : Exports} (p : World × Progress) (h : p.1.Lawful) :
    (afterBody t call exports p).Lawful := by
  obtain ⟨w, progress⟩ := p
  cases progress with
  | waits rest => exact h.of_same rfl
  | ended result => exact (h.take _).close

theorem Lawful.finish (h : w.Lawful) (run : RunId) : (w.finish t run).Lawful := h.of_same rfl

theorem Lawful.afterMain {run : RunId} (p : World × Progress) (h : p.1.Lawful) :
    (afterMain t run p).Lawful := by
  obtain ⟨w, progress⟩ := p
  cases progress with
  | waits rest => exact h.of_same rfl
  | ended result => exact (h.dispatch _).finish run

end Bodies

section Turns

theorem Lawful.fetched (h : w.Lawful) {source : LoadResult String} :
    (w.fetched t call id source).Lawful := by
  unfold World.fetched
  split
  · exact (h.take _).close
  · exact Lawful.afterBody _ (Lawful.perform _ ((h.take _).of_same rfl))

theorem Lawful.retrieve (h : w.Lawful) : (w.retrieve t call id).Lawful := by
  have hb : ({ w with log := w.log ++ (w.sources.fetch id).2.map Entry.enquired }.take
      (.begin call)).Lawful := Lawful.take (h.of_same rfl) _
  unfold World.retrieve
  dsimp only
  split
  · exact hb.fetched
  · rename_i name _
    have he := hb.of_same (enter_dispatcher _ t name)
    split <;> rename_i hw <;> rw [hw] at he
    · exact he.fetched
    · exact he.of_same rfl

theorem Lawful.afterOpening (h : w.Lawful) {run : RunId} {view : HostView}
    {loaded : LoadResult Exports} : (w.afterOpening t run id view loaded).Lawful := by
  have hn : (w.dispatch (.goOn run Exports.main)).Lawful := h.dispatch _
  unfold World.afterOpening
  dsimp only
  split
  · exact hn.finish run
  · exact Lawful.afterMain _ (Lawful.perform _ (hn.of_same rfl))

theorem Lawful.advance (h : w.Lawful) (task : Task) : (w.advance t task).Lawful := by
  unfold World.advance
  split
  · exact h.retrieve
  · exact h.fetched
  · exact Lawful.afterBody _ h.resume
  · exact h.of_same rfl
  · exact h
  · exact h.afterOpening
  · exact h
  · exact Lawful.afterMain _ h.resume

theorem Lawful.turn (h : w.Lawful) (ht : w.turn? = some w') : w'.Lawful := by
  unfold World.turn? at ht
  split at ht
  · cases ht
  · rename_i t schedule _
    have hs : ({ w with schedule } : World).Lawful := h.of_same rfl
    dsimp only at ht
    split at ht
    · cases ht
      exact hs
    · cases ht
      exact hs.advance _

theorem Lawful.settleAll (fuel : Nat) : ∀ {w : World}, w.Lawful → (settleAll fuel w).Lawful := by
  induction fuel with
  | zero => exact fun h => h
  | succ fuel ih =>
    intro w h
    unfold World.settleAll
    split
    · exact h
    · split
      · rename_i ht
        exact ih (h.turn ht)
      · split
        · exact ih (h.of_same rfl)
        · exact h

theorem Lawful.openRun (h : w.Lawful) {view : HostView} : (w.openRun view).Lawful := by
  unfold World.openRun
  dsimp only
  split
  · exact (h.dispatch (.begin view view)).of_same rfl
  · exact (h.dispatch (.begin view view)).of_same rfl
  · rename_i id _
    have hi : w.issue.1.Lawful := h.of_same rfl
    have hl : (w.issue.1.loadBy (.begin view view) id w.issue.2).1.Lawful := hi.loadBy _
    split <;> rename_i he <;> rw [he] at hl
    · exact hl.afterOpening
    · exact hl.of_same rfl

theorem Lawful.runEntry (h : w.Lawful) (view : HostView) : (w.runEntry view).Lawful := by
  have hd : ({ w.dropRuns with result := none, log := [], output := "" } : World).Lawful :=
    (h.abandon isRun).of_same rfl
  exact Lawful.settleAll _ hd.openRun

theorem start_lawful (config : Config) (sources : Sources) : (start config sources).Lawful :=
  ⟨config, [], rfl⟩

end Turns

end World

open World in
theorem Session.begin_lawful {s : Session} (h : s.world.Lawful) (target : Target) :
    (s.begin target).1.world.Lawful := by
  unfold Session.begin
  split
  · exact h
  · rename_i id _
    have hl : (s.world.issue.1.load id s.world.issue.2).1.Lawful := Lawful.load (h.of_same rfl)
    dsimp only
    split <;> rename_i he <;> rw [he] at hl
    · exact hl
    · exact hl.of_same (by simp)

theorem Session.step_lawful {s : Session} (h : s.world.Lawful) (a : Step) :
    (s.step a).1.world.Lawful := by
  have hb : ∀ target, (s.begin target).1.world.Lawful := Session.begin_lawful h
  have hid : ∀ (text : String) (act : ModuleId → Session × Answer),
      (∀ id, (act id).1.world.Lawful) → (s.withId text act).1.world.Lawful := by
    intro text act ha
    unfold Session.withId
    split
    · exact h
    · exact ha _
  cases a with
  | start target => exact hb target
  | load target =>
    have ht := hb target
    unfold Session.step
    dsimp only
    split <;> rename_i he <;> rw [he] at ht
    · exact ht
    · exact World.Lawful.settleAll _ ht
  | settle => exact World.Lawful.settleAll _ h
  | release gate => exact h.of_same (by simp [Session.step])
  | cancel ticket => exact World.Lawful.settleAll _ (h.abandon _)
  | define name module => exact h.of_same rfl
  | state text => exact hid text _ fun _ => h
  | invalidate text => exact hid text _ fun _ => h.take _
  | evaluations => exact h
  | records => exact h

theorem session_reachable (sources : Sources) (steps : List Step) :
    (steps.foldl (fun s a =>
      { (s.step a).1 with world := { (s.step a).1.world with log := [] } })
      (Session.start sources)).world.dispatcher.Reachable :=
  List.foldlRecOn (motive := fun s : Session => s.world.Lawful) steps _ (World.start_lawful _ _)
    fun _ h a _ => (Session.step_lawful h a).of_same rfl

theorem runs_reachable (config : Config) (sources : Sources) (views : List HostView) :
    (views.foldl World.runEntry (World.start config sources)).dispatcher.Reachable :=
  List.foldlRecOn (motive := World.Lawful) views _ (World.start_lawful _ _)
    fun _ h view _ => h.runEntry view

end ScriptHost.Recipe
