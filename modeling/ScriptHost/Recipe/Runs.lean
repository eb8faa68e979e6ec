import ScriptHost.Recipe.Session

/-!
# Runs of recipes

Entry modules are run one after the other over one registry. A run that waits
for what never comes has no result.
-/

set_option autoImplicit false

namespace ScriptHost.Recipe

structure RunSeen where
  result : Option RunResult
  log : List Entry
  output : String
  records : List (ModuleId × RecordState)

namespace World

def openRun (w : World) (view : HostView) : World :=
  let run := w.dispatcher.issued
  match Dispatch.opening w.config view with
  | .usage _ | .ended _ =>
    let w := w.dispatch (.begin view view)
    { w with
      output := w.output ++ w.dispatcher.written run
      result := w.dispatcher.result? run }
  | .load id =>
    let (w, t) := w.issue
    match w.loadBy (.begin view view) id t with
    | (w, some outcome) => w.afterOpening t run id view outcome
    | (w, none) => w.become t (.opening run id view)

def isRun (task : TaskId × Task) : Bool := (runOf task).isSome

def dropRuns (w : World) : World := w.abandon isRun

def runEntry (w : World) (view : HostView) : World :=
  ({ w.dropRuns with result := none, log := [], output := "" }.openRun view).settled

def runs (w : World) : List HostView → List RunSeen
  | [] => []
  | view :: rest =>
    let w := w.runEntry view
    ⟨w.result, w.log, w.output, w.records⟩ :: runs w rest

end World

end ScriptHost.Recipe
