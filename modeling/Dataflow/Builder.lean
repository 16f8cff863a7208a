import Dataflow.Builder.Program
import Dataflow.Catalog

/-!
# Building algorithms

An algorithm is built by running a builder program in a fresh scope. It is registered
only if its code is free, its ports have distinct names, the program succeeds with as
many results as there are outlets, each of which can be a source, and every inlet of a
step that needs a source has one.
-/

namespace Dataflow

/-- The algorithm without a graph whose code is free in a catalog. -/
def Catalog.shell (c : Catalog) (code : String) (inlets outlets : List Parameter) :
    Except Error Action := do
  c.ensureVacant code
  Action.ofParameters code inlets outlets

/-- The graph that a builder program gives in a fresh scope. -/
def Builder.graph (builder : Builder.Fallible Produced) (identity : Identity) (shell : Action) :
    Run Error Graph :=
  let (produced, scope, events) := Builder.run (ExceptT.run builder) (.start identity shell)
  ⟨events, do
    let graph ← scope.finish (← produced)
    graph.validate shell.code
    return graph⟩

/-- Builds an algorithm and registers it; `identity` is that of the scope. -/
def Catalog.build (identity : Identity) (code : String) (inlets outlets : List Parameter)
    (builder : Builder.Fallible Produced) : Registration Action := do
  let shell ← .check fun c => c.shell code inlets outlets
  let graph ← .ofRun (Builder.graph builder identity shell)
  let a : Action := { shell with graph := some graph }
  insertAlgorithm a
  .log (.algorithmBuilt a.code graph.steps.length graph.binds.size)
  return a

end Dataflow
