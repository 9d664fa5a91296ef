import Bindmark.Log
import Bindmark.Node.Stage
import Bindmark.Registry.Basic

/-!
# Work on a registry

The state that work goes on from: the registry and the stages for nodes, what
functions of clients were called with, what was logged, and the statistics of
the last document. Work that is given up keeps what it has done so far.
-/

namespace Bindmark

structure Stats where
  nodes : Nat := 0
  /-- The nodes for which a stage answered with nodes. -/
  replaced : Nat := 0
  directives : Nat := 0
  deriving DecidableEq

/-- What work goes on from. -/
structure State where
  registry : Registry
  nodeStages : Option (Pipeline NodeStage) := none
  /-- What functions of clients were called with, in order. -/
  calls : List Call := []
  /-- What was logged, in order, at every level. -/
  journal : List Event := []
  stats : Stats := {}

/-- Work that may be given up with a fault. -/
abbrev Work := EStateM Fault State

namespace Work

def log (e : Event) : Work Unit :=
  modify fun s => { s with journal := s.journal ++ [e] }

/-- A call of a client's function is traced. -/
def trace (c : Call) : Work Unit :=
  modify fun s => { s with calls := s.calls ++ [c] }

def registry : Work Registry := return (← get).registry

def changeRegistry (f : Registry → Registry) : Work Unit :=
  modify fun s => { s with registry := f s.registry }

/-- A hook is called; what it calls in turn is traced. -/
def callHook (hook : Hook) (element value : Datum) (arguments : List Datum) : Work Datum := do
  let (call, result) := hook.run element value arguments
  trace call
  return result

def count (f : Stats → Stats) : Work Unit :=
  modify fun s => { s with stats := f s.stats }

end Work
end Bindmark
