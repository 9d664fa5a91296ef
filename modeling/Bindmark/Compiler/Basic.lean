import Bindmark.Compiler.Document
import Bindmark.Compiler.Standard
import Bindmark.Html.Printer

/-!
# The compiler

A compiler has settings, a registry with its stages, and a verbosity. It
reads a source, compiles the document and writes it again.
-/

namespace Bindmark

structure Compiler where
  settings : Settings
  verbosity : Int
  state : State

namespace Compiler

/-! ## Making a compiler -/

/-- What is left of work: its value or the fault that ended it. -/
def outcome {α : Type} : EStateM.Result Fault State α → Except Fault α × State
  | .ok a s => (.ok a, s)
  | .error e s => (.error e, s)

/-- A compiler of a registry, with the standard setup if it is wanted. In debug
    mode the verbosity is the highest unless one is given. -/
def ofRegistry (s : Settings) (verbosity : Option Int) (standard : Bool) (r : Registry) :
    Except Fault Compiler := do
  let state : State := { registry := r }
  let work := if standard then Standard.install s else pure ()
  match outcome (work state) with
  | (.ok _, state) =>
    return { settings := s, verbosity := verbosity.getD (if s.debugMode then 3 else 1), state }
  | (.error e, _) => throw e

/-- A compiler with the directives of the runtime. -/
def make (s : Settings) (verbosity : Option Int) (standard : Bool) : Except Fault Compiler := do
  ofRegistry s verbosity standard (← Registry.make true s.namespaceDivider)

/-- Work is done with a compiler, with a trace and a journal of its own. -/
def run {α : Type} (c : Compiler) (work : Work α) : Except Fault α × Compiler :=
  let (result, state) := outcome (work { c.state with calls := [], journal := [] })
  (result, { c with state })

/-! ## Compiling -/

/-- The names of the reader of sources. -/
def readers : List Text := [lit "html.parser", lit "html", lit "strict"]

/-- The statistics begin anew. -/
def resetStats : Work Unit := Work.count fun _ => {}

/-- A document is compiled with statistics of its own. -/
def compileDocument (s : Settings) (nodes : List Node) : Work (List Node) := do
  resetStats
  Document.compile s nodes

def compile (s : Settings) (source : Text) : Work Text := do
  Work.log .started
  if !readers.contains s.htmlReader then throw (.unknownReader s.htmlReader)
  let nodes ← compileDocument s (Html.read source)
  let stats := (← get).stats
  Work.log (.compiled stats.nodes stats.replaced stats.directives)
  return Html.write nodes

end Compiler
end Bindmark
