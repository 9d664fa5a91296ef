import Bindmark.Directive.Stage
import Bindmark.Pair.Directives
import Bindmark.Registry.Lookup

/-!
# Preprocessing directive strings

The value of every directive is sent through the stages of its handler. A
falsy result removes the directive. Directives that stages add come before
the one that adds them, and are preprocessed themselves.
-/

namespace Bindmark.Directive

/-- What comes of a directive, where at most `depth` directives are added one
    within the other. -/
def expand : Nat → Pair → Work (List Pair)
  | 0, _ => throw .tooDeep
  | depth + 1, p => do
    let entry ← Registry.lookup p.key
    match p.value, entry.bind fun e => e.handler.preprocess.map (e.handler, ·) with
    | some value, some (h, pipeline) =>
      let (result, added) ← preprocess (expand depth) h p.key pipeline (.text value)
      if result.truthy then return added ++ [⟨p.key, some result.display⟩]
      else
        Work.log (.removed p.key)
        return added
    | _, _ => return [p]

def expandAll (depth : Nat) : List Pair → Work (List Pair)
  | [] => return []
  | p :: rest => do
    let first ← expand depth p
    let others ← expandAll depth rest
    return first ++ others

/-- How deep directives may be added one within the other: deeper than objects
    can be split, whatever keys are registered. Handlers that are made on demand
    do not change it unless they split objects themselves. -/
def depthLimit (r : Registry) : Nat := r.entries.entries.countP (fun entry => entry.2.handler.splitsMembers) + 1000

/-- A directive string with all its directives preprocessed. -/
def preprocessText (t : Text) : Work Text := do
  let r ← Work.registry
  return Pair.writeDirectives (← expandAll (depthLimit r) (Pair.split t))

end Bindmark.Directive
