import Bindmark.Datum.Display
import Bindmark.Filter.Calls
import Bindmark.Pair.Object
import Bindmark.Reference
import Bindmark.Work

/-!
# Running the stages of a directive

A value is sent through the stages of its handler. On the way stages may add
directives; they are dealt with at once, and what comes of them is collected
in order.
-/

namespace Bindmark.Directive

/-- Work that collects pairs. -/
abbrev Collecting := StateT (List Pair) Work

/-- What becomes of a directive that a stage adds. -/
abbrev Adder := Pair → Work (List Pair)

/-- A directive is added, and what comes of it is collected. -/
def give (add : Adder) (p : Pair) : Collecting Unit := do
  let pairs ← (add p : Work (List Pair))
  modify (· ++ pairs)

/-- A value with its pipe filters as calls. A list or an object that does not
    hold a pipe as an item or as a key stays as it is. -/
def applyFilters : Datum → Work Datum
  | .text t => return .text (Filter.calls Filter.standardLookup t)
  | .list items =>
    if items.any (Datum.same (.text ['|'])) then throw (.notText (.list items))
    else return .list items
  | .object fields =>
    if fields.any fun (key, _) => key == ['|'] then throw (.notText (.object fields))
    else return .object fields
  | d => throw (.notContainer d)

def applyReferences : Datum → Work Datum
  | .text t => return .text (Reference.wrap t)
  | d => throw (.notText d)

/-- The text in which an object is looked for. -/
def textOf : Datum → Work Text
  | .text t => return t
  | d => throw (.lacks d (lit "lstrip"))

def apply (add : Adder) (key : Text) : Preprocessor → Datum → Collecting Datum
  | .filters, d => do applyFilters d
  | .references, d => do applyReferences d
  | .client c, d => do
    Work.trace (.preprocess c.name d key)
    let reply := c.respond d key
    reply.added.forM (give add)
    match reply.result with
    | .ok result => return result
    | .error f => throw (.raised f)
  | .notCallable given, _ => throw (.notCallable given)

/-! ## Objects -/

/-- An object is split into one directive for each member and is dropped;
    other values stay. -/
def splitMembers (add : Adder) (key t : Text) : Collecting Datum := do
  if Pair.isObject t then
    let r ← (Work.registry : Work Registry)
    (Pair.ofObject t).forM fun p => give add ⟨key ++ r.divider ++ p.key, p.value⟩
    return .null
  else return .text t

/-- The value of a property, after the preprocessing of that property. -/
def propertyValue (add : Adder) (table : Table (Pipeline Preprocessor)) (p : Pair) :
    Collecting Datum :=
  match table.get? p.key, p.value with
  | some pipeline, some value => pipeline.through Datum.truthy (apply add p.key) (.text value)
  | _, _ => return .ofText? p.value

/-- The properties that are left after preprocessing, with their values. -/
def propertyValues (add : Adder) (table : Table (Pipeline Preprocessor)) :
    List Pair → Collecting (List (Text × Text))
  | [] => return []
  | p :: rest => do
    let value ← propertyValue add table p
    let others ← propertyValues add table rest
    return if value.truthy then (p.key, value.display) :: others else others

/-- The properties of an object are preprocessed; other values stay. -/
def preprocessProperties (add : Adder) (h : Handler) (t : Text) : Collecting Text := do
  if Pair.isObject t then
    return Pair.writeObject (← propertyValues add (h.properties.getD .empty) (Pair.ofObject t))
  else return t

/-! ## Stages -/

def runStage (add : Adder) (h : Handler) (key : Text) : Stage → Datum → Collecting Datum
  | .apply p, d => apply add key p d
  | .members, d => do splitMembers add key (← textOf d)
  | .properties, d => return .text (← preprocessProperties add h (← textOf d))

/-- A value is sent through a pipeline of a handler: the result, and what comes
    of the directives added on the way. -/
def preprocess (add : Adder) (h : Handler) (key : Text) (pipeline : Pipeline Stage) (d : Datum) :
    Work (Datum × List Pair) :=
  (pipeline.through Datum.truthy (runStage add h key) d).run []

end Bindmark.Directive
