import Bindmark.Fault
import Bindmark.Pair.Basic
import Bindmark.Pipeline
import Bindmark.Table

/-!
# Handlers

The handler of a directive: the hooks of the runtime, the preprocessing of
its value, and how handlers of the members of its namespace are made.
Functions of clients are pure; what they are called with is traced.
-/

namespace Bindmark

/-! ## Preprocessors -/

/-- What a client's preprocessor does with a value: it adds directives, then
    gives a result or gives up. -/
structure Reply where
  added : List Pair := []
  result : Except Failure Datum

/-- A client's preprocessor, called with a value and the key it stands under. -/
structure Client where
  name : Text
  respond : Datum → Text → Reply

inductive Preprocessor where
  /-- Makes calls of pipe filters. -/
  | filters
  /-- Wraps references to functions. -/
  | references
  | client (c : Client)
  /-- A value that was given for a preprocessor and is none. -/
  | notCallable (given : Datum)

/-- A stage in the preprocessing of a directive. -/
inductive Stage where
  | apply (p : Preprocessor)
  /-- Splits an object into one directive for each of its members. -/
  | members
  /-- Runs the preprocessors of the properties of an object. -/
  | properties

def Stage.isMembers : Stage → Bool
  | .apply _ => false
  | .members => true
  | .properties => false

/-- The pipeline in a slot once a preprocessor is added; null leaves an empty
    slot empty. -/
def Preprocessor.addTo (slot : Option (Pipeline Stage)) (p : Preprocessor) :
    Option (Pipeline Stage) :=
  match slot, p with
  | none, .notCallable .null => none
  | slot, p => some (Pipeline.chain slot (.stage (.apply p)))

/-! ## Hooks -/

/-- What a client's function was called with. -/
inductive Call where
  | preprocess (name : Text) (value : Datum) (key : Text)
  | create (member key : Text)
  | synthesize (member ns key : Text)
  | hook (name : Text) (element value : Datum) (arguments : List Datum)
  | node (name label : Text)

/-- A hook of the runtime. -/
inductive Hook where
  | client (name : Text) (respond : Datum → Datum → List Datum → Datum)
  /-- The hook of a namespace, called for one member. -/
  | member (name : Text) (hook : Hook)

/-- What a hook calls and what it returns. A hook of a member hands the value
    on as an object of that member. -/
def Hook.run : Hook → (element value : Datum) → (arguments : List Datum) → Call × Datum
  | .client name respond, element, value, arguments =>
    (.hook name element value arguments, respond element value arguments)
  | .member name hook, element, value, arguments =>
    hook.run element (.object [(name, value)]) arguments

/-! ## Handlers -/

mutual
/-- The handler of a directive. -/
structure Handler where
  init : Option Hook := none
  update : Option Hook := none
  preprocess : Option (Pipeline Stage) := none
  /-- How handlers of members are made, if not in the standard way. -/
  synthesis : Option Synthesis := none
  /-- Directives that come before this one. -/
  after : List Text := []
  description : Text := []
  /-- The preprocessing of the properties of an object. -/
  properties : Option (Table (Pipeline Preprocessor)) := none

/-- How handlers of members are made: where they come from, and the
    preprocessors that each of them gets. -/
structure Synthesis where
  source : SynthesisSource
  added : List Preprocessor := []

/-- Where handlers of members come from. -/
inductive SynthesisSource where
  /-- They are derived from the handler of the namespace. -/
  | standard
  /-- A client makes them from the member, the namespace and the key. -/
  | client (respond : Text → Text → Text → Except Failure (Option Handler))
end

namespace Handler

instance : Inhabited Handler := ⟨{}⟩

/-- The handler of a member of a namespace. Its hooks are those of the
    namespace called for the member; the preprocessing of the namespace is
    not its own. -/
def derive (h : Handler) (member : Text) : Handler :=
  { h with
    init := h.init.map (.member member)
    update := h.update.map (.member member)
    preprocess := none
    properties := none }

/-- Whether objects under the key of a handler are split. -/
def splitsMembers (h : Handler) : Bool := h.preprocess.any fun pipeline => pipeline.toList.any Stage.isMembers

def addPreprocessor (h : Handler) (p : Preprocessor) : Handler :=
  { h with preprocess := p.addTo h.preprocess }

def addStage (h : Handler) (s : Stage) : Handler :=
  { h with preprocess := some (Pipeline.chain h.preprocess (.stage s)) }

/-- A handler with a preprocessor added for members of its namespace. -/
def addMemberPreprocessor (h : Handler) (p : Preprocessor) : Handler :=
  let synthesis := h.synthesis.getD { source := .standard }
  { h with synthesis := some { synthesis with added := synthesis.added ++ [p] } }

/-- A handler with a preprocessor added for a property. The first one brings
    the table of properties and the stage that runs it. -/
def addPropertyPreprocessor (h : Handler) (property : Text) (p : Preprocessor) : Handler :=
  let (h, table) := match h.properties with
    | some table => (h, table)
    | none => (h.addStage .properties, Table.empty)
  let pipeline := Pipeline.chain (table.get? property) (.stage p)
  { h with properties := some (table.insert property pipeline) }

end Handler
end Bindmark
