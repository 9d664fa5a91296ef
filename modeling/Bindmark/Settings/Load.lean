import Bindmark.Datum.Read
import Bindmark.Settings.Basic
import Bindmark.Text.Lower

/-!
# Loading settings

Settings from environment variables and given values. A given value wins over
a variable, and what neither names keeps its default. All faults are reported
together, in the order of the fields.
-/

namespace Bindmark.Settings

/-! ## Fields -/

/-- How a field is set, by the type of its value. -/
inductive Field where
  | text (set : Settings → Text → Settings)
  | texts (set : Settings → List Text → Settings)
  | flag (set : Settings → Bool → Settings)

def fields : List (Text × Field) :=
  [(lit "open_token", .text fun s t => { s with openToken := t }),
   (lit "close_token", .text fun s t => { s with closeToken := t }),
   (lit "raw_text_containers", .texts fun s ts => { s with rawTextContainers := ts }),
   (lit "marker_prefix", .text fun s t => { s with markerWord := t }),
   (lit "directive_attribute", .text fun s t => { s with directiveAttribute := t }),
   (lit "attribute_namespace", .text fun s t => { s with attributeNamespace := t }),
   (lit "namespace_divider", .text fun s t => { s with namespaceDivider := t }),
   (lit "two_way_attributes", .texts fun s ts => { s with twoWayAttributes := ts }),
   (lit "unwrap_function", .text fun s t => { s with unwrapFunction := t }),
   (lit "filter_lookup", .text fun s t => { s with filterLookup := t }),
   (lit "preprocess_directives", .flag fun s b => { s with preprocessDirectives := b }),
   (lit "html_parser", .text fun s t => { s with htmlReader := t }),
   (lit "debug_mode", .flag fun s b => { s with debugMode := b })]

/-! ## Faults -/

/-- What is wrong with the value of a field. -/
inductive FieldFault where
  | notText
  | notList
  | itemNotText (index : Nat)
  /-- A text or number that is no truth value. -/
  | noFlag
  /-- A value of a type that is never a truth value. -/
  | notFlag
  | unknown
  deriving DecidableEq

def FieldFault.report (field : Text) : FieldFault → Text
  | .notText => field ++ lit ":string_type"
  | .notList => field ++ lit ":list_type"
  | .itemNotText index => field ++ lit "." ++ Text.ofNat index ++ lit ":string_type"
  | .noFlag => field ++ lit ":bool_parsing"
  | .notFlag => field ++ lit ":bool_type"
  | .unknown => field ++ lit ":extra_forbidden"

/-- Why settings could not be loaded. -/
inductive LoadError where
  /-- The variable of a list field is not JSON. -/
  | unreadable (field : Text)
  /-- Values that do not fit their fields. -/
  | invalid (faults : List (Text × FieldFault))
  deriving DecidableEq

def LoadError.message : LoadError → Text
  | .unreadable field =>
    lit "error parsing value for field \"" ++ field ++ lit "\" from source \"EnvSettingsSource\""
  | .invalid faults => Text.join (lit "; ") (faults.map fun (field, fault) => fault.report field)

/-! ## Values of fields -/

/-- The words for true and false, in lower case. -/
def flagWords : List (Text × Bool) :=
  [(lit "0", false), (lit "f", false), (lit "n", false), (lit "no", false), (lit "off", false),
   (lit "false", false), (lit "1", true), (lit "t", true), (lit "y", true), (lit "on", true),
   (lit "yes", true), (lit "true", true)]

/-- The truth value of a text, in any ASCII case. -/
def flagOfText? (t : Text) : Option Bool := flagWords.lookup (t.map Char.toLower)

/-- The number that whole numbers of 64 bits with a sign stay below. -/
def wordLimit : Int := 9223372036854775808

/-- The whole number that a number is, if it fits into 64 bits with a sign. A
    number of limited precision is never the least of those. -/
def wordOf? : Datum → Option Int
  | .int i => if -wordLimit ≤ i ∧ i < wordLimit then some i else none
  | .float x => x.toInt?.bind fun i => if -wordLimit < i ∧ i < wordLimit then some i else none
  | _ => none

/-- The truth value that a value stands for: a truth value itself, a word for
    one, or the number 0 or 1. -/
def flagOf : Datum → Except FieldFault Bool
  | .bool b => .ok b
  | .text t =>
    match flagOfText? t with
    | some b => .ok b
    | none => .error .noFlag
  | d =>
    match wordOf? d with
    | some 0 => .ok false
    | some 1 => .ok true
    | some _ => .error .noFlag
    | none => .error .notFlag

/-- The texts of a list, or the faults of its items from a position on. -/
def textsOf : Nat → List Datum → Except (List FieldFault) (List Text)
  | _, [] => .ok []
  | n, d :: rest =>
    match d, textsOf (n + 1) rest with
    | .text t, .ok ts => .ok (t :: ts)
    | .text _, .error faults => .error faults
    | _, .ok _ => .error [.itemNotText n]
    | _, .error faults => .error (.itemNotText n :: faults)

def Field.assign (field : Field) (s : Settings) (d : Datum) : Except (List FieldFault) Settings :=
  match field, d with
  | .text set, .text t => .ok (set s t)
  | .text _, _ => .error [.notText]
  | .texts set, .list items => (textsOf 0 items).map (set s)
  | .texts _, _ => .error [.notList]
  | .flag set, d =>
    match flagOf d with
    | .ok b => .ok (set s b)
    | .error fault => .error [fault]

/-! ## Loading -/

/-- What every environment variable of a setting begins with, in lower case. -/
def variableStart : Text := lit "punchline_"

/-- The last variable of a field; names are read in any case. -/
def lastVariable? (environment : List (Text × Text)) (field : Text) : Option Text :=
  (environment.reverse.find? fun (name, _) => name.lower == variableStart ++ field).map Prod.snd

/-- The value that the variables give to a field. The variable of a list is
    JSON, and null there is no value. -/
def environmentValue (environment : List (Text × Text)) (name : Text) (field : Field) :
    Except LoadError (Option Datum) :=
  match lastVariable? environment name, field with
  | none, _ => .ok none
  | some t, .texts _ =>
    match Datum.read? t with
    | some .null => .ok none
    | some d => .ok (some d)
    | none => .error (.unreadable name)
  | some t, _ => .ok (some (.text t))

/-- The values that the variables give to all fields. -/
def environmentValues (environment : List (Text × Text)) :
    List (Text × Field) → Except LoadError (List (Text × Datum))
  | [] => .ok []
  | (name, field) :: rest => do
    let value ← environmentValue environment name field
    let others ← environmentValues environment rest
    match value with
    | some d => return (name, d) :: others
    | none => return others

/-- The value that is given for a field, under its name in any case; the first
    one counts. -/
def givenValue? (given : List (Text × Datum)) (field : Text) : Option Datum :=
  (given.find? fun (name, _) => name.lower == field).map Prod.snd

/-- Settings with the value of one field, beside the faults so far. -/
def assignField (values : Text → Option Datum) (loaded : Settings × List (Text × FieldFault))
    (entry : Text × Field) : Settings × List (Text × FieldFault) :=
  match values entry.1 with
  | none => loaded
  | some d =>
    match entry.2.assign loaded.1 d with
    | .ok s => (s, loaded.2)
    | .error faults => (loaded.1, loaded.2 ++ faults.map (entry.1, ·))

/-- The given names that are no field, each with its fault. -/
def unknownFields (given : List (Text × Datum)) : List (Text × FieldFault) :=
  (given.filter fun (name, _) => !fields.any fun (field, _) => field == name.lower).map
    fun (name, _) => (name, .unknown)

/-- The settings of an environment and of given values. -/
def load (environment : List (Text × Text)) (given : List (Text × Datum)) :
    Except LoadError Settings := do
  let fromEnvironment ← environmentValues environment fields
  let value (field : Text) : Option Datum :=
    (givenValue? given field).or (fromEnvironment.lookup field)
  let (s, faults) := fields.foldl (assignField value) ({}, [])
  match faults ++ unknownFields given with
  | [] => return s
  | faults => throw (.invalid faults)

end Bindmark.Settings
