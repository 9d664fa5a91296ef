import Bindmark.Fault
import Bindmark.Handler.Basic

/-!
# The registry

The handlers by their keys, the keys that comment markers may hold, and what
makes handlers on demand. Every handler has a serial number, by which it is
known also when its key has gone to another one.
-/

namespace Bindmark

/-- A handler and its serial number. -/
structure Entry where
  serial : Nat
  handler : Handler

/-- A client's function that makes handlers for keys with a common start. -/
structure CreatorClient where
  /-- What the keys begin with. -/
  start : Text
  /-- Whether the handlers are registered under their keys. -/
  stores : Bool
  respond : Text → Text → Option Handler

/-- What makes handlers for keys that are not registered. -/
inductive Creator where
  | namespaces
  | client (c : CreatorClient)

structure Registry where
  entries : Table Entry := .empty
  /-- Handlers that no key leads to, but that a client may still hold. -/
  loose : List Entry := []
  /-- The keys that comment markers may hold. -/
  virtual : List Text := []
  creators : List Creator := [.namespaces]
  /-- Stands between a namespace and its member. -/
  divider : Text
  nextSerial : Nat := 0

namespace Registry

/-! ## Reading -/

def isVirtual (r : Registry) (key : Text) : Bool := r.virtual.contains key

/-- The entry of a serial number. -/
def entryOf? (r : Registry) (serial : Nat) : Option Entry :=
  ((r.entries.entries.map Prod.snd) ++ r.loose).find? fun e => e.serial == serial

/-- Namespace and member of a key: it is cut at its first character that
    belongs to the divider, where the whole divider has to stand. Neither is
    empty, and the member is on one line. -/
def splitKey? (divider key : Text) : Option (Text × Text) :=
  let ns := key.takeWhile fun c => !divider.contains c
  match Text.dropLeading? divider (key.drop ns.length) with
  | none => none
  | some member =>
    if ns.isEmpty || member.isEmpty || member.contains '\n' then none else some (ns, member)

/-! ## Changing -/

/-- The entry that the next new handler gets. -/
def nextEntry (r : Registry) (h : Handler) : Entry := ⟨r.nextSerial, h⟩

/-- A registry with a new handler under a key; an old one there becomes loose. -/
def store (r : Registry) (key : Text) (h : Handler) : Registry :=
  { r with
    entries := r.entries.insert key (r.nextEntry h)
    loose := r.loose ++ (r.entries.get? key).toList
    nextSerial := r.nextSerial + 1 }

/-- A registry with a new handler under no key. -/
def storeLoose (r : Registry) (h : Handler) : Registry :=
  { r with loose := r.loose ++ [r.nextEntry h], nextSerial := r.nextSerial + 1 }

/-- A registry in which comment markers may hold a directive. -/
def allowVirtual (r : Registry) (key : Text) : Registry :=
  { r with virtual := if r.virtual.contains key then r.virtual else r.virtual ++ [key] }

/-- An entry with its handler changed, if it has a serial number. -/
def changeEntry (serial : Nat) (f : Handler → Handler) (e : Entry) : Entry :=
  if e.serial = serial then ⟨e.serial, f e.handler⟩ else e

/-- A registry with the handler of a serial number changed. -/
def change (r : Registry) (serial : Nat) (f : Handler → Handler) : Registry :=
  { r with
    entries := r.entries.map fun _ e => changeEntry serial f e
    loose := r.loose.map (changeEntry serial f) }

/-! ## The registry of the runtime -/

/-- The directives of the runtime: key, whether comment markers may hold it,
    and what it does. -/
def builtins : List (Text × Bool × Text) :=
  [(lit "text", true, lit "Escaped text output"),
   (lit "html", true, lit "Unescaped HTML output"),
   (lit "if", true, lit "Render content when the value is truthy"),
   (lit "ifnot", true, lit "Render content when the value is falsy"),
   (lit "with", true, lit "Render content in the context of the value"),
   (lit "foreach", true, lit "Render content once per item of the value"),
   (lit "template", true, lit "Render a named template"),
   (lit "component", true, lit "Render a registered component"),
   (lit "let", true, lit "Extend the context with extra properties"),
   (lit "visible", false, lit "Toggle element visibility"),
   (lit "attr", false, lit "Set element attributes from an object map"),
   (lit "css", false, lit "Toggle CSS classes from an object map"),
   (lit "style", false, lit "Set inline styles from an object map"),
   (lit "event", false, lit "Attach event handlers from an object map"),
   (lit "click", false, lit "Attach a click handler"),
   (lit "submit", false, lit "Attach a submit handler"),
   (lit "enable", false, lit "Enable a form control"),
   (lit "disable", false, lit "Disable a form control"),
   (lit "value", false, lit "Two-way bind a form control value"),
   (lit "checked", false, lit "Two-way bind a checkbox or radio state"),
   (lit "options", false, lit "Populate a select element")]

/-- A registry with one of the directives of the runtime. -/
def addBuiltin (r : Registry) : Text × Bool × Text → Registry
  | (key, isVirtual, description) =>
    let r := r.store key { description }
    if isVirtual then r.allowVirtual key else r

/-- A registry with a divider, which must not be empty, and with the
    directives of the runtime if they are wanted. -/
def make (withBuiltins : Bool) (divider : Text) : Except Fault Registry :=
  if divider.isEmpty then .error .emptyDivider
  else
    let r : Registry := { divider }
    .ok (if withBuiltins then builtins.foldl addBuiltin r else r)

end Registry
end Bindmark
