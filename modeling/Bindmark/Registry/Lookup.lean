import Bindmark.Work

/-!
# Looking handlers up

The handler of a key is the one registered there. When there is none, the
creators are asked one after the other. The creator that every registry has
makes the handler of a member from that of its namespace, and registers it.
-/

namespace Bindmark.Registry

/-! ## Making handlers for members -/

/-- The handler that a namespace makes for a member, if any. -/
def synthesize (h : Handler) (member ns key : Text) : Work (Option Handler) := do
  let synthesis := h.synthesis.getD { source := .standard }
  let made ← match synthesis.source with
    | .standard => pure (some (h.derive member))
    | .client respond => do
      Work.trace (.synthesize member ns key)
      match respond member ns key with
      | .ok made => pure made
      | .error f => throw (.raised f)
  return made.map fun made => synthesis.added.foldl Handler.addPreprocessor made

/-- A new handler is registered; the entry it gets is returned. -/
def storeNew (key : Text) (h : Handler) : Work Entry := do
  let r ← Work.registry
  Work.changeRegistry fun r => r.store key h
  return r.nextEntry h

/-- The handler of a member of a registered namespace is made and registered.
    Comment markers may hold it if they may hold the namespace. -/
def createMember (key : Text) : Work (Option Entry) := do
  let r ← Work.registry
  match splitKey? r.divider key with
  | none => return none
  | some (ns, member) =>
    match r.entries.get? ns with
    | none => return none
    | some entry =>
      match ← synthesize entry.handler member ns key with
      | none => return none
      | some h =>
        if r.isVirtual ns then Work.changeRegistry fun r => r.allowVirtual key
        let made ← storeNew key h
        Work.log (.synthesized key ns)
        return some made

/-! ## Creators -/

/-- A client is asked for the handler of a key, if the key has the start that
    the client waits for and goes on on one line. -/
def CreatorClient.create (c : CreatorClient) (key : Text) : Work (Option Entry) := do
  match Text.dropLeading? c.start key with
  | none => return none
  | some member =>
    if member.isEmpty || member.contains '\n' then return none
    else
      Work.trace (.create member key)
      match c.respond member key with
      | none => return none
      | some h =>
        if c.stores then return some (← storeNew key h)
        else
          let r ← Work.registry
          Work.changeRegistry fun r => r.storeLoose h
          return some (r.nextEntry h)

def create (key : Text) : Creator → Work (Option Entry)
  | .namespaces => createMember key
  | .client c => CreatorClient.create c key

/-- The creators are asked one after the other until one makes a handler. -/
def createFirst (key : Text) : List Creator → Work (Option Entry)
  | [] => return none
  | c :: rest => do
    match ← create key c with
    | some entry => return some entry
    | none => createFirst key rest

/-- The entry of a key: the registered one, or one that a creator makes. -/
def lookup (key : Text) : Work (Option Entry) := do
  let r ← Work.registry
  match r.entries.get? key with
  | some entry => return some entry
  | none => createFirst key r.creators

end Bindmark.Registry
