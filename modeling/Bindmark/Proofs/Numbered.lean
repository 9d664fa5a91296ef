import Bindmark.Proofs.Rewriting

/-!
# Trees whose nodes have numbers

A tree that is edited where it stands: its nodes are told apart by numbers,
found by them with the tag of their parent, and replaced by them. Around a
place in a tree there is a frame, and a number that does not stand in the frame
is found and edited within the place.
-/

namespace Bindmark

/-- A node with a number, and so all that are below it. -/
inductive Item where
  | element (id : Nat) (tag : Text) (attributes : Table AttributeValue) (children : List Item)
  | leaf (id : Nat) (kind : LeafKind) (text : Text)

namespace Numbered

/-! ## Numbers -/

mutual
/-- The node without its numbers. -/
def node : Item → Node
  | .element _ tag attributes children => .element tag attributes (nodes children)
  | .leaf _ kind t => .leaf kind t

/-- The nodes of a list without their numbers. -/
def nodes : List Item → List Node
  | [] => []
  | item :: rest => node item :: nodes rest
end

mutual
/-- The numbers of a node and of all that are below it, in document order. -/
def ids : Item → List Nat
  | .element id _ _ children => id :: idsIn children
  | .leaf id _ _ => [id]

/-- The numbers of all the nodes in a list, in document order. -/
def idsIn : List Item → List Nat
  | [] => []
  | item :: rest => ids item ++ idsIn rest
end

mutual
/-- A node with numbers given from `n` on, in document order. -/
def number (n : Nat) : Node → Item
  | .element tag attributes children => .element n tag attributes (numberAll (n + 1) children)
  | .leaf kind t => .leaf n kind t

/-- Nodes with numbers given from `n` on, in document order. -/
def numberAll (n : Nat) : List Node → List Item
  | [] => []
  | node :: rest => number n node :: numberAll (n + Rewriting.size node) rest
end

/-- The number of a node itself. -/
def idOf : Item → Nat
  | .element id _ _ _ => id
  | .leaf id _ _ => id

theorem nodes_append (before after : List Item) : nodes (before ++ after) = nodes before ++ nodes after := by
  induction before with
  | nil => rfl
  | cons item rest ih => simp only [List.cons_append, nodes, ih]

theorem idsIn_append (before after : List Item) : idsIn (before ++ after) = idsIn before ++ idsIn after := by
  induction before with
  | nil => rfl
  | cons item rest ih => simp only [List.cons_append, idsIn, ih, List.append_assoc]

mutual
theorem node_number (n : Nat) : ∀ a : Node, node (number n a) = a
  | .element tag attributes children => by rw [number, node, nodes_numberAll]
  | .leaf kind t => by rw [number, node]

theorem nodes_numberAll (n : Nat) : ∀ all : List Node, nodes (numberAll n all) = all
  | [] => by rw [numberAll, nodes]
  | a :: rest => by rw [numberAll, nodes, node_number n a, nodes_numberAll _ rest]
end

mutual
theorem ids_number (n : Nat) : ∀ a : Node, ids (number n a) = List.range' n (Rewriting.size a)
  | .element tag attributes children => by
    rw [number, ids, idsIn_numberAll, Rewriting.size, Nat.add_comm 1, List.range'_succ]
  | .leaf kind t => by rw [number, ids, Rewriting.size, List.range'_one]

/-- Numbers are given one after the other in document order. -/
theorem idsIn_numberAll (n : Nat) : ∀ all : List Node,
    idsIn (numberAll n all) = List.range' n (Rewriting.sizes all)
  | [] => by rw [numberAll, idsIn, Rewriting.sizes, List.range'_zero]
  | a :: rest => by
    rw [numberAll, idsIn, ids_number n a, idsIn_numberAll _ rest, Rewriting.sizes, List.range'_append_1]
end

/-! ## Finding and editing -/

mutual
/-- The node of a number, with the tag of its parent, in a node under a parent. -/
def find? (i : Nat) (parent : Text) : Item → Option (Text × Item)
  | .element id tag attributes children =>
    if id = i then some (parent, .element id tag attributes children) else findIn? i tag children
  | .leaf id kind t => if id = i then some (parent, .leaf id kind t) else none

/-- The node of a number, with the tag of its parent, among the children of a
    parent. -/
def findIn? (i : Nat) (parent : Text) : List Item → Option (Text × Item)
  | [] => none
  | item :: rest => (find? i parent item).or (findIn? i parent rest)
end

mutual
/-- What a node becomes when others take the place of the one of a number. -/
def edit (i : Nat) (f : Item → List Item) : Item → List Item
  | .element id tag attributes children =>
    if id = i then f (.element id tag attributes children)
    else [.element id tag attributes (editIn i f children)]
  | .leaf id kind t => if id = i then f (.leaf id kind t) else [.leaf id kind t]

/-- Nodes where others have taken the place of the one of a number. -/
def editIn (i : Nat) (f : Item → List Item) : List Item → List Item
  | [] => []
  | item :: rest => edit i f item ++ editIn i f rest
end

theorem findIn?_append (i : Nat) (parent : Text) (before after : List Item) :
    findIn? i parent (before ++ after) = (findIn? i parent before).or (findIn? i parent after) := by
  induction before with
  | nil => rfl
  | cons item rest ih => simp only [List.cons_append, findIn?, ih, Option.or_assoc]

theorem editIn_append (i : Nat) (f : Item → List Item) (before after : List Item) :
    editIn i f (before ++ after) = editIn i f before ++ editIn i f after := by
  induction before with
  | nil => rfl
  | cons item rest ih => simp only [List.cons_append, editIn, ih, List.append_assoc]

mutual
theorem find?_of_notMem {i : Nat} (parent : Text) : ∀ {item : Item}, i ∉ ids item → find? i parent item = none
  | .element id tag attributes children, absent => by
    rw [ids, List.mem_cons, not_or] at absent
    rw [find?, if_neg (Ne.symm absent.1), findIn?_of_notMem tag absent.2]
  | .leaf id kind t, absent => by
    rw [ids, List.mem_singleton] at absent
    rw [find?, if_neg (Ne.symm absent)]

theorem findIn?_of_notMem {i : Nat} (parent : Text) :
    ∀ {items : List Item}, i ∉ idsIn items → findIn? i parent items = none
  | [], _ => by rw [findIn?]
  | item :: rest, absent => by
    rw [idsIn, List.mem_append, not_or] at absent
    rw [findIn?, find?_of_notMem parent absent.1, findIn?_of_notMem parent absent.2, Option.none_or]
end

mutual
theorem edit_of_notMem {i : Nat} (f : Item → List Item) : ∀ {item : Item}, i ∉ ids item → edit i f item = [item]
  | .element id tag attributes children, absent => by
    rw [ids, List.mem_cons, not_or] at absent
    rw [edit, if_neg (Ne.symm absent.1), editIn_of_notMem f absent.2]
  | .leaf id kind t, absent => by
    rw [ids, List.mem_singleton] at absent
    rw [edit, if_neg (Ne.symm absent)]

theorem editIn_of_notMem {i : Nat} (f : Item → List Item) :
    ∀ {items : List Item}, i ∉ idsIn items → editIn i f items = items
  | [], _ => by rw [editIn]
  | item :: rest, absent => by
    rw [idsIn, List.mem_append, not_or] at absent
    rw [editIn, edit_of_notMem f absent.1, editIn_of_notMem f absent.2, List.singleton_append]
end

/-! ## Frames -/

/-- The surroundings of a place under a parent: numbers that do not stand there
    are found and edited in the place. -/
structure Frame (around : List Item → List Item) (parent : Text) (taken : List Nat) : Prop where
  find : ∀ {i : Nat} (items : List Item), i ∉ taken →
    findIn? i Document.rootTag (around items) = findIn? i parent items
  edit : ∀ {i : Nat} (f : Item → List Item) (items : List Item), i ∉ taken →
    editIn i f (around items) = around (editIn i f items)

/-- Around the whole document there is nothing. -/
theorem Frame.whole : Frame (fun items => items) Document.rootTag [] :=
  ⟨fun _ _ => rfl, fun _ _ _ => rfl⟩

variable {around : List Item → List Item} {parent : Text} {taken : List Nat}

/-- A place between two others. -/
theorem Frame.between (frame : Frame around parent taken) (before after : List Item) :
    Frame (fun items => around (before ++ items ++ after)) parent (taken ++ (idsIn before ++ idsIn after)) where
  find := by
    intro i items free
    simp only [List.mem_append, not_or] at free
    obtain ⟨outside, notBefore, notAfter⟩ := free
    rw [frame.find _ outside, findIn?_append, findIn?_append, findIn?_of_notMem parent notBefore,
      findIn?_of_notMem parent notAfter, Option.none_or, Option.or_none]
  edit := by
    intro i f items free
    simp only [List.mem_append, not_or] at free
    obtain ⟨outside, notBefore, notAfter⟩ := free
    rw [frame.edit _ _ outside, editIn_append, editIn_append, editIn_of_notMem f notBefore,
      editIn_of_notMem f notAfter]

/-- The place below an element. -/
theorem Frame.below (frame : Frame around parent taken) (id : Nat) (tag : Text)
    (attributes : Table AttributeValue) :
    Frame (fun items => around [.element id tag attributes items]) tag (id :: taken) where
  find := by
    intro i items free
    rw [List.mem_cons, not_or] at free
    rw [frame.find _ free.2, findIn?, find?, if_neg (Ne.symm free.1), findIn?, Option.or_none]
  edit := by
    intro i f items free
    rw [List.mem_cons, not_or] at free
    rw [frame.edit _ _ free.2, editIn, Numbered.edit, if_neg (Ne.symm free.1), editIn, List.append_nil]

end Numbered
end Bindmark
