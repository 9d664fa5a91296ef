import Bindmark.Html.Tree

/-!
# Writing documents

A document as a source. Text and attribute values have their markup
characters escaped; scripts, styles and comments are written as they are.
Attributes are written in the order of their names.
-/

namespace Bindmark.Html

/-! ## Characters -/

def escapeChar (c : Char) : Text :=
  if c = '&' then lit "&amp;" else if c = '<' then lit "&lt;" else if c = '>' then lit "&gt;" else [c]

def escape (t : Text) : Text := t.flatMap escapeChar

/-- An attribute value in double quotes, in single quotes if it holds double
    ones only, and with its double quotes escaped if it holds both. -/
def quoteValue (t : Text) : Text :=
  let t := escape t
  if !t.contains '"' then lit "\"" ++ t ++ lit "\""
  else if !t.contains '\'' then lit "'" ++ t ++ lit "'"
  else lit "\"" ++ Text.replaceChar '"' (lit "&quot;") t ++ lit "\""

/-! ## Nodes -/

/-- An attribute, with a space before it. -/
def writeAttribute (name : Text) : AttributeValue → Text
  | .bare => lit " " ++ name
  | value => lit " " ++ name ++ lit "=" ++ quoteValue value.joined

def writeLeaf (parent : Option Text) (kind : LeafKind) (t : Text) : Text :=
  match kind with
  | .comment => lit "<!--" ++ t ++ lit "-->"
  | .cdata => lit "<![CDATA[" ++ t ++ lit "]]>"
  | .doctype => lit "<!DOCTYPE " ++ t ++ lit ">\n"
  | _ =>
    match parent with
    | none => escape t
    | some tag => if rawElements.contains tag then t else escape t

/-- The attributes of an element, in the order of their names. -/
def writeAttributes (attributes : Table AttributeValue) : Text :=
  (attributes.entries.mergeSort fun a b => Text.atMost a.1 b.1).flatMap fun (k, v) =>
    writeAttribute k v

mutual
def writeNode (parent : Option Text) : Node → Text
  | .leaf kind t => writeLeaf parent kind t
  | .element tag attributes children =>
    let start := lit "<" ++ tag ++ writeAttributes attributes
    if voidElements.contains tag && children.isEmpty then start ++ lit "/>"
    else start ++ lit ">" ++ writeNodes (some tag) children ++ lit "</" ++ tag ++ lit ">"

def writeNodes (parent : Option Text) : List Node → Text
  | [] => []
  | node :: rest => writeNode parent node ++ writeNodes parent rest
end

def write (nodes : List Node) : Text := writeNodes none nodes

end Bindmark.Html
