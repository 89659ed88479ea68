import Netlist.Text.Span

/-!
# XML trees

The tree of an XML text, as far as a reader of drawings needs it: elements
with local names, attributes and byte ranges, and the texts between them.
-/

namespace Netlist.Xml

open Netlist.Text (Span)

/-- An attribute with its namespace, its local name and its value. -/
structure Attribute where
  uri : Option String
  name : String
  value : String
deriving DecidableEq, Repr

/-- A node of an XML tree. Comments and processing instructions hold their
place and nothing else. -/
inductive Node where
  | element (name : String) (attributes : List Attribute) (children : List Node) (span : Span)
  | text (value : String)
  | other

namespace Node

/-- Whether the node is an element. -/
def isElement : Node → Bool
  | .element .. => true
  | _ => false

/-- The local name of an element. -/
def name? : Node → Option String
  | .element name .. => some name
  | _ => none

/-- The attributes of an element in order, namespace declarations aside. -/
def attributes : Node → List Attribute
  | .element _ attributes .. => attributes
  | _ => []

/-- The children of an element in order. -/
def children : Node → List Node
  | .element _ _ children _ => children
  | _ => []

/-- The bytes of an element, from its `<` to its last `>`. -/
def span : Node → Span
  | .element _ _ _ span => span
  | _ => Span.of 0 0

/-- The value of the attribute with a name and no namespace. -/
def attribute? (n : Node) (name : String) : Option String :=
  (n.attributes.find? fun a => a.uri.isNone && a.name == name).map Attribute.value

/-- The first child element with a local name. -/
def child? (n : Node) (name : String) : Option Node :=
  n.children.find? fun c => c.name? == some name

/-- The text of an element whose first child is a text. -/
def leadingText? (n : Node) : Option String :=
  match n.children with
  | .text value :: _ => some value
  | _ => none

end Node

end Netlist.Xml
