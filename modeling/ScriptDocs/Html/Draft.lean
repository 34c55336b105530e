import ScriptDocs.Html.Node

/-!
# Trees under construction

While a fragment is read, elements change their places: a formatting element that was closed too
late is opened again elsewhere, and what stood below it moves.  A draft therefore keeps no tree
but the list of placements, one for each node, with the label of the element below which the node
stands; the children of an element are its placements in order of age.  Moving a node is then one
new placement, and `Draft.nodes` reads the tree off at the end.

Label `0` is the root, which is no node of the fragment.
-/

namespace ScriptDocs.Html

structure Element where
  label : Nat
  name : Text
  attributes : List Attribute
deriving Repr

inductive Item where
  | text (content : Text)
  | comment (content : Text)
  | element (e : Element)
deriving Repr

structure Placement where
  parent : Nat
  item : Item
deriving Repr

/-- The placements of a draft, youngest first, and the next unused label. -/
structure Draft where
  placements : List Placement
  next : Nat
deriving Repr

namespace Draft

def empty : Draft := ⟨[], 1⟩

def Placement.isOf (label : Nat) (p : Placement) : Bool :=
  match p.item with
  | .element e => e.label == label
  | _ => false

/-- Adds a node behind the children of `parent`. -/
def add (d : Draft) (parent : Nat) (item : Item) : Draft :=
  { d with placements := ⟨parent, item⟩ :: d.placements }

def hasChildren (d : Draft) (label : Nat) : Bool := d.placements.any (·.parent == label)

/-- A new element with an unused label, not yet placed. -/
def fresh (d : Draft) (name : Text) (attributes : List Attribute) : Element × Draft :=
  (⟨d.next, name, attributes⟩, { d with next := d.next + 1 })

/-- Takes an element with all below it from where it stands and puts it behind the children of
`parent`. -/
def move (d : Draft) (parent : Nat) (e : Element) : Draft :=
  { d with placements :=
      ⟨parent, .element e⟩ :: d.placements.filter fun p => !Placement.isOf e.label p }

/-- Moves all children of one element, in order, below another. -/
def moveChildren (d : Draft) (source target : Nat) : Draft :=
  { d with placements := d.placements.map fun p =>
      if p.parent == source then { p with parent := target } else p }

/-- The nodes below an element, down to the given depth. -/
def nodesBelow (d : Draft) : Nat → Nat → List Node
  | 0, _ => []
  | depth + 1, label =>
    (d.placements.reverse.filter (·.parent == label)).map fun p =>
      match p.item with
      | .text content => .text content
      | .comment content => .comment content
      | .element e => .element e.name e.attributes (d.nodesBelow depth e.label)

def nodes (d : Draft) : List Node := d.nodesBelow (d.placements.length + 1) 0

end Draft

end ScriptDocs.Html
