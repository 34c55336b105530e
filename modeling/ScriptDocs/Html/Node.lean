import ScriptDocs.Text.Basic

/-!
# Page nodes

The tree of a page: texts, comments and elements.  `Node.write` is the one place where a tree
becomes text, so it is also the one place where markup characters are escaped.  A comment that
holds two hyphens in a row would end early and cannot be written: `Node.writable` rules it out.
-/

namespace ScriptDocs.Html

structure Attribute where
  name : Text
  value : Text
deriving DecidableEq, Repr

inductive Node where
  | text (content : Text)
  | comment (content : Text)
  | element (name : Text) (attributes : List Attribute) (children : List Node)
deriving Repr

/-- A reading of markup: the nodes that a text stands for. -/
abbrev Parser := Text → List Node

/-- How a character is written in a text or in an attribute's value. -/
def escapeChar (c : Char) : Text :=
  if c = '&' then "&amp;".toList
  else if c = '<' then "&lt;".toList
  else if c = '"' then "&quot;".toList
  else if c = '>' then "&gt;".toList
  else [c]

/-- A text in which no character is markup. -/
def escape (t : Text) : Text := t.flatMap escapeChar

def Attribute.write (a : Attribute) : Text :=
  ' ' :: a.name ++ "=\"".toList ++ escape a.value ++ "\"".toList

mutual

/-- Whether the comments of a node can be written. -/
def Node.writable : Node → Bool
  | .text _ => true
  | .comment content => !Text.occurs "--".toList content
  | .element _ _ children => nodesWritable children

def nodesWritable : List Node → Bool
  | [] => true
  | n :: ns => n.writable && nodesWritable ns

end

mutual

/-- A node as text.  An element without children is one tag that closes itself. -/
def Node.write : Node → Text
  | .text content => escape content
  | .comment content => "<!--".toList ++ content ++ "-->".toList
  | .element name attributes [] => '<' :: name ++ attributes.flatMap Attribute.write ++ "/>".toList
  | .element name attributes (n :: ns) =>
    '<' :: name ++ attributes.flatMap Attribute.write ++ '>' :: (n.write ++ writeNodes ns) ++
      "</".toList ++ name ++ ['>']

def writeNodes : List Node → Text
  | [] => []
  | n :: ns => n.write ++ writeNodes ns

end

/-! ## Making nodes -/

/-- An element that holds a text, or nothing if the text is empty. -/
def Node.labelled (name content : Text) : Node :=
  .element name [] (if content.isEmpty then [] else [.text content])

/-- A link that shows `content` and leads to `target`. -/
def Node.link (content target : Text) : Node :=
  .element "a".toList [⟨"href".toList, target⟩] (if content.isEmpty then [] else [.text content])

end ScriptDocs.Html
