import ScriptDocs.Html.Draft
import ScriptDocs.Html.Token
import ScriptDocs.Text.Lines

/-!
# Fragments

The nodes that a text with markup stands for.  Tags need not be balanced: an open paragraph ends
where a block begins, an item ends where the next one begins, and a formatting element that was
not closed in time is split, so that its closing tag still ends the formatting and the blocks
around it stay whole (`Builder.closeFormatting`).

* `Builder`: the draft with the open elements and the formatting that is in force.
* `Builder.take`: what one token does.
* `fragment`: the nodes of a text.
-/

namespace ScriptDocs.Html

/-! ## Kinds of elements -/

/-- Elements that only set the look of the text in them. -/
def formattingNames : List Text :=
  ["a", "b", "big", "code", "em", "font", "i", "nobr", "s", "small", "strike", "strong", "tt",
   "u"].map String.toList

def headingNames : List Text := ["h1", "h2", "h3", "h4", "h5", "h6"].map String.toList

/-- Blocks: their opening tag ends an open paragraph. -/
def blockNames : List Text :=
  ["address", "article", "aside", "blockquote", "center", "details", "dir", "div", "dl",
   "fieldset", "figcaption", "figure", "footer", "header", "hgroup", "main", "menu", "nav", "ol",
   "p", "section", "summary", "ul"].map String.toList

/-- Blocks in which line breaks count. -/
def verbatimNames : List Text := ["pre", "listing"].map String.toList

def itemNames : List Text := ["li", "dd", "dt"].map String.toList

/-- Elements without content that stand in a line of text. -/
def inlineVoidNames : List Text :=
  ["area", "br", "embed", "img", "input", "keygen", "wbr"].map String.toList

/-- Elements without content that do not stand in a line of text. -/
def otherVoidNames : List Text :=
  ["base", "basefont", "bgsound", "command", "link", "meta", "param", "source",
   "track"].map String.toList

/-- Elements that have no place in a fragment: their opening tags are ignored. -/
def misplacedNames : List Text :=
  ["html", "head", "body", "frameset", "frame", "caption", "col", "colgroup", "tbody", "td",
   "tfoot", "th", "thead", "tr"].map String.toList

/-- Elements that the closing tag of an unknown element does not reach across, and below which
formatting is split. -/
def specialNames : List Text :=
  ["address", "article", "aside", "blockquote", "center", "dd", "details", "dir", "div", "dl",
   "dt", "fieldset", "figure", "footer", "h1", "h2", "h3", "h4", "h5", "h6", "header", "li",
   "listing", "menu", "nav", "ol", "p", "pre", "section", "ul"].map String.toList

/-- Special elements in which an item still belongs to the list around them. -/
def looseNames : List Text := ["address", "div", "p"].map String.toList

/-- Elements whose closing tag ends them, whatever is open inside. -/
def closableNames : List Text :=
  (["address", "article", "aside", "blockquote", "center", "details", "dialog", "dir", "div",
    "dl", "fieldset", "figcaption", "figure", "footer", "header", "hgroup", "main", "menu", "nav",
    "ol", "section", "summary", "ul"].map String.toList) ++ verbatimNames

/-! ## The builder -/

/-- A fragment as far as it has been read: the draft, the open elements with the innermost first,
the formatting elements in force with the oldest first, and whether a line feed that comes next
is dropped. -/
structure Builder where
  draft : Draft
  opened : List Element
  active : List Element
  dropBreak : Bool
deriving Repr

namespace Builder

def start : Builder := ⟨.empty, [], [], false⟩

/-- The label of the innermost open element, or the root's. -/
def current (b : Builder) : Nat := (b.opened.head?.map (·.label)).getD 0

def isOpen (b : Builder) (e : Element) : Bool := b.opened.any (·.label == e.label)

/-- The attributes that an element takes from its tag: of two with one local name, which is the
part behind the first colon, the later one stands. -/
def settle (attributes : List Attribute) : List Attribute :=
  let localName (a : Attribute) : Text :=
    if a.name.contains ':' then (a.name.dropWhile (· ≠ ':')).drop 1 else a.name
  attributes.foldl (fun kept a => kept.filter (localName · ≠ localName a) ++ [a]) []

def openElement (b : Builder) (name : Text) (attributes : List Attribute) : Builder :=
  let (e, draft) := b.draft.fresh name (settle attributes)
  { b with draft := draft.add b.current (.element e), opened := e :: b.opened }

def closeInnermost (b : Builder) : Builder := { b with opened := b.opened.drop 1 }

/-- Closes the open elements up to and with the innermost that satisfies `p`. -/
def closeThrough (b : Builder) (p : Element → Bool) : Builder :=
  { b with opened := (b.opened.dropWhile fun e => !p e).drop 1 }

/-- Whether an element of the name is open, not looking beyond one of the names `bounds`. -/
def inScope (bounds : List Text) (name : Text) : List Element → Bool
  | [] => false
  | e :: es => e.name = name || (!bounds.contains e.name && inScope bounds name es)

def endParagraph (b : Builder) : Builder :=
  if b.opened.any (·.name = "p".toList) then b.closeThrough (·.name = "p".toList) else b

def addVoid (b : Builder) (name : Text) (attributes : List Attribute) : Builder :=
  (b.openElement name attributes).closeInnermost

/-! ## Formatting -/

/-- Opens the formatting elements in force that are no longer open, from the oldest of the
unbroken run of them at the end of the list. -/
def restore (b : Builder) : Builder :=
  let lapsed := (b.active.reverse.takeWhile fun e => !b.isOpen e).reverse
  lapsed.foldl (fun b e =>
    let b' := b.openElement e.name e.attributes
    match b'.opened with
    | [] => b'
    | copy :: _ =>
      { b' with active := b'.active.map fun f => if f.label == e.label then copy else f }) b

def addText (b : Builder) (content : Text) : Builder :=
  let b := b.restore
  { b with draft := b.draft.add b.current (.text content) }

/-- Whether two elements have one name and the same attributes in any order. -/
def alike (e f : Element) : Bool :=
  e.name = f.name && e.attributes.length == f.attributes.length &&
    e.attributes.all fun a => f.attributes.contains a

/-- Opens a formatting element.  Of four alike only the last three stay in force. -/
def openFormatting (b : Builder) (name : Text) (attributes : List Attribute) : Builder :=
  let b := b.openElement name attributes
  match b.opened with
  | [] => b
  | e :: _ =>
    let same := b.active.filter (alike e)
    let active := match same with
      | oldest :: _ :: _ :: _ => b.active.filter (·.label != oldest.label)
      | _ => b.active
    { b with active := active ++ [e] }

/-- The closing tag of an element that has no rules of its own: it ends the innermost element of
that name, unless a special element is open inside. -/
def closeOther (b : Builder) (name : Text) : Builder :=
  let reached := (b.opened.takeWhile fun e => e.name ≠ name)
  if b.opened.any (·.name = name) && reached.all (fun e => !specialNames.contains e.name) then
    b.closeThrough (·.name = name)
  else b

/-- The state of the walk from a block up to a formatting element: the elements kept open on the
way with the innermost first, the topmost of what moves, and where the formatting is to be put
back in force. -/
structure Ascent where
  draft : Draft
  active : List Element
  kept : List Element
  last : Element
  bookmark : Nat

/-- Walks at most `budget` elements up.  An element that is no formatting in force is closed where
it stands; a formatting element is copied, and what moves goes below the copy. -/
def ascend (block : Element) : Nat → List Element → Ascent → Ascent
  | 0, way, a => { a with kept := a.kept ++ way }
  | _ + 1, [], a => a
  | budget + 1, e :: way, a =>
    match a.active.findIdx? (·.label == e.label) with
    | none => ascend block budget way a
    | some i =>
      let bookmark := if a.last.label == block.label then i + 1 else a.bookmark
      let (copy, draft) := a.draft.fresh e.name e.attributes
      ascend block budget way
        { draft := draft.move copy.label a.last
          active := a.active.map fun f => if f.label == e.label then copy else f
          kept := a.kept ++ [copy]
          last := copy
          bookmark := bookmark }

/-- Splits the formatting element `e` at the block inside it: the block moves out of `e`, and a
copy of `e` takes up what the block holds. -/
def split (b : Builder) (e block : Element) : Builder :=
  let inner := b.opened.takeWhile fun f => f.label != block.label
  let way := ((b.opened.dropWhile fun f => f.label != block.label).drop 1).takeWhile
    fun f => f.label != e.label
  let outer := (b.opened.dropWhile fun f => f.label != e.label).drop 1
  let ancestor := (outer.head?.map (·.label)).getD 0
  let position := (b.active.findIdx? (·.label == e.label)).getD 0
  let a := ascend block 3 way ⟨b.draft, b.active, [], block, position⟩
  let draft := a.draft.move ancestor a.last
  let (copy, draft) := draft.fresh e.name e.attributes
  let draft := (draft.moveChildren block.label copy.label).add block.label (.element copy)
  let active := a.active.filter (·.label != e.label)
  { b with
    draft := draft
    opened := inner ++ copy :: block :: a.kept ++ outer
    active := active.take a.bookmark ++ copy :: active.drop a.bookmark }

/-- The closing tag of a formatting element.  As long as the element holds open blocks it is
split at the outermost of them, at most eight times. -/
def closeFormatting (name : Text) : Nat → Builder → Builder
  | 0, b => b
  | rounds + 1, b =>
    match b.active.reverse.find? (·.name = name) with
    | none => b.closeOther name
    | some e =>
      if !b.isOpen e then { b with active := b.active.filter (·.label != e.label) }
      else
        let inside := b.opened.takeWhile fun f => f.label != e.label
        match inside.reverse.find? fun f => specialNames.contains f.name with
        | none =>
          { b.closeThrough (·.label == e.label) with
            active := b.active.filter (·.label != e.label) }
        | some block => closeFormatting name rounds (b.split e block)

/-- Ends the formatting `name` completely: the innermost such element in force is closed, and
neither stays open nor in force. -/
def endFormatting (b : Builder) (name : Text) : Builder :=
  match b.active.reverse.find? (·.name = name) with
  | none => b
  | some e =>
    let b := closeFormatting name 8 b
    { b with
      opened := b.opened.filter (·.label != e.label)
      active := b.active.filter (·.label != e.label) }

/-! ## Tags -/

/-- The closing tag of an item: it reaches across everything but a list, if the item is a list's. -/
def closeItem (b : Builder) (name : Text) : Builder :=
  let bounds := if name = "li".toList then ["ol".toList, "ul".toList] else []
  if inScope bounds name b.opened then b.closeThrough (·.name = name) else b

/-- Ends the item before an item of the given name. -/
def endItem (b : Builder) (name : Text) : Builder :=
  let siblings := if name = "li".toList then [name] else ["dt".toList, "dd".toList]
  let stops (e : Element) : Bool :=
    specialNames.contains e.name && !looseNames.contains e.name
  match b.opened.find? fun e => siblings.contains e.name || stops e with
  | none => b
  | some e => if siblings.contains e.name then b.closeItem e.name else b

def openTag (b : Builder) (name : Text) (attributes : List Attribute) : Builder :=
  if misplacedNames.contains name then b
  else if blockNames.contains name then b.endParagraph.openElement name attributes
  else if headingNames.contains name then
    let b := b.endParagraph
    let b := if b.opened.head?.any (headingNames.contains ·.name) then b.closeInnermost else b
    b.openElement name attributes
  else if verbatimNames.contains name then
    { b.endParagraph.openElement name attributes with dropBreak := true }
  else if itemNames.contains name then ((b.endItem name).endParagraph).openElement name attributes
  else if name = "a".toList then ((b.endFormatting name).restore).openFormatting name attributes
  else if name = "nobr".toList then
    let b := b.restore
    let b := if b.opened.any (·.name = name) then (closeFormatting name 8 b).restore else b
    b.openFormatting name attributes
  else if formattingNames.contains name then b.restore.openFormatting name attributes
  else if name = "hr".toList then b.endParagraph.addVoid name attributes
  else if inlineVoidNames.contains name then b.restore.addVoid name attributes
  else if name = "image".toList then b.restore.addVoid "img".toList attributes
  else if otherVoidNames.contains name then b.addVoid name attributes
  else b.restore.openElement name attributes

def closeTag (b : Builder) (name : Text) : Builder :=
  if name = "html".toList || name = "body".toList then b
  else if closableNames.contains name then
    let b := if name = "pre".toList then { b with dropBreak := false } else b
    if b.opened.any (·.name = name) then b.closeThrough (·.name = name) else b
  else if name = "p".toList then
    if b.opened.any (·.name = name) then b.closeThrough (·.name = name) else b.addVoid name []
  else if itemNames.contains name then b.closeItem name
  else if headingNames.contains name then
    if b.opened.any (headingNames.contains ·.name) then
      b.closeThrough (headingNames.contains ·.name)
    else b
  else if formattingNames.contains name then closeFormatting name 8 b
  else if name = "br".toList then b.restore.addVoid name []
  else b.closeOther name

/-- Spaces: right behind the opening tag of a verbatim block one line feed is dropped. -/
def takeSpaces (b : Builder) (content : Text) : Builder :=
  let verbatim := b.opened.head?.any (verbatimNames.contains ·.name)
  let content :=
    if b.dropBreak && verbatim && !b.draft.hasChildren b.current && content.head? = some '\n' then
      content.drop 1
    else content
  let b := { b with dropBreak := false }
  if content.isEmpty then b else b.addText content

def take (b : Builder) : Token → Builder
  | .text content => b.addText content
  | .spaces content => b.takeSpaces content
  | .openTag name attributes => b.openTag name attributes
  | .closeTag name => b.closeTag name
  | .comment content => { b with draft := b.draft.add b.current (.comment content) }

end Builder

/-- The nodes that a text with markup stands for.  Carriage returns are read as line feeds. -/
def fragment (t : Text) : List Node :=
  ((tokens (Text.unixBreaks t)).foldl Builder.take .start).draft.nodes

end ScriptDocs.Html
