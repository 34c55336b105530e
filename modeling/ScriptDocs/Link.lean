import ScriptDocs.Text.Blank
import ScriptDocs.Text.Word

/-!
# Links in texts

Two kinds of links are put into a text as markup.

* `webLinks`: web addresses.  An address begins with its scheme, anywhere in a word, and reaches
  to the end of the word.
* `symbolLinks`: references to documented symbols, that is dotted names, each with an optional
  anchor behind a number sign.  The name alone decides whether it is known.
-/

namespace ScriptDocs.Link

/-- A link to `target` that shows `content`, as markup. -/
def anchor (target content : Text) : Text :=
  "<a href=\"".toList ++ target ++ "\">".toList ++ content ++ "</a>".toList

/-! ## Web addresses -/

def beginsAddress (t : Text) : Bool :=
  "http://".toList.isPrefixOf t || "https://".toList.isPrefixOf t

/-- A word whose part from the first address on is made a link. -/
def linkWord : Text → Text
  | [] => []
  | c :: cs => if beginsAddress (c :: cs) then anchor (c :: cs) (c :: cs) else c :: linkWord cs

/-- Applies `f` to every word of a text, that is to every run of characters between blanks; `word`
is what has been read of the word at hand, reversed. -/
def onWords (f : Text → Text) (word : Text) : Text → Text
  | [] => f word.reverse
  | c :: cs =>
    if isBlank c then f word.reverse ++ c :: onWords f [] cs else onWords f (c :: word) cs

def webLinks (t : Text) : Text := onWords linkWord [] t

/-! ## Symbols -/

def beginsWord : Text → Bool
  | [] => false
  | c :: _ => isWord c

/-- Splits off the longest dotted name: word characters, and dots with a word character behind
them.  Called behind a word character, or on a text that begins with one. -/
def splitName : Text → Text × Text
  | [] => ([], [])
  | c :: cs =>
    if isWord c || (c = '.' && beginsWord cs) then (c :: (splitName cs).1, (splitName cs).2)
    else ([], c :: cs)

/-- Splits off an anchor: a number sign and the word behind it. -/
def splitAnchor : Text → Text × Text
  | '#' :: cs =>
    if beginsWord cs then ('#' :: cs.takeWhile isWord, cs.dropWhile isWord) else ([], '#' :: cs)
  | t => ([], t)

theorem splitName_append (t : Text) : (splitName t).1 ++ (splitName t).2 = t := by
  induction t with
  | nil => rfl
  | cons c cs ih =>
    unfold splitName
    split
    · simpa using ih
    · rfl

theorem splitAnchor_append (t : Text) : (splitAnchor t).1 ++ (splitAnchor t).2 = t := by
  unfold splitAnchor
  split
  · split
    · simp [List.takeWhile_append_dropWhile]
    · rfl
  · rfl

theorem splitName_rest_le (t : Text) : (splitName t).2.length ≤ t.length := by
  induction t with
  | nil => simp [splitName]
  | cons c cs ih =>
    unfold splitName
    split
    · exact Nat.le_succ_of_le ih
    · exact Nat.le_refl _

theorem splitAnchor_rest_le (t : Text) : (splitAnchor t).2.length ≤ t.length := by
  unfold splitAnchor
  split
  · split
    · exact Nat.le_succ_of_le (List.dropWhile_suffix isWord).length_le
    · exact Nat.le_refl _
  · exact Nat.le_refl _

/-- A piece of a text: a reference, with its dotted name and its anchor, or a character that
belongs to none. -/
inductive Piece where
  | gap (c : Char)
  | reference (name hash : Text)
deriving DecidableEq, Repr

namespace Piece

def source : Piece → Text
  | .gap c => [c]
  | .reference name hash => name ++ hash

/-- What is put in a piece's place: a reference to a known symbol becomes a link to the symbol's
page. -/
def linked (symbols : List Text) : Piece → Text
  | .gap c => [c]
  | .reference name hash =>
    if symbols.contains name then anchor (name ++ ".html".toList) (name ++ hash) else name ++ hash

end Piece

/-- The pieces of a text.  A reference begins at every word character that belongs to no reference
before it, and is as long as possible. -/
def pieces : Text → List Piece
  | [] => []
  | c :: cs =>
    if isWord c then
      let name := splitName cs
      let hash := splitAnchor name.2
      .reference (c :: name.1) hash.1 :: pieces hash.2
    else .gap c :: pieces cs
termination_by t => t.length
decreasing_by
  · exact Nat.lt_succ_of_le (Nat.le_trans (splitAnchor_rest_le _) (splitName_rest_le _))
  · exact Nat.lt_succ_self _

/-- The pieces of a text make it up. -/
theorem flatMap_source_pieces (t : Text) : (pieces t).flatMap Piece.source = t := by
  fun_induction pieces t with
  | case1 => rfl
  | case2 c cs _ name hash ih =>
    have behind : hash.1 ++ hash.2 = name.2 := splitAnchor_append name.2
    have whole : name.1 ++ name.2 = cs := splitName_append cs
    simp only [List.flatMap_cons, Piece.source, ih, List.cons_append, List.append_assoc]
    rw [behind, whole]
  | case3 c cs _ ih => simp [Piece.source, ih]

def symbolLinks (symbols : List Text) (t : Text) : Text := (pieces t).flatMap (Piece.linked symbols)

end ScriptDocs.Link
