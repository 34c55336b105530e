import ScriptDocs.Comment.Span
import ScriptDocs.Fault
import ScriptDocs.Text.Blank
import ScriptDocs.Text.Word

/-!
# Targets of comments

What a documentation comment documents is the first thing behind it that is either an opening
parenthesis or a name.  A name is a chain of identifiers joined by dots, with blanks allowed around
the dots.  A comment that documents the file as a whole has no target.

* `Target.find?`: the target behind a position.
* `Target.pairs`: the comments of a script, each with its target.
-/

namespace ScriptDocs.Target

def isIdentifierChar (c : Char) : Bool := c = '$' || isWord c

def isStart (c : Char) : Bool := c = '(' || isIdentifierChar c

def beginsIdentifier : Text → Bool
  | [] => false
  | c :: _ => isIdentifierChar c

/-- Whether a text begins with a dot, blanks around it, and the next identifier. -/
def beginsLink (t : Text) : Bool :=
  match Text.trimStart t with
  | '.' :: cs => beginsIdentifier (Text.trimStart cs)
  | _ => false

/-- How far a name goes on, behind the first character of an identifier.  On the way from one
identifier to the next, `between`, there are only blanks and the dot. -/
def chainLength (between : Bool) : Text → Nat
  | [] => 0
  | c :: cs =>
    if isIdentifierChar c then chainLength false cs + 1
    else if between || beginsLink (c :: cs) then chainLength true cs + 1
    else 0

def find? (script : Text) (pos : Nat) : Option Span :=
  let rest := script.drop pos
  let start := pos + (rest.takeWhile fun c => !isStart c).length
  match rest.dropWhile fun c => !isStart c with
  | [] => none
  | c :: cs =>
    if c = '(' then some ⟨start, start + 1⟩
    else some ⟨start, start + 1 + chainLength false cs⟩

/-- The first target at or behind a position that may be any integer of 64 bits; one before the
start of the script is taken for the start. -/
def findAt? (script : Text) (pos : Int) : Except Fault (Option Span) :=
  if pos < -0x8000000000000000 || pos ≥ 0x8000000000000000 then .error .positionRange
  else .ok (find? script pos.toNat)

/-- Whether what stands at the target is called or indexed: the first character behind it that is
not blank opens a parenthesis or a bracket.  Its comment then is about a value and no name. -/
def isUsed (script : Text) (target : Span) : Bool :=
  match Text.trimStart (script.drop target.stop) with
  | [] => false
  | c :: _ => c = '(' || c = '['

def isFileComment : Text → Bool
  | [] => false
  | c :: cs =>
    (match "@fileoverview".toList.isPrefixOf? (c :: cs) with
      | none => false
      | some [] => true
      | some (d :: _) => !isWord d) || isFileComment cs

/-- Comments, each with its target; those about their file have none. -/
def pairsOf (script : Text) : List Span → Produced (Span × Option Span)
  | [] => .done
  | c :: cs =>
    if isFileComment (c.text script) then .cons (c, none) (pairsOf script cs)
    else match find? script c.stop with
      | none => .stopped (.noTarget (c.text script))
      | some t => .cons (c, some t) (pairsOf script cs)

def pairs (script : Text) : Produced (Span × Option Span) := pairsOf script (Comment.spans script)

end ScriptDocs.Target
