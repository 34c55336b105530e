import ScriptDocs.Fault
import ScriptDocs.Flag.Basic
import ScriptDocs.Text.Blank
import ScriptDocs.Text.Word

/-!
# Sections of a comment's text

Empty lines cut a comment's text into sections.  A section begins with a description, which may be
empty, and goes on with flags: a flag is an at sign and a word, at the start of the section or
behind a blank, and the text up to the next flag belongs to it.

* `flagMarks`: where the flags of a text stand.
* `Section.ofText`: a section taken apart.
* `sections`: the sections of a comment's text.
-/

namespace ScriptDocs.Comment

/-! ## Flags in a text -/

/-- A flag in a text: its name, and the stretch from the blank in front of it to the name's end. -/
structure FlagMark where
  span : Span
  name : Text
deriving DecidableEq, Repr

/-- The flags of a text that begins at position `pos`; `free` says whether a flag may stand here,
that is at the start of the text or behind a blank. -/
def flagMarksFrom (free : Bool) (pos : Nat) : Text → List FlagMark
  | [] => []
  | c :: cs =>
    let word := cs.takeWhile isWord
    let later := flagMarksFrom (isBlank c) (pos + 1) cs
    if free && c = '@' && !word.isEmpty then
      ⟨⟨pos - 1, pos + 1 + word.length⟩, c :: word⟩ :: later
    else later

def flagMarks (t : Text) : List FlagMark := flagMarksFrom true 0 t

/-! ## Sections -/

structure Section where
  description : Text
  flags : List Flag
deriving DecidableEq, Repr

/-- Takes the flag at a mark off the end of what is left of a section, with all the text behind
it. -/
def Section.cutAt (left : Section) (m : FlagMark) : Section :=
  { description := left.description.take m.span.start
    flags := ⟨m.name, Text.trim (left.description.drop m.span.stop)⟩ :: left.flags }

/-- A section taken apart: its flags are taken off from the last to the first, and what is left in
the end describes. -/
def Section.ofText (t : Text) : Section := (flagMarks t).reverse.foldl Section.cutAt ⟨t, []⟩

/-- The text cut at every pair of line feeds, from the left. -/
def cutAtEmptyLines : Text → List Text
  | [] => [[]]
  | '\n' :: '\n' :: cs => [] :: cutAtEmptyLines cs
  | c :: cs =>
    match cutAtEmptyLines cs with
    | [] => [[c]]
    | piece :: pieces => (c :: piece) :: pieces

/-- The sections of a comment's text, without blanks at their ends; an empty piece is none.
Carriage returns are not understood. -/
def sections (t : Text) : Except Fault (List Text) :=
  if t.contains '\r' then .error .carriageReturn
  else .ok (((cutAtEmptyLines t).map Text.trim).filter fun s => !s.isEmpty)

/-- A comment's text taken apart: the descriptions that are not empty, and all flags. -/
structure Parts where
  descriptions : List Text
  flags : List Flag
deriving DecidableEq, Repr

def partsOf (t : Text) : Except Fault Parts :=
  (sections t).map fun ts =>
    let taken := ts.map Section.ofText
    { descriptions := (taken.map (·.description)).filter fun d => !d.isEmpty
      flags := taken.flatMap (·.flags) }

end ScriptDocs.Comment
