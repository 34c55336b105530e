import ScriptDocs.Html.Node
import ScriptDocs.Html.Reference

/-!
# Tokens of markup

A text with markup in it is read one character at a time: `State.next` says what a character does
in each state, `State.finish` what the end of the text does.  `tokens` runs the states over a
text, so it is a plain recursion along the text and never reads a character twice; where a
character belongs to the following state, the one state's rule calls the other's.

Nothing is an error here: markup that is not well formed has a reading too.  A tag cut off by the
end of the text is dropped, a comment cut off is taken as far as it goes.
-/

namespace ScriptDocs.Html

inductive Token where
  /-- Characters of which the first is no space. -/
  | text (content : Text)
  /-- Spaces only. -/
  | spaces (content : Text)
  | openTag (name : Text) (attributes : List Attribute)
  | closeTag (name : Text)
  | comment (content : Text)
deriving DecidableEq, Repr

def isSpace (c : Char) : Bool := c = '\t' || c = '\n' || c = '\x0c' || c = ' ' || c = '\r'

/-- Which kind of token a piece of text outside of tags is. -/
def Token.ofText (t : Text) : Token :=
  match t with
  | [c] => if isSpace c then .spaces t else .text t
  | _ => .text t

/-! ## States -/

/-- A tag as far as it has been read; the name is reversed, and so is the list of attributes. -/
structure Tag where
  closing : Bool
  name : Text
  attributes : List Attribute
deriving Repr

inductive Enclosure where
  | double
  | single
  | bare
deriving DecidableEq, Repr

/-- An attribute whose value is being read; the value is reversed. -/
structure OpenValue where
  tag : Tag
  name : Text
  enclosure : Enclosure
  value : Text
deriving Repr

inductive Place where
  | outside
  | inValue (v : OpenValue)
deriving Repr

/-- What has been read so far of the piece at hand.  Collected characters are reversed, except
those of a reference and of a declaration. -/
inductive State where
  | outside
  | spaces (read : Text)
  | run (read : Text)
  | reference (place : Place) (read : Text)
  | numberSign (place : Place)
  | hexSign (place : Place) (sign : Char)
  | digits (place : Place) (hex : Bool) (value : Nat)
  | tagOpen
  | closeTagOpen
  | tagName (tag : Tag)
  | beforeName (tag : Tag)
  | attributeName (tag : Tag) (name : Text)
  | afterName (tag : Tag) (name : Text)
  | beforeValue (tag : Tag) (name : Text)
  | value (v : OpenValue)
  | afterValue (tag : Tag)
  | slash (tag : Tag)
  | bogus (read : Text)
  | declaration (read : Text)
  | doctype
  | commentStart (read : Text)
  | commentStartDash (read : Text)
  | comment (read : Text)
  | commentDash (read : Text)
  | commentEnd (read : Text)
  | commentBang (read : Text)
deriving Repr

/-- A step: the tokens that are complete, and the state to go on in. -/
abbrev Step := List Token × State

/-! ## Emission -/

/-- The attributes of a tag in order; of two with one name the first counts. -/
def firstOfEach (attributes : List Attribute) : List Attribute :=
  attributes.foldl (fun kept a => if kept.any (·.name = a.name) then kept else kept ++ [a]) []

def lowerName (t : Text) : Text := t.map Char.toLower

def Tag.token (t : Tag) : Token :=
  if t.closing then .closeTag (lowerName t.name.reverse)
  else .openTag (lowerName t.name.reverse) (firstOfEach t.attributes.reverse)

/-- The tag with one more attribute, whose name and value come reversed. -/
def Tag.add (t : Tag) (name value : Text) : Tag :=
  { t with attributes := ⟨lowerName name.reverse, value.reverse⟩ :: t.attributes }

/-- The character as it stands in names, values and comments. -/
def kept (c : Char) : Char := if c = '\x00' then replacement else c

/-! ## Rules -/

/-- A character outside of tags.  The null character is left out. -/
def outsideNext (c : Char) : Step :=
  if c = '&' then ([], .reference .outside [])
  else if c = '<' then ([], .tagOpen)
  else if c = '\x00' then ([], .outside)
  else if isSpace c then ([], .spaces [c])
  else ([], .run [c])

def beforeNameNext (tag : Tag) (c : Char) : Step :=
  if isSpace c then ([], .beforeName tag)
  else if c = '>' then ([tag.token], .outside)
  else if c = '/' then ([], .slash tag)
  else ([], .attributeName tag [kept c])

def slashNext (tag : Tag) (c : Char) : Step :=
  if c = '>' then ([tag.token], .outside) else beforeNameNext tag c

def attributeNameNext (tag : Tag) (name : Text) (c : Char) : Step :=
  if c = '=' then ([], .beforeValue tag name)
  else if c = '>' then ([(tag.add name []).token], .outside)
  else if isSpace c then ([], .afterName tag name)
  else if c = '/' then ([], .slash (tag.add name []))
  else ([], .attributeName tag (kept c :: name))

def afterNameNext (tag : Tag) (name : Text) (c : Char) : Step :=
  if isSpace c then ([], .afterName tag name)
  else if c = '=' then ([], .beforeValue tag name)
  else if c = '>' then ([(tag.add name []).token], .outside)
  else if c = '/' then ([], .slash (tag.add name []))
  else ([], .attributeName (tag.add name []) [kept c])

def valueNext (v : OpenValue) (c : Char) : Step :=
  let closed := v.tag.add v.name v.value
  let more : Step := ([], .value { v with value := kept c :: v.value })
  if c = '&' then ([], .reference (.inValue v) [])
  else match v.enclosure with
    | .double => if c = '"' then ([], .afterValue closed) else more
    | .single => if c = '\'' then ([], .afterValue closed) else more
    | .bare =>
      if isSpace c then ([], .beforeName closed)
      else if c = '>' then ([closed.token], .outside)
      else more

def beforeValueNext (tag : Tag) (name : Text) (c : Char) : Step :=
  if isSpace c then ([], .beforeValue tag name)
  else if c = '"' then ([], .value ⟨tag, name, .double, []⟩)
  else if c = '\'' then ([], .value ⟨tag, name, .single, []⟩)
  else if c = '>' then ([(tag.add name []).token], .outside)
  else valueNext ⟨tag, name, .bare, []⟩ c

def afterValueNext (tag : Tag) (c : Char) : Step :=
  if isSpace c then ([], .beforeName tag)
  else if c = '>' then ([tag.token], .outside)
  else if c = '/' then ([], .slash tag)
  else beforeNameNext tag c

def tagNameNext (tag : Tag) (c : Char) : Step :=
  if isSpace c then ([], .beforeName tag)
  else if c = '>' then ([tag.token], .outside)
  else if c = '/' then ([], .slash tag)
  else ([], .tagName { tag with name := kept c :: tag.name })

/-- A character in a comment that is none by its form: all up to the next `>` is its content. -/
def bogusNext (read : Text) (c : Char) : Step :=
  if c = '>' then ([.comment read.reverse], .outside) else ([], .bogus (kept c :: read))

/-- A character behind `</`. -/
def closeTagOpenNext (c : Char) : Step :=
  if c.isAlpha then ([], .tagName ⟨true, [c], []⟩)
  else if c = '>' then ([], .outside)
  else bogusNext [] c

/-- Puts tokens in front of a step. -/
def after (ts : List Token) (s : Step) : Step := (ts ++ s.1, s.2)

/-- A character behind `<`. -/
def tagOpenNext (c : Char) : Step :=
  if c = '!' then ([], .declaration [])
  else if c = '/' then ([], .closeTagOpen)
  else if c.isAlpha then ([], .tagName ⟨false, [c], []⟩)
  else if c = '>' then ([.text "<>".toList], .outside)
  else if c = '?' then bogusNext [] c
  else after [.text ['<']] (outsideNext c)

/-- A character behind `<!`: two hyphens begin a comment, the word `doctype` in any case begins a
document type, all else is a comment by its form. -/
def declarationNext (read : Text) (c : Char) : Step :=
  let now := read ++ [c]
  if now = "--".toList then ([], .commentStart [])
  else if lowerName now = "doctype".toList then ([], .doctype)
  else if now = ['-'] || (lowerName now).isPrefixOf "doctype".toList then ([], .declaration now)
  else bogusNext read.reverse c

/-- The text that a reference gives, in the place where it stands, and the step that follows
with the next character `c`. -/
def placeText (place : Place) (output : Text) (c : Char) : Step :=
  match place with
  | .outside => after [.ofText output] (outsideNext c)
  | .inValue v => valueNext { v with value := output.reverse ++ v.value } c

/-- The characters right behind `&` that make it no reference. -/
def Place.plain (place : Place) (c : Char) : Bool :=
  isSpace c || c = '<' || c = '&' ||
    match place with
    | .outside => false
    | .inValue v => match v.enclosure with
      | .double => c = '"'
      | .single => c = '\''
      | .bare => c = '>'

/-- What the name `read` stands for, with the character `next` behind it.  In an attribute's value
a name without semicolon counts only if no letter, digit or equals sign follows. -/
def namedText (place : Place) (read : Text) (next : Option Char) : Text :=
  match longestReference? read with
  | none => '&' :: read
  | some r =>
    let following := (read.drop r.name.length).head?.or next
    let bare := r.name.getLast? ≠ some ';'
    let inName := following.any fun c => c.isAlphanum || c = '='
    match place with
    | .inValue _ =>
      if bare && inName then '&' :: read
      else Char.ofNat r.codePoint :: read.drop r.name.length
    | .outside => Char.ofNat r.codePoint :: read.drop r.name.length

def referenceNext (place : Place) (read : Text) (c : Char) : Step :=
  if read.isEmpty && place.plain c then placeText place ['&'] c
  else if read.isEmpty && c = '#' then ([], .numberSign place)
  else if beginsReference (read ++ [c]) then ([], .reference place (read ++ [c]))
  else placeText place (namedText place read (some c)) c

/-- A character behind `&#`. -/
def numberSignNext (place : Place) (c : Char) : Step :=
  if c = 'x' || c = 'X' then ([], .hexSign place c)
  else if isDigitOf false c then ([], .digits place false (digitValue c))
  else placeText place "&#".toList c

/-- A character behind `&#x`. -/
def hexSignNext (place : Place) (sign c : Char) : Step :=
  if isDigitOf true c then ([], .digits place true (digitValue c))
  else placeText place ("&#".toList ++ [sign]) c

/-- A number is complete: the state behind it, with the character it stands for. -/
def numberDone (place : Place) (n : Nat) : Step :=
  match place with
  | .outside => ([.ofText [numberedChar n]], .outside)
  | .inValue v => ([], .value { v with value := numberedChar n :: v.value })

/-- A character behind a digit of a numbered reference. -/
def digitsNext (place : Place) (hex : Bool) (n : Nat) (c : Char) : Step :=
  if isDigitOf hex c then ([], .digits place hex (n * (if hex then 16 else 10) + digitValue c))
  else if c = ';' then numberDone place n
  else placeText place [numberedChar n] c

def commentNext (read : Text) (c : Char) : Step :=
  if c = '-' then ([], .commentDash read) else ([], .comment (kept c :: read))

def State.next : State → Char → Step
  | .outside, c => outsideNext c
  | .spaces read, c =>
    if isSpace c then ([], .spaces (c :: read)) else after [.spaces read.reverse] (outsideNext c)
  | .run read, c =>
    if c = '&' || c = '<' || c = '\x00' then after [.text read.reverse] (outsideNext c)
    else ([], .run (c :: read))
  | .reference place read, c => referenceNext place read c
  | .numberSign place, c => numberSignNext place c
  | .hexSign place sign, c => hexSignNext place sign c
  | .digits place hex n, c => digitsNext place hex n c
  | .tagOpen, c => tagOpenNext c
  | .closeTagOpen, c => closeTagOpenNext c
  | .tagName tag, c => tagNameNext tag c
  | .beforeName tag, c => beforeNameNext tag c
  | .attributeName tag name, c => attributeNameNext tag name c
  | .afterName tag name, c => afterNameNext tag name c
  | .beforeValue tag name, c => beforeValueNext tag name c
  | .value v, c => valueNext v c
  | .afterValue tag, c => afterValueNext tag c
  | .slash tag, c => slashNext tag c
  | .bogus read, c => bogusNext read c
  | .declaration read, c => declarationNext read c
  | .doctype, c => if c = '>' then ([], .outside) else ([], .doctype)
  | .commentStart read, c =>
    if c = '-' then ([], .commentStartDash read)
    else if c = '>' then ([.comment read.reverse], .outside)
    else if c = '\x00' then ([], .commentStart (replacement :: read))
    else ([], .comment (c :: read))
  | .commentStartDash read, c =>
    if c = '-' then ([], .commentEnd read)
    else if c = '>' then ([.comment read.reverse], .outside)
    else if c = '\x00' then ([], .commentStartDash (replacement :: '-' :: read))
    else ([], .comment (c :: '-' :: read))
  | .comment read, c => commentNext read c
  | .commentDash read, c =>
    if c = '-' then ([], .commentEnd read) else ([], .comment (kept c :: '-' :: read))
  | .commentEnd read, c =>
    if c = '>' then ([.comment read.reverse], .outside)
    else if c = '!' then ([], .commentBang read)
    else if c = '-' then ([], .commentEnd ('-' :: read))
    else ([], .comment (kept c :: '-' :: '-' :: read))
  | .commentBang read, c =>
    if c = '>' then ([.comment read.reverse], .outside)
    else if c = '-' then ([], .commentDash ('!' :: '-' :: '-' :: read))
    else ([], .comment (kept c :: '!' :: '-' :: '-' :: read))

/-- What the end of the text does outside of tags, with `output` still to be given. -/
def Place.finish (place : Place) (output : Text) : List Token :=
  match place with
  | .outside => [.ofText output]
  | .inValue _ => []

def State.finish : State → List Token
  | .outside => []
  | .spaces read => [.spaces read.reverse]
  | .run read => [.text read.reverse]
  | .reference place read => place.finish (namedText place read none)
  | .numberSign place => place.finish "&#".toList
  | .hexSign place sign => place.finish ("&#".toList ++ [sign])
  | .digits place _ n => place.finish [numberedChar n]
  | .tagOpen => [.text ['<']]
  | .closeTagOpen => [.text "</".toList]
  | .bogus read => [.comment read.reverse]
  | .declaration read => [.comment read]
  | .commentStart read => [.comment read.reverse]
  | .commentStartDash read => [.comment read.reverse]
  | .comment read => [.comment read.reverse]
  | .commentDash read => [.comment read.reverse]
  | .commentEnd read => [.comment read.reverse]
  | .commentBang read => [.comment read.reverse]
  | .doctype | .tagName _ | .beforeName _ | .attributeName _ _ | .afterName _ _
  | .beforeValue _ _ | .value _ | .afterValue _ | .slash _ => []

def tokensFrom (state : State) : Text → List Token
  | [] => state.finish
  | c :: cs => (state.next c).1 ++ tokensFrom (state.next c).2 cs

def tokens (t : Text) : List Token := tokensFrom .outside t

end ScriptDocs.Html
