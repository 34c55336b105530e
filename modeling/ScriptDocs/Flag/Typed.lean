import ScriptDocs.Flag.Basic
import ScriptDocs.Text.Blank
import ScriptDocs.Text.Word

/-!
# Types in flags

The text of a flag may begin with a type in braces: that of a parameter goes on with the
parameter's name, that of a return value with a description.

* `Parameter.read`, `Returned.read`: the two kinds that have to have a type.
* `type?`: the type of any other flag, as it is written.
* `symbolType?`: the type that the flags of a comment give to a symbol.
-/

namespace ScriptDocs

/-- What is left behind the brace that opens a type. -/
def behindBrace? (t : Text) : Option Text :=
  match Text.trimStart t with
  | '{' :: cs => some cs
  | _ => none

/-- Splits a text at its first closing brace behind which `accepts` holds of the rest. -/
def splitAtBrace? (accepts : Text → Bool) : Text → Option (Text × Text)
  | [] => none
  | c :: cs =>
    if c = '}' && accepts cs then some ([], cs)
    else (splitAtBrace? accepts cs).map fun p => (c :: p.1, p.2)

/-! ## Parameters -/

structure Parameter where
  name : Text
  type : Text
  text : Text
deriving DecidableEq, Repr

/-- Whether a name stands here, behind at least one blank. -/
def beginsName : Text → Bool
  | [] => false
  | c :: cs => isBlank c && (Text.trimStart cs).head?.any isWord

/-- The parameter that a flag's text describes.  The type ends at the first closing brace behind
which a name follows. -/
def Parameter.read (t : Text) : Except Fault Parameter :=
  match (behindBrace? t).bind (splitAtBrace? beginsName) with
  | none => .error (.unreadableFlag t)
  | some (type, rest) =>
    let rest := Text.trimStart rest
    .ok ⟨rest.takeWhile isWord, Text.trim type, Text.trim (rest.dropWhile isWord)⟩

def Parameter.signature (p : Parameter) : Text :=
  '{' :: p.type ++ '}' :: ' ' :: p.name

/-! ## Return values -/

structure Returned where
  type : Text
  text : Text
deriving DecidableEq, Repr

/-- The return value that a flag's text describes.  The type ends at the first closing brace. -/
def Returned.read (t : Text) : Except Fault Returned :=
  match (behindBrace? t).bind (splitAtBrace? fun _ => true) with
  | none => .error (.unreadableFlag t)
  | some (type, rest) => .ok ⟨Text.trim type, Text.trim rest⟩

def Returned.signature (r : Returned) : Text := '{' :: r.type ++ ['}']

/-! ## Other types -/

/-- The type with which a flag's text begins, if it does. -/
def type? (t : Text) : Option Text :=
  ((behindBrace? t).bind (splitAtBrace? fun _ => true)).map (·.1)

/-- The first type, not empty, that a flag with a type gives. -/
def symbolType? (flags : List Flag) : Option Text :=
  flags.findSome? fun f =>
    if f.isNamed "@type" || f.isNamed "@const" || f.isNamed "@protected" || f.isNamed "@private"
    then (type? f.text).filter fun t => !t.isEmpty
    else none

end ScriptDocs
