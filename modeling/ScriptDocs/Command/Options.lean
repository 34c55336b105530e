import ScriptDocs.Fault
import ScriptDocs.Text.Digit

/-!
# Command line options

The documentation command takes the path of the archive to write, as the option `--tar`, and the
paths of the files to document, which stand together before or behind it.  The value of an option
is the next argument, or stands behind an equals sign.  A long option may be cut short as long as no
other begins the same way, and behind `--` nothing is an option.

The arguments are read twice.  First each is told apart by its form (`Argument.ofText`), from left
to right; then they are put to their places (`readFrom`).
-/

namespace ScriptDocs.Command

structure Options where
  archive : Text
  paths : List Text
deriving DecidableEq, Repr

/-! ## Forms of arguments -/

/-- What an argument is, by its form. -/
inductive Argument where
  /-- A path, or the value of the option before it. -/
  | word (t : Text)
  /-- The mark behind which all arguments are words. -/
  | separator
  /-- The option that names the archive, alone or with the path. -/
  | archive (path? : Option Text)
  /-- A call for help, with the code that the command exits with. -/
  | help (code : Nat)
  | unknown
deriving DecidableEq, Repr

namespace Argument

def isEnd (t : Text) : Bool := t.isEmpty || t = ['\n']

/-- Whether a text spells a negative number, with or without a fraction. -/
def isNegative : Text → Bool
  | '-' :: t => match t.dropWhile isDecimal with
    | '.' :: part => part.head?.any isDecimal && isEnd (part.dropWhile isDecimal)
    | rest => t.head?.any isDecimal && isEnd rest
  | _ => false

/-- An argument that begins as an option does and is none of those known: a number, and what has a
space in it, is taken for a word. -/
def other (t : Text) : Argument := if isNegative t || t.contains ' ' then .word t else .unknown

/-- The exit code for what stands behind the short option for help.  Its letter may be repeated, and
takes no value; another letter would be an unknown option, but help comes first. -/
def helpCode : Text → Nat
  | [] => 0
  | '=' :: _ => 2
  | '-' :: _ => 2
  | 'h' :: t => helpCode t
  | _ => 0

def value? (t : Text) : Option Text := (t.dropWhile (· ≠ '=')).tail?

/-- A long option, by a beginning of its name.  Both begin with the two hyphens. -/
def long (t : Text) : Except Fault Argument :=
  let name := t.takeWhile (· ≠ '=')
  match name.isPrefixOf "--help".toList, name.isPrefixOf "--tar".toList with
  | true, true => .error (.exit 2)
  | true, false => .ok (.help (if (value? t).isNone then 0 else 2))
  | false, true => .ok (.archive (value? t))
  | false, false => .ok (other t)

/-- The form of an argument.  A hyphen alone is a word. -/
def ofText : Text → Except Fault Argument
  | ['-'] => .ok (.word ['-'])
  | '-' :: '-' :: t => long ('-' :: '-' :: t)
  | '-' :: 'h' :: t => .ok (.help (helpCode t))
  | '-' :: t => .ok (other ('-' :: t))
  | t => .ok (.word t)

def classify : List Text → Except Fault (List Argument)
  | [] => .ok []
  | t :: rest =>
    if t = "--".toList then .ok (.separator :: rest.map .word)
    else do
      let a ← ofText t
      let as ← classify rest
      return a :: as

end Argument

/-! ## Places of arguments -/

/-- The arguments read so far: the paths, whether an option stands behind them, and whether
something has come up that has no place. -/
structure Reading where
  archive? : Option Text
  paths : List Text
  closed : Bool
  extra : Bool
deriving DecidableEq, Repr

namespace Reading

def start : Reading := ⟨none, [], false, false⟩

/-- An option ends the row of paths, if there is one. -/
def close (r : Reading) : Reading := { r with closed := r.closed || !r.paths.isEmpty }

/-- The path of the archive; the last one given counts. -/
def setArchive (r : Reading) (path : Text) : Reading := { r.close with archive? := some path }

/-- A path of a file; behind a row that has ended it has no place. -/
def addPath (r : Reading) (path : Text) : Reading :=
  if r.closed then { r with extra := true } else { r with paths := r.paths ++ [path] }

/-- The mark is part of a row of paths. -/
def addSeparator (r : Reading) : Reading := { r with extra := r.extra || r.closed }

def addUnknown (r : Reading) : Reading := { r.close with extra := true }

def options (r : Reading) : Except Fault Options :=
  match r.archive? with
  | none => .error (.exit 2)
  | some archive => if r.extra then .error (.exit 2) else .ok ⟨archive, r.paths⟩

end Reading

/-- Reads arguments from the left.  Being asked for help ends the reading at once. -/
def readFrom (r : Reading) : List Argument → Except Fault Options
  | [] => r.options
  | .word path :: rest => readFrom (r.addPath path) rest
  | .separator :: rest => readFrom r.addSeparator rest
  | .archive (some path) :: rest => readFrom (r.setArchive path) rest
  | .archive none :: .word path :: rest => readFrom (r.setArchive path) rest
  | .archive none :: _ => .error (.exit 2)
  | .help code :: _ => .error (.exit code)
  | .unknown :: rest => readFrom r.addUnknown rest

def Options.ofArguments (args : List Text) : Except Fault Options := do
  let arguments ← Argument.classify args
  readFrom .start arguments

end ScriptDocs.Command
