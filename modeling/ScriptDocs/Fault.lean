import ScriptDocs.Text.Quoted
import ScriptDocs.Text.Utf8

/-!
# Faults

Everything that can stop the documentation of a set of scripts, as a type of causes.  The wording
of each is in `Fault.message` and nowhere else.
-/

namespace ScriptDocs

/-- Why the work cannot go on. -/
inductive Fault where
  /-- A position too large to be one. -/
  | positionRange
  | unopenedComment
  | unclosedComment
  /-- A documentation comment with nothing behind it to document. -/
  | noTarget (comment : Text)
  | carriageReturn
  | unknownFlag (name : Text)
  | bareFlagName
  /-- The text of a flag has no type, or no name, where it needs one. -/
  | unreadableFlag (text : Text)
  | notParameter
  | notReturn
  | severalReturns
  | notPrototypeProperty
  | kindWithoutComment
  | flagsWithoutComment
  /-- A symbol without a comment was to be described. -/
  | undocumented
  /-- An instance method without a property name was to be listed. -/
  | unnamedMethod
  /-- A symbol without a namespace was to be put into one. -/
  | unownedSymbol
  /-- A symbol, as it is described, has the identifier of one collected before. -/
  | duplicateSymbol (again first : Text)
  /-- No provided namespace holds the symbol. -/
  | noNamespace (identifier : Text)
  /-- A comment in a description cannot be written. -/
  | unwritableComment
  | repeatedPath (path : Text)
  | noFile (path : Text)
  /-- There is a directory where a file is to be. -/
  | isDirectory (path : Text)
  /-- A path passes through a file. -/
  | notDirectory (path : Text)
  /-- A file without a name was to be opened. -/
  | nothingToOpen
  /-- The bytes of a file are no text. -/
  | undecodable (fault : Utf8.Fault)
  /-- The command line asks for no run, or cannot be understood. -/
  | exit (code : Nat)
  | exitText (text : Text)
  | parserFailed
  | badJson (problem : Text) (line column position : Nat)
  /-- The JSON value is not an object but of the named type. -/
  | notObject (type : Text)
  /-- The JSON value is not a string but of the named type. -/
  | notString (type : Text)
  /-- A string has halves of surrogate pairs at a position, which no encoding can spell. -/
  | unencodable (position : Nat) (halves : List Nat)
  | bytesInJson
deriving DecidableEq, Repr

namespace Fault

/-- The wording of a fault.  Several causes that only a mistaken caller brings about have none. -/
def message : Fault → Text
  | .positionRange => "Python int too large to convert to C ssize_t".toList
  | .noTarget comment => "Found no identifier for comment: ".toList ++ comment
  | .carriageReturn => "Non-UNIX strings not supported for now".toList
  | .unknownFlag name => "Unrecognized flag: ".toList ++ name
  | .bareFlagName => "flag name should start with @".toList
  | .unreadableFlag text => "Could not parse flag description: ".toList ++ text
  | .severalReturns => "There should not be more than 1 @return flag.".toList
  | .kindWithoutComment => "Expected to have comment".toList
  | .flagsWithoutComment => "'NoneType' object has no attribute 'flags'".toList
  | .duplicateSymbol again first => "Symbol duplicated\n".toList ++ again ++ '\n' :: first
  | .noNamespace identifier => "No namespace found ".toList ++ identifier
  | .unwritableComment => "'--' is not allowed in a comment node".toList
  | .repeatedPath path => "Path already added: ".toList ++ path
  | .noFile path => "[Errno 2] No such file or directory: ".toList ++ Text.quoted path
  | .isDirectory path => "[Errno 21] Is a directory: ".toList ++ Text.quoted path
  | .notDirectory path => "[Errno 20] Not a directory: ".toList ++ Text.quoted path
  | .nothingToOpen => "nothing to open".toList
  | .undecodable fault => fault.message
  | .exit code => Text.number code
  | .exitText text => text
  | .parserFailed => "Esprima parsing failed.".toList
  | .badJson problem line column position =>
    problem ++ ": line ".toList ++ Text.number line ++ " column ".toList ++ Text.number column ++
      " (char ".toList ++ Text.number position ++ ")".toList
  | .notObject type => "'".toList ++ type ++ "' object has no attribute 'items'".toList
  | .notString type => "utf_8_encode() argument 1 must be str, not ".toList ++ type
  | .unencodable position halves =>
    let place := match halves with
      | [n] => "character '".toList ++ Text.numericEscape n ++ "' in position ".toList ++
          Text.number position
      | _ => "characters in position ".toList ++ Text.number position ++
          '-' :: Text.number (position + halves.length - 1)
    "'utf-8' codec can't encode ".toList ++ place ++ ": surrogates not allowed".toList
  | .bytesInJson => "Object of type bytes is not JSON serializable".toList
  | .unopenedComment | .unclosedComment | .notParameter | .notReturn | .notPrototypeProperty
  | .undocumented | .unnamedMethod | .unownedSymbol => []

end Fault

/-- What a producer gave before it came to its end or to a fault. -/
structure Produced (α : Type) where
  items : List α
  fault? : Option Fault
deriving Repr

namespace Produced

variable {α β : Type}

def done : Produced α := ⟨[], none⟩

def stopped (f : Fault) : Produced α := ⟨[], some f⟩

def cons (a : α) (p : Produced α) : Produced α := ⟨a :: p.items, p.fault?⟩

def all (p : Produced α) : Except Fault (List α) :=
  match p.fault? with
  | none => .ok p.items
  | some f => .error f

/-- Passes each item on as soon as it comes, through a step that may drop it or fail. -/
def through (p : Produced α) (step : α → Except Fault (Option β)) : Produced β :=
  go p.items
where
  go : List α → Produced β
    | [] => ⟨[], p.fault?⟩
    | a :: rest => match step a with
      | .error f => stopped f
      | .ok none => go rest
      | .ok (some b) => cons b (go rest)

end Produced

end ScriptDocs
