import ScriptDocs.Json.Reader
import ScriptDocs.Json.Writer
import ScriptDocs.Log

/-!
# The external parser

Scripts are parsed by another program.  For each script a process is started and sent the script's
bytes; it replies with an exit code, its output and its messages.  What the processes reply is left
open: a `Program` gives the reply of each to whatever it is sent.  If there is no program to start,
parsing fails as soon as there is a script.

* `parse`: one script.
* `parseAll`: the scripts of a tree, in order.
* `command`: a tree given as JSON.
-/

namespace ScriptDocs.Parsing

def parserPath : Text := "jsdoctor/node/parseinput.js".toList

/-- What the external parser replies to a script. -/
structure Reply where
  code : Int
  output : List UInt8
  messages : List UInt8
deriving DecidableEq, Repr

/-- The replies of an external parser: of the process for the script with a number, to the bytes
that it is sent. -/
abbrev Program := Nat → List UInt8 → Reply

/-- The external parser, if there is one to start. -/
abbrev Service := Option Program

def Reply.result (r : Reply) : Except Fault (List UInt8) :=
  if r.code = 0 then .ok r.output else .error .parserFailed

def Reply.notes (r : Reply) : List LogEntry :=
  if r.code = 0 then []
  else [.error "Error while parsing.".toList, .error (Text.quotedBytes r.messages)]

/-! ## Scripts -/

/-- The name of a value's type, as messages about a missing method give it. -/
def typeName : Json.Value → Text
  | .null => "NoneType".toList
  | .bool _ => "bool".toList
  | .int _ => "int".toList
  | .float _ => "float".toList
  | .string _ => "str".toList
  | .array _ => "list".toList
  | .object _ => "dict".toList

/-- The name of a value's type, as messages about a wrong argument give it. -/
def argumentName : Json.Value → Text
  | .null => "None".toList
  | v => typeName v

/-- The bytes of a script, which has to be a string. -/
def bytesOf : Json.Value → Except Fault (List UInt8)
  | .string s => s.encode
  | v => .error (.notString (argumentName v))

/-- What became of one script: what was sent, the notes, and the output. -/
structure Attempt where
  sent? : Option (List UInt8)
  notes : List LogEntry
  result : Except Fault (List UInt8)

/-- Parses the script with a number.  The parser is started before the script is looked at. -/
def parse (service : Service) (number : Nat) (script : Json.Value) : Attempt :=
  match service with
  | none => ⟨none, [], .error (.noFile parserPath)⟩
  | some program =>
    match bytesOf script with
    | .error f => ⟨none, [], .error f⟩
    | .ok bytes =>
      let reply := program number bytes
      ⟨some bytes, reply.notes, reply.result⟩

/-- Parses scripts, each on its own. -/
def parseAll (service : Service) (scripts : List Json.Value) : List Attempt :=
  scripts.mapIdx (parse service)

def outputs (attempts : List Attempt) : Except Fault (List (List UInt8)) :=
  attempts.mapM (·.result)

/-! ## Trees -/

/-- A script of a tree, with what the parser made of it. -/
structure Parsed where
  path : Points
  script : Points
  output : List UInt8
deriving DecidableEq, Repr

/-- The scripts of a tree with their paths.  In a tree that is parsed all are strings. -/
def scriptsOf (tree : List (Points × Json.Value)) : List (Points × Points) :=
  tree.filterMap fun m => match m.2 with
    | .string s => some (m.1, s)
    | _ => none

def parseTree (service : Service) (tree : List (Points × Json.Value)) :
    Except Fault (List Parsed) := do
  let results ← outputs (parseAll service (tree.map (·.2)))
  return ((scriptsOf tree).zip results).map fun p => ⟨p.1.1, p.1.2, p.2⟩

def treeNotes : List LogEntry := [.info "Parsing sources...".toList]

/-- A tree made from pairs: a repeated path keeps its place and takes the later script. -/
def treeOf (pairs : List (Points × Json.Value)) : List (Points × Json.Value) :=
  pairs.foldl (fun tree p => Json.setMember p.1 p.2 tree) []

/-- A parsed script as a member of an object.  The parser's output stays what it is: bytes. -/
def Parsed.member (p : Parsed) : Points × Json.Data :=
  (p.path, .object [(Text.points "source".toList, .string p.script),
    (Text.points "ast".toList, .bytes p.output)])

def writeTree (tree : List Parsed) : Except Fault Text :=
  (Json.Data.object (tree.map Parsed.member)).write

def command (service : Service) (input : Text) : Except Fault Text := do
  let value ← Json.read input
  match value with
  | .object members => writeTree (← parseTree service members)
  | v => throw (.notObject (typeName v))

end ScriptDocs.Parsing
