import ScriptDocs.Json.Points

/-!
# Written JSON

The text of JSON objects that hold strings and other objects.  Everything beyond ASCII is escaped,
in units of sixteen bits.  What is to be written may also hold bytes, for which JSON has no form:
coming upon them the writer fails.
-/

namespace ScriptDocs.Json

def unitEscape (n : Nat) : Text := '\\' :: 'u' :: Text.hexadecimal 4 n

def writeChar (c : Char) : Text :=
  let n := c.toNat
  if c = '"' || c = '\\' then ['\\', c]
  else if c = '\n' then ['\\', 'n']
  else if c = '\r' then ['\\', 'r']
  else if c = '\t' then ['\\', 't']
  else if n = 8 then ['\\', 'b']
  else if n = 12 then ['\\', 'f']
  else if 32 ≤ n && n < 127 then [c]
  else if n < 0x10000 then unitEscape n
  else unitEscape (0xD800 + (n - 0x10000) / 0x400) ++ unitEscape (0xDC00 + (n - 0x10000) % 0x400)

def writePoint : Point → Text
  | .char c => writeChar c
  | .half n => unitEscape (0xD800 + n.val)

def writeString (s : Points) : Text := '"' :: s.flatMap writePoint ++ ['"']

inductive Data where
  | string (s : Points)
  | bytes (content : List UInt8)
  | object (members : List (Points × Data))
deriving Repr

mutual

/-- The text of data, unless there are bytes in it. -/
def Data.write : Data → Except Fault Text
  | .string s => .ok (writeString s)
  | .bytes _ => .error .bytesInJson
  | .object members => do
    let shown ← writeMembers members
    return '{' :: List.intercalate ", ".toList shown ++ ['}']

def writeMembers : List (Points × Data) → Except Fault (List Text)
  | [] => .ok []
  | (name, d) :: rest => do
    let value ← d.write
    let others ← writeMembers rest
    return (writeString name ++ ": ".toList ++ value) :: others

end

/-- An object whose values are strings. -/
def Data.ofTexts (members : List (Text × Text)) : Data :=
  .object (members.map fun m => (m.1.points, .string m.2.points))

end ScriptDocs.Json
