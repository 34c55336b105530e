import ScriptDocs.Json.Points

/-!
# Read JSON

JSON values, and how they are read from a text.  The reader keeps the position, so that a problem
can be located by line and column.  Besides the standard it takes the words for the numbers that
are none: `NaN`, `Infinity` and `-Infinity`.
-/

namespace ScriptDocs.Json

/-- A JSON value.  Of the members of an object with one name the last counts, at the place of the
first.  Of a number that is no integer only the text is kept. -/
inductive Value where
  | null
  | bool (b : Bool)
  | int (n : Int)
  | float (literal : Text)
  | string (s : Points)
  | array (items : List Value)
  | object (members : List (Points × Value))
deriving Repr

structure Problem where
  what : Text
  position : Nat
deriving DecidableEq, Repr

structure Cursor where
  position : Nat
  rest : Text
deriving DecidableEq, Repr

namespace Cursor

def skip (c : Cursor) (n : Nat) : Cursor := ⟨c.position + n, c.rest.drop n⟩

/-- Whether a character may stand between the parts of a value. -/
def isGap (c : Char) : Bool := c = ' ' || c = '\t' || c = '\n' || c = '\r'

def skipGap (c : Cursor) : Cursor := c.skip (c.rest.takeWhile isGap).length

def problem (c : Cursor) (what : String) : Problem := ⟨what.toList, c.position⟩

end Cursor

/-! ## Strings -/

def hexValue? (c : Char) : Option Nat :=
  if c.isDigit then some (c.toNat - '0'.toNat)
  else if 'a' ≤ c && c ≤ 'f' then some (c.toNat - 'a'.toNat + 10)
  else if 'A' ≤ c && c ≤ 'F' then some (c.toNat - 'A'.toNat + 10)
  else none

/-- The number that four hexadecimal digits spell. -/
def unit? (t : Text) : Option Nat :=
  match t.take 4 |>.mapM hexValue? with
  | some [a, b, c, d] => some (((a * 16 + b) * 16 + c) * 16 + d)
  | _ => none

/-- What a letter behind a backslash stands for. -/
def escaped? (c : Char) : Option Char :=
  match c with
  | '"' => some '"'
  | '\\' => some '\\'
  | '/' => some '/'
  | 'b' => some '\x08'
  | 'f' => some '\x0c'
  | 'n' => some '\n'
  | 'r' => some '\r'
  | 't' => some '\t'
  | _ => none

/-- The low half of a surrogate pair, if it stands here as an escape. -/
def lowHalf? (t : Text) : Option Nat :=
  match t with
  | '\\' :: 'u' :: rest =>
    match unit? rest with
    | some n => if 0xDC00 ≤ n && n ≤ 0xDFFF then some n else none
    | none => none
  | _ => none

/-- The code point of an escape by number, and how many characters it takes behind its letter.  The
two halves of a surrogate pair make up one character. -/
def numbered (high : Nat) (behind : Text) : Point × Nat :=
  if 0xD800 ≤ high && high ≤ 0xDBFF then
    match lowHalf? behind with
    | some low => (.char (Char.ofNat (0x10000 + (high - 0xD800) * 0x400 + (low - 0xDC00))), 10)
    | none => (.ofUnit high, 4)
  else (.ofUnit high, 4)

/-- Reads a string behind its opening quote, which stands at `start`; `read` holds the code points
read, last first. -/
def readString (start : Nat) : (fuel : Nat) → (read : Points) → Cursor →
    Except Problem (Points × Cursor)
  | 0, _, _ => .error ⟨"Unterminated string starting at".toList, start⟩
  | fuel + 1, read, here =>
    match here.rest with
    | [] => .error ⟨"Unterminated string starting at".toList, start⟩
    | '"' :: _ => .ok (read.reverse, here.skip 1)
    | '\\' :: [] => .error ⟨"Unterminated string starting at".toList, start⟩
    | '\\' :: 'u' :: behind =>
      match unit? behind with
      | none => .error ((here.skip 1).problem "Invalid \\uXXXX escape")
      | some n =>
        if behind.length ≤ 4 then .error ((here.skip 1).problem "Invalid \\uXXXX escape")
        else
          let (p, taken) := numbered n (behind.drop 4)
          readString start fuel (p :: read) (here.skip (2 + taken))
    | '\\' :: c :: _ =>
      match escaped? c with
      | none => .error (here.problem "Invalid \\escape")
      | some d => readString start fuel (.char d :: read) (here.skip 2)
    | c :: _ =>
      if c.toNat < 32 then .error (here.problem "Invalid control character at")
      else readString start fuel (.char c :: read) (here.skip 1)

/-! ## Numbers -/

def digits (t : Text) : Text := t.takeWhile Char.isDigit

/-- The text of a fraction: a point and at least one digit. -/
def fraction (t : Text) : Text :=
  match t with
  | '.' :: rest => if (digits rest).isEmpty then [] else '.' :: digits rest
  | _ => []

/-- The text of an exponent: its letter, a sign or none, and at least one digit. -/
def exponent (t : Text) : Text :=
  match t with
  | e :: rest =>
    if e = 'e' || e = 'E' then
      let sign := rest.take 1 |>.filter fun c => c = '+' || c = '-'
      let ds := digits (rest.drop sign.length)
      if ds.isEmpty then [] else e :: sign ++ ds
    else []
  | [] => []

/-- The text of the integer with which a number begins: zero alone, or digits that do not begin
with it. -/
def integerPart (t : Text) : Text :=
  match t with
  | '0' :: _ => ['0']
  | _ => digits t

def decimal (t : Text) : Nat := t.foldl (fun n c => n * 10 + (c.toNat - '0'.toNat)) 0

/-- The number that stands here, and its length. -/
def number? (t : Text) : Option (Value × Nat) :=
  let sign := t.take 1 |>.filter (· = '-')
  let whole := integerPart (t.drop sign.length)
  if whole.isEmpty then none
  else
    let rest := t.drop (sign.length + whole.length)
    let part := fraction rest
    let power := exponent (rest.drop part.length)
    let length := sign.length + whole.length + part.length + power.length
    if part.isEmpty && power.isEmpty then
      some (.int (if sign.isEmpty then decimal whole else -decimal whole), length)
    else some (.float (t.take length), length)

def words : List (Text × Value) :=
  [("null".toList, .null), ("true".toList, .bool true), ("false".toList, .bool false),
   ("NaN".toList, .float "NaN".toList), ("Infinity".toList, .float "Infinity".toList),
   ("-Infinity".toList, .float "-Infinity".toList)]

/-- The value without parts that stands here, and its length. -/
def simple? (t : Text) : Option (Value × Nat) :=
  match words.find? fun w => w.1.isPrefixOf t with
  | some (w, v) => some (v, w.length)
  | none => number? t

/-! ## Values -/

def setMember (name : Points) (v : Value) : List (Points × Value) → List (Points × Value)
  | [] => [(name, v)]
  | m :: ms => if m.1 = name then (name, v) :: ms else m :: setMember name v ms

mutual

/-- Reads the value at the cursor.  Of two calls, one inside the other, at least one reads on by a
character, so twice the length of the text is fuel enough. -/
def readValue : (fuel : Nat) → Cursor → Except Problem (Value × Cursor)
  | 0, here => .error (here.problem "Expecting value")
  | fuel + 1, here =>
    match here.rest with
    | '"' :: _ => do
      let (s, next) ← readString here.position (here.rest.length + 1) [] (here.skip 1)
      return (.string s, next)
    | '{' :: _ =>
      let inside := (here.skip 1).skipGap
      if inside.rest.head? = some '}' then .ok (.object [], inside.skip 1)
      else readMembers fuel [] inside
    | '[' :: _ =>
      let inside := (here.skip 1).skipGap
      if inside.rest.head? = some ']' then .ok (.array [], inside.skip 1)
      else readItems fuel [] inside
    | rest => match simple? rest with
      | some (v, n) => .ok (v, here.skip n)
      | none => .error (here.problem "Expecting value")

def readMembers : (fuel : Nat) → List (Points × Value) → Cursor → Except Problem (Value × Cursor)
  | 0, _, here => .error (here.problem "Expecting value")
  | fuel + 1, members, here => do
    if here.rest.head? ≠ some '"' then
      throw (here.problem "Expecting property name enclosed in double quotes")
    let (name, next) ← readString here.position (here.rest.length + 1) [] (here.skip 1)
    let colon := next.skipGap
    if colon.rest.head? ≠ some ':' then throw (colon.problem "Expecting ':' delimiter")
    let (v, next) ← readValue fuel (colon.skip 1).skipGap
    let members := setMember name v members
    let comma := next.skipGap
    if comma.rest.head? = some '}' then return (.object members, comma.skip 1)
    if comma.rest.head? ≠ some ',' then throw (comma.problem "Expecting ',' delimiter")
    readMembers fuel members (comma.skip 1).skipGap

/-- Reads the items of an array from one on; `items` holds those read, last first. -/
def readItems : (fuel : Nat) → List Value → Cursor → Except Problem (Value × Cursor)
  | 0, _, here => .error (here.problem "Expecting value")
  | fuel + 1, items, here => do
    let (v, next) ← readValue fuel here
    let comma := next.skipGap
    if comma.rest.head? = some ']' then return (.array (v :: items).reverse, comma.skip 1)
    if comma.rest.head? ≠ some ',' then throw (comma.problem "Expecting ',' delimiter")
    readItems fuel (v :: items) (comma.skip 1).skipGap

end

def readAll (t : Text) : Except Problem Value := do
  if t.head? = some '\ufeff' then
    throw ⟨"Unexpected UTF-8 BOM (decode using utf-8-sig)".toList, 0⟩
  let (v, next) ← readValue (2 * t.length + 2) (Cursor.skipGap ⟨0, t⟩)
  let last := next.skipGap
  if last.rest.isEmpty then return v
  throw (last.problem "Extra data")

/-- A problem as a fault, with the line and the column at which it was met. -/
def Problem.fault (t : Text) (p : Problem) : Fault :=
  let before := t.take p.position
  .badJson p.what (before.count '\n' + 1) ((before.reverse.takeWhile (· ≠ '\n')).length + 1)
    p.position

def read (t : Text) : Except Fault Value :=
  match readAll t with
  | .ok v => .ok v
  | .error p => .error (p.fault t)

end ScriptDocs.Json
