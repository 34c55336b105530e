import ScriptDocs.Fault

/-!
# Strings of code points

An escape in a JSON text can spell half a surrogate pair, which is no character.  Strings that are
read from such texts are rows of code points: characters, and such halves.  Two strings that differ
only in their halves differ, and a string with halves in it cannot be encoded (`Points.encode`).
-/

namespace ScriptDocs

/-- A code point: a character, or half a surrogate pair, numbered from the first high half. -/
inductive Point where
  | char (c : Char)
  | half (n : Fin 0x800)
deriving DecidableEq, Repr

namespace Point

def char? : Point → Option Char
  | .char c => some c
  | .half _ => none

/-- The number of half a surrogate pair among the code points. -/
def surrogate? : Point → Option Nat
  | .char _ => none
  | .half n => some (0xD800 + n.val)

/-- The code point with a number of sixteen bits. -/
def ofUnit (n : Nat) : Point :=
  if h : 0xD800 ≤ n ∧ n < 0xE000 then .half ⟨n - 0xD800, by omega⟩ else .char (Char.ofNat n)

end Point

abbrev Points := List Point

def Text.points (t : Text) : Points := t.map .char

namespace Points

/-- The text of a string without halves of pairs. -/
def text? (s : Points) : Option Text := s.mapM Point.char?

/-- The bytes of a string.  The fault is about the first row of halves. -/
def encode (s : Points) : Except Fault (List UInt8) :=
  match s.text? with
  | some t => .ok (Utf8.encode t)
  | none =>
    let front := s.takeWhile (·.char?.isSome)
    let halves := (s.drop front.length).takeWhile (·.surrogate?.isSome)
    .error (.unencodable front.length (halves.filterMap Point.surrogate?))

end Points

end ScriptDocs
