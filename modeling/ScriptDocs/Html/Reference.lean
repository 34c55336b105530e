import ScriptDocs.Text.Basic

/-!
# Character references

What a reference such as `&amp;` or `&#8212;` stands for.  Some names also count without the
semicolon; of the names with which a text begins the longest is taken.
-/

namespace ScriptDocs.Html

/-- A name of a character, with the semicolon if it needs one, and the character's code point. -/
structure Reference where
  name : Text
  codePoint : Nat
deriving DecidableEq, Repr

/-- A name that also counts without the semicolon. -/
private def bothWays (name : String) (codePoint : Nat) : List Reference :=
  [⟨name.toList, codePoint⟩, ⟨name.toList ++ [';'], codePoint⟩]

def namedReferences : List Reference :=
  bothWays "amp" 0x26 ++ bothWays "AMP" 0x26 ++ bothWays "lt" 0x3C ++ bothWays "LT" 0x3C ++
  bothWays "gt" 0x3E ++ bothWays "GT" 0x3E ++ bothWays "quot" 0x22 ++ bothWays "QUOT" 0x22 ++
  bothWays "nbsp" 0xA0 ++ bothWays "copy" 0xA9 ++ bothWays "COPY" 0xA9 ++
  bothWays "not" 0xAC ++
  [⟨"apos;".toList, 0x27⟩, ⟨"notin;".toList, 0x2209⟩]

/-- Whether some name begins with `t`. -/
def beginsReference (t : Text) : Bool := namedReferences.any fun r => t.isPrefixOf r.name

/-- The longest name with which `t` begins. -/
def longestReference? (t : Text) : Option Reference :=
  namedReferences.foldl (fun best r =>
    if r.name.isPrefixOf t && (best.map (·.name.length)).getD 0 < r.name.length then some r
    else best) none

/-- The code points that stand for the numbers 128 to 159: those numbers are read in the
Windows code page for Western Europe. -/
def westernTable : List Nat :=
  [0x20AC, 0x81, 0x201A, 0x192, 0x201E, 0x2026, 0x2020, 0x2021,
   0x2C6, 0x2030, 0x160, 0x2039, 0x152, 0x8D, 0x17D, 0x8F,
   0x90, 0x2018, 0x2019, 0x201C, 0x201D, 0x2022, 0x2013, 0x2014,
   0x2DC, 0x2122, 0x161, 0x203A, 0x153, 0x9D, 0x17E, 0x178]

def replacement : Char := Char.ofNat 0xFFFD

/-- The character with a number.  Zero, the surrogates and what lies beyond the last code point
give the replacement character. -/
def numberedChar (n : Nat) : Char :=
  if n = 0 || n > 0x10FFFF || (0xD800 ≤ n && n ≤ 0xDFFF) then replacement
  else if 128 ≤ n && n < 160 then Char.ofNat (westernTable.getD (n - 128) n)
  else Char.ofNat n

def digitValue (c : Char) : Nat :=
  if c.isDigit then c.toNat - '0'.toNat
  else if 'a' ≤ c && c ≤ 'f' then c.toNat - 'a'.toNat + 10
  else c.toNat - 'A'.toNat + 10

/-- Whether a character is a digit of base ten, or of base sixteen. -/
def isDigitOf (hex : Bool) (c : Char) : Bool :=
  c.isDigit || (hex && (('a' ≤ c && c ≤ 'f') || ('A' ≤ c && c ≤ 'F')))

end ScriptDocs.Html
