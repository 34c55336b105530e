/-!
# Texts

A text is the list of its characters; positions, lengths and slices count characters.  The
scanners of this library walk such lists and return what is left behind what they read.

* `Span`: a half-open stretch of positions, and `Span.text`, the characters it covers.
* `fields`: a text cut at every occurrence of one character.
* `number`, `hexadecimal`: written numbers.
-/

namespace ScriptDocs

abbrev Text := List Char

namespace Text

/-! ## Cutting -/

/-- The pieces of a text between the occurrences of `sep`; there is always at least one. -/
def fields (sep : Char) : Text → List Text
  | [] => [[]]
  | c :: cs =>
    if c = sep then [] :: fields sep cs
    else match fields sep cs with
      | [] => [[c]]
      | piece :: pieces => (c :: piece) :: pieces

def occurs (part : Text) : Text → Bool
  | [] => part.isEmpty
  | c :: cs => part.isPrefixOf (c :: cs) || occurs part cs

def headline (t : Text) : Text := t.takeWhile (· ≠ '\n')

/-- Whether a text does not come behind another in code point order. -/
def atMost : Text → Text → Bool
  | [], _ => true
  | _ :: _, [] => false
  | a :: as, b :: bs => a.toNat < b.toNat || (a = b && atMost as bs)

/-- The distinct texts of a list, in code point order. -/
def sortedSet (ts : List Text) : List Text := ts.eraseDups.mergeSort atMost

/-! ## Numbers -/

def number (n : Nat) : Text := Nat.toDigits 10 n

def integer : Int → Text
  | .ofNat n => number n
  | .negSucc n => '-' :: number (n + 1)

/-- A number in lower-case hexadecimal digits, with zeros in front up to `width`. -/
def hexadecimal (width n : Nat) : Text :=
  let digits := Nat.toDigits 16 n
  List.replicate (width - digits.length) '0' ++ digits

end Text

/-! ## Spans -/

/-- The positions from `start` up to, and without, `stop`. -/
structure Span where
  start : Nat
  stop : Nat
deriving DecidableEq, Repr

namespace Span

def text (t : Text) (s : Span) : Text := (t.drop s.start).take (s.stop - s.start)

end Span

end ScriptDocs
