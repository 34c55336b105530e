import ScriptDocs.Text.Basic

/-!
# Lines

A line ends at a line feed, a carriage return (which takes a following line feed with it), a
vertical tab, a form feed, one of the file, group and record separators, the next-line control, or
a Unicode line or paragraph separator.  The last line needs no end, and a text that ends in a
break has no empty line behind it.

* `lines`: the lines without their ends.
* `fullLines`: the lines with their ends; together they are the text.
-/

namespace ScriptDocs

def isLineBreak (c : Char) : Bool :=
  let n := c.toNat
  (10 ≤ n && n ≤ 13) || (28 ≤ n && n ≤ 30) || n == 0x85 || n == 0x2028 || n == 0x2029

namespace Text

def lines : Text → List Text
  | [] => []
  | '\r' :: '\n' :: cs => [] :: lines cs
  | c :: cs =>
    if isLineBreak c then [] :: lines cs
    else match lines cs with
      | [] => [[c]]
      | l :: ls => (c :: l) :: ls

/-- The lines of a text, each with the break that ends it. -/
def fullLines : Text → List Text
  | [] => []
  | '\r' :: '\n' :: cs => ['\r', '\n'] :: fullLines cs
  | c :: cs =>
    if isLineBreak c then [c] :: fullLines cs
    else match fullLines cs with
      | [] => [[c]]
      | l :: ls => (c :: l) :: ls

/-- The lines with their breaks make up the text. -/
theorem flatten_fullLines (t : Text) : (fullLines t).flatten = t := by
  fun_induction fullLines t with
  | case1 => rfl
  | case2 cs ih => simp [ih]
  | case3 c cs _ _ ih => simp [ih]
  | case4 c cs _ _ h ih =>
    rw [h] at ih
    simp [← ih]
  | case5 c cs _ _ l ls h ih =>
    rw [h] at ih
    simp [← ih]

/-- The text with every carriage return, alone or before a line feed, made a line feed. -/
def unixBreaks : Text → Text
  | [] => []
  | '\r' :: '\n' :: cs => '\n' :: unixBreaks cs
  | c :: cs => (if c = '\r' then '\n' else c) :: unixBreaks cs

end Text

end ScriptDocs
