import ScriptDocs.Text.Basic

/-!
# Blank characters

The white space of the Unicode character database, together with the four information separators
U+001C to U+001F.  `trim` takes it off both ends of a text, `squeeze` takes it out altogether.
-/

namespace ScriptDocs

/-- White space: tabs, line and page breaks, separators, and the spaces of every width.  The
zero-width space and the byte order mark are not blank. -/
def isBlank (c : Char) : Bool :=
  let n := c.toNat
  (9 ≤ n && n ≤ 13) || (28 ≤ n && n ≤ 32) || n == 0x85 || n == 0xA0 || n == 0x1680 ||
    (0x2000 ≤ n && n ≤ 0x200A) || n == 0x2028 || n == 0x2029 || n == 0x202F || n == 0x205F ||
    n == 0x3000

namespace Text

def trimStart (t : Text) : Text := t.dropWhile isBlank

def trimEnd (t : Text) : Text := (t.reverse.dropWhile isBlank).reverse

def trim (t : Text) : Text := trimEnd (trimStart t)

def squeeze (t : Text) : Text := t.filter fun c => !isBlank c

theorem trimStart_length_le (t : Text) : (trimStart t).length ≤ t.length :=
  (List.dropWhile_suffix isBlank).length_le

end Text

end ScriptDocs
