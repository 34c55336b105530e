import ScriptDocs.Text.Printable

/-!
# Quoted texts

How a text or a byte string is shown in a message: between quotes, with escapes for what would
not show.  The quotes are single, unless the text holds single quotes and no double ones.
-/

namespace ScriptDocs.Text

def quoteMark (t : Text) : Char :=
  if t.contains '\'' && !t.contains '"' then '"' else '\''

/-- An escape by number: a letter for the width, then lower-case hexadecimal digits. -/
def numericEscape (n : Nat) : Text :=
  if n < 0x100 then '\\' :: 'x' :: hexadecimal 2 n
  else if n < 0x10000 then '\\' :: 'u' :: hexadecimal 4 n
  else '\\' :: 'U' :: hexadecimal 8 n

def quotedChar (mark c : Char) : Text :=
  if c = mark || c = '\\' then ['\\', c]
  else if c = '\n' then ['\\', 'n']
  else if c = '\r' then ['\\', 'r']
  else if c = '\t' then ['\\', 't']
  else if isPrintable c then [c]
  else numericEscape c.toNat

def quoted (t : Text) : Text :=
  let mark := quoteMark t
  mark :: t.flatMap (quotedChar mark) ++ [mark]

/-- A byte string between quotes, with a `b` in front; bytes beyond printable ASCII are escaped
by number. -/
def quotedBytes (bytes : List UInt8) : Text :=
  let chars := bytes.map fun b => Char.ofNat b.toNat
  let mark := quoteMark chars
  let shown (c : Char) : Text :=
    if c.toNat < 128 then quotedChar mark c else numericEscape c.toNat
  'b' :: mark :: chars.flatMap shown ++ [mark]

end ScriptDocs.Text
