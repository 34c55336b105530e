import ScriptDocs.Text.Basic

/-!
# Documentation comments in a script

A documentation comment begins with a slash and two stars and ends with the next star and slash
behind them.  Texts in quotes and line comments are not told apart from code.
-/

namespace ScriptDocs.Comment

/-- The comments of a text that begins at position `pos`; `opened` is where the comment at hand
began, if there is one.  A comment that does not end is none. -/
def spansFrom : (opened : Option Nat) → (pos : Nat) → Text → List Span
  | _, _, [] => []
  | none, pos, '/' :: '*' :: '*' :: cs => spansFrom (some pos) (pos + 3) cs
  | none, pos, _ :: cs => spansFrom none (pos + 1) cs
  | some start, pos, '*' :: '/' :: cs => ⟨start, pos + 2⟩ :: spansFrom none (pos + 2) cs
  | some start, pos, _ :: cs => spansFrom (some start) (pos + 1) cs

def spans (script : Text) : List Span := spansFrom none 0 script

end ScriptDocs.Comment
