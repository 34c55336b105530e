import ScriptDocs.Fault
import ScriptDocs.Text.Blank
import ScriptDocs.Text.Lines

/-!
# The text inside a comment

A documentation comment carries its text on lines that begin with a star.  Reading it takes off
the marks at both ends, and from each line the blanks, the star and the spaces behind the star;
a line without a star carries no text.
-/

namespace ScriptDocs.Comment

/-- The text that a line of a comment carries. -/
def lineText (line : Text) : Text :=
  match Text.trimStart line with
  | '*' :: cs => cs.dropWhile (· = ' ')
  | _ => []

/-- What is left of a text in front of its ending `e`, if it ends so. -/
def before? (e t : Text) : Option Text :=
  (e.reverse.isPrefixOf? t.reverse).map List.reverse

def interior (comment : Text) : Except Fault Text :=
  match "/**".toList.isPrefixOf? (Text.trim comment) with
  | none => .error .unopenedComment
  | some rest =>
    match before? "*/".toList rest with
    | none => .error .unclosedComment
    | some body => .ok ((Text.fullLines (Text.trim body)).flatMap lineText)

end ScriptDocs.Comment
