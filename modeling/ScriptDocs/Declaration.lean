import ScriptDocs.Text.Blank
import ScriptDocs.Text.Lines

/-!
# Declarations

A script says on lines of their own which namespaces it provides and which it requires, by calls
such as `goog.provide('app.Widget');`.  The call may be indented, its argument may be set off by
blanks, and either kind of quote may stand on either side of it.  What follows on the line is not
looked at, except that the argument reaches to the last quote that closes a call.
-/

namespace ScriptDocs.Declaration

def isQuote (c : Char) : Bool := c = '\'' || c = '"'

/-- Whether the call is closed here: a quote, blanks, and the parenthesis. -/
def closes : Text → Bool
  | [] => false
  | c :: cs => isQuote c && (Text.trimStart cs).head? = some ')'

/-- The longest argument that is closed, and is not empty. -/
def argument? : Text → Option Text
  | [] => none
  | c :: cs =>
    match argument? cs with
    | some rest => some (c :: rest)
    | none => if closes cs then some [c] else none

/-- What a line passes to the function `call`, if the line begins with such a call. -/
def passed? (call line : Text) : Option Text :=
  match (call ++ ['(']).isPrefixOf? (Text.trimStart line) with
  | none => none
  | some rest =>
    match Text.trimStart rest with
    | [] => none
    | c :: cs => if isQuote c then argument? cs else none

def passedTo (call script : Text) : List Text := (Text.lines script).filterMap (passed? call)

def provides (script : Text) : List Text := passedTo "goog.provide".toList script

def requires (script : Text) : List Text := passedTo "goog.require".toList script

end ScriptDocs.Declaration
