import ScriptDocs.Comment.Section

/-!
# Comments

A documentation comment as it is attached to a symbol: its text, where it stands in the script,
and what the text says.
-/

namespace ScriptDocs

structure Comment where
  text : Text
  start : Int
  stop : Int
  flags : List Flag
  descriptions : List Text
deriving DecidableEq, Repr

namespace Comment

/-- The comment with a text.  All its flags have to be known. -/
def ofText (text : Text) (start stop : Int) : Except Fault Comment := do
  let parts ← partsOf text
  let flags ← parts.flags.mapM Flag.checked
  return { text, start, stop, flags, descriptions := parts.descriptions }

def has (c : Comment) (name : Text) : Bool := c.flags.any (·.name = name)

/-- Whether the comment has a flag of the name, which has to be the name of a flag. -/
def hasFlag (c : Comment) (name : Text) : Except Fault Bool :=
  if name.head? = some '@' then .ok (c.has name) else .error .bareFlagName

end Comment

end ScriptDocs
