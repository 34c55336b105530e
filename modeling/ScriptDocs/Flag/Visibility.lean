import ScriptDocs.Flag.Basic

/-!
# Visibility

Who may use a symbol.  Everything is public unless its comment says otherwise, and private wins
over protected.
-/

namespace ScriptDocs

inductive Visibility where
  | isPublic
  | isProtected
  | isPrivate
deriving DecidableEq, Repr

namespace Visibility

def ofFlags (flags : List Flag) : Visibility :=
  if flags.any (·.isNamed "@private") then .isPrivate
  else if flags.any (·.isNamed "@protected") then .isProtected
  else .isPublic

def word : Visibility → Text
  | .isPublic => "public".toList
  | .isProtected => "protected".toList
  | .isPrivate => "private".toList

end Visibility

end ScriptDocs
