import ScriptDocs.Fault

/-!
# Flags

A flag of a documentation comment has a name, with an at sign in front, and a text.  Only the
flags of `Flag.names` may stand in a comment.
-/

namespace ScriptDocs

structure Flag where
  name : Text
  text : Text
deriving DecidableEq, Repr

namespace Flag

/-- The names of the known flags, in code point order. -/
def names : List Text :=
  ["@author", "@const", "@constructor", "@define", "@deprecated", "@desc", "@enum", "@export",
   "@extends", "@fileoverview", "@final", "@hidden", "@idGenerator", "@implements", "@inheritDoc",
   "@interface", "@license", "@nocompile", "@override", "@param", "@preserveTry", "@private",
   "@protected", "@provideGoog", "@return", "@see", "@struct", "@supported", "@suppress",
   "@template", "@this", "@throws", "@type", "@typedef", "@visibility"].map String.toList

def checked (f : Flag) : Except Fault Flag :=
  if names.contains f.name then .ok f else .error (.unknownFlag f.name)

/-- Whether a flag has a name that is given as a literal. -/
def isNamed (name : String) (f : Flag) : Bool := f.name = name.toList

theorem isNamed_iff {name : String} {f : Flag} : f.isNamed name = true ↔ f.name = name.toList :=
  decide_eq_true_iff

end Flag

end ScriptDocs
