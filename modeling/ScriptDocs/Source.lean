import ScriptDocs.Comment.Interior
import ScriptDocs.Comment.Target
import ScriptDocs.Declaration
import ScriptDocs.Log
import ScriptDocs.Namespace
import ScriptDocs.Symbol.Basic

/-!
# Sources

A script with the symbols that it documents.  Each documentation comment that has a target leads
to a finding, unless it is about a value: a symbol, or a name that is passed over because it is a
property of `this` or belongs to no namespace that the script provides.

* `Source.finding`: what one comment with its target leads to.
* `Source.findings`: the findings of a script, up to the first fault.
* `Source.scan`: the source of a script.
-/

namespace ScriptDocs

/-- A script and the symbols that it documents, in the order of their comments. -/
structure Source where
  origin : Origin
  symbols : List Symbol
deriving DecidableEq, Repr

namespace Source

/-- What a comment with a target leads to. -/
inductive Finding where
  | documented (s : Symbol)
  /-- A property of `this`, which has no name of its own. -/
  | ofThis (identifier : Text)
  /-- A name that belongs to none of the namespaces at hand. -/
  | foreign (identifier : Text)
deriving DecidableEq, Repr

namespace Finding

def symbol? : Finding → Option Symbol
  | .documented s => some s
  | _ => none

def note? : Finding → Option LogEntry
  | .documented _ => none
  | .ofThis identifier => some (.info
      ("Skipping identifier. Ignoring \"this.\" properties for now. ".toList ++ identifier))
  | .foreign identifier => some (.info
      ("Skipping identifier. Not part of provided namespace. ".toList ++ identifier))

end Finding

/-- Whether a name is that of a property of `this`. -/
def isOfThis (identifier : Text) : Bool := "this.".toList.isPrefixOf identifier

/-- The symbol with a name and a comment, in the closest of the namespaces at hand. -/
def document (provided : List Text) (identifier : Text) (target : Span) (c : Comment) :
    Except Fault Symbol := do
  let documented := { Symbol.bare identifier target.start target.stop with comment? := some c }
  let kind ← documented.kindOfComment
  let owner ← match Namespace.closest? identifier provided with
    | some (x :: xs) => pure (x :: xs)
    | _ => throw (.noNamespace identifier)
  let symbol := { documented with owner? := some owner, kind? := some kind }
  if Namespace.isPrototypeProperty identifier then
    let property ← Namespace.prototypeProperty identifier
    return { symbol with property? := some property, static? := some false }
  else
    return { symbol with static? := some true }

/-- What a comment with its target leads to, with the namespaces at hand.  A comment about its
file, about a parenthesis, or about what is called or indexed leads to nothing. -/
def finding (script : Text) (provided : List Text) :
    Span × Option Span → Except Fault (Option Finding)
  | (_, none) => .ok none
  | (span, some target) => do
    let text ← Comment.interior (span.text script)
    let comment ← Comment.ofText text span.start span.stop
    if Target.isUsed script target || target.text script = ['('] then return none
    let identifier := Text.squeeze (target.text script)
    if isOfThis identifier then return some (.ofThis identifier)
    if !Namespace.someHolds provided identifier then return some (.foreign identifier)
    let symbol ← document provided identifier target comment
    return some (.documented symbol)

def findings (script : Text) (provided : List Text) : Produced Finding :=
  (Target.pairs script).through (finding script provided)

def scan (script : Text) (path? : Option Text) : Except Fault (Source × List LogEntry) := do
  let origin : Origin :=
    { script, path?
      provides := Text.sortedSet (Declaration.provides script)
      requires := Text.sortedSet (Declaration.requires script) }
  let found ← (findings script origin.provides).all
  let symbols := (found.filterMap Finding.symbol?).map fun s => { s with origin? := some origin }
  return (⟨origin, symbols⟩, found.filterMap Finding.note?)

end Source

end ScriptDocs
