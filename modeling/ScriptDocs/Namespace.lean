import ScriptDocs.Fault

/-!
# Namespaces

Names of scripts are dotted.  A namespace holds the names that begin with all its parts, and among
the namespaces that hold a name the closest is the one with the most parts.
-/

namespace ScriptDocs.Namespace

def parts (name : Text) : List Text := Text.fields '.' name

/-- Whether the name is that of a property which all instances share: its last part but one is
`prototype`, and something stands in front of it. -/
def isPrototypeProperty (name : Text) : Bool :=
  match (parts name).reverse with
  | _ :: holder :: _ :: _ => holder = "prototype".toList
  | _ => false

def prototypeProperty (name : Text) : Except Fault Text :=
  if isPrototypeProperty name then .ok ((parts name).getLastD [])
  else .error .notPrototypeProperty

def holds (space name : Text) : Bool := (parts space).isPrefixOf (parts name)

/-- How many leading parts two lists share. -/
def sharedParts : List Text → List Text → Nat
  | p :: ps, q :: qs => if p = q then sharedParts ps qs + 1 else 0
  | _, _ => 0

/-- How many leading parts of a name are those of a namespace; none if the name is shorter. -/
def depth (name space : List Text) : Nat :=
  if name.length < space.length then 0 else sharedParts name space

/-- The better of the namespace found so far, with the number of parts it shares, and one more. -/
def closer (name : Text) (best : Option Text × Nat) (space : Text) : Option Text × Nat :=
  let d := depth (parts name) (parts space)
  if d > best.2 then (some space, d) else best

/-- The first of the candidates that holds the name and shares the most parts with it. -/
def closest? (name : Text) (candidates : List Text) : Option Text :=
  ((candidates.filter (holds · name)).foldl (closer name) (none, 0)).1

def someHolds (spaces : List Text) (name : Text) : Bool := spaces.any (holds · name)

end ScriptDocs.Namespace
