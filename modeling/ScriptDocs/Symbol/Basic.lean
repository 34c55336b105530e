import ScriptDocs.Comment.Basic

/-!
# Symbols

A symbol is a name that a script documents.  Its kind follows from the flags of its comment.
-/

namespace ScriptDocs

/-! ## Kinds -/

inductive Kind where
  | constructor
  | interface
  | enumeration
  | function
  | property
  /-- A kind under another name, which no section of a page shows. -/
  | other (name : Text)
deriving DecidableEq, Repr

namespace Kind

def word : Kind → Text
  | .constructor => "constructor".toList
  | .interface => "interface".toList
  | .enumeration => "enum".toList
  | .function => "function".toList
  | .property => "property".toList
  | .other name => name

def ofWord (t : Text) : Kind :=
  ([.constructor, .interface, .enumeration, .function, .property].find? (·.word = t)).getD
    (.other t)

/-- The kind of a symbol with the given comment.  A function is known by its parameters or by its
return value. -/
def ofComment (c : Comment) : Kind :=
  if c.has "@constructor".toList then .constructor
  else if c.has "@interface".toList then .interface
  else if c.has "@enum".toList then .enumeration
  else if c.has "@param".toList || c.has "@return".toList then .function
  else .property

end Kind

/-! ## Symbols -/

/-- The script in which symbols stand, with the namespaces that it provides and requires, each
in code point order. -/
structure Origin where
  script : Text
  path? : Option Text
  provides : List Text
  requires : List Text
deriving DecidableEq, Repr

/-- A documented name: where it stands, in which script, under which comment; the namespace that
owns it; the property it names, if it is one of a prototype; its kind; and whether it belongs to
the namespace itself and not to its instances. -/
structure Symbol where
  identifier : Text
  start : Int
  stop : Int
  origin? : Option Origin
  comment? : Option Comment
  owner? : Option Text
  property? : Option Text
  kind? : Option Kind
  static? : Option Bool
deriving DecidableEq, Repr

namespace Symbol

/-- A name at a place, of which nothing else is known. -/
def bare (identifier : Text) (start stop : Int) : Symbol :=
  { identifier, start, stop, origin? := none, comment? := none, owner? := none,
    property? := none, kind? := none, static? := none }

/-- The kind that a symbol's comment gives it.  The comment has to be there, and each flag is asked
for by its full name. -/
def kindOfComment (s : Symbol) : Except Fault Kind :=
  match s.comment? with
  | none => .error .kindWithoutComment
  | some c => do
    if ← c.hasFlag "@constructor".toList then return .constructor
    if ← c.hasFlag "@interface".toList then return .interface
    if ← c.hasFlag "@enum".toList then return .enumeration
    if ← c.hasFlag "@param".toList then return .function
    if ← c.hasFlag "@return".toList then return .function
    return .property

theorem kindOfComment_eq_ok {s : Symbol} {c : Comment} (h : s.comment? = some c) :
    s.kindOfComment = .ok (.ofComment c) := by
  -- all five names have their at sign
  have hasked : ∀ name ∈ ["@constructor", "@interface", "@enum", "@param", "@return"],
      c.hasFlag name.toList = .ok (c.has name.toList) := by
    intro name hname
    have hat : name.toList.head? = some '@' := by
      revert hname name
      decide
    rw [Comment.hasFlag, if_pos hat]
  rw [kindOfComment, h]
  simp only [hasked "@constructor" (by simp), hasked "@interface" (by simp),
    hasked "@enum" (by simp), hasked "@param" (by simp), hasked "@return" (by simp), bind,
    Except.bind, Kind.ofComment]
  cases c.has "@constructor".toList
  · cases c.has "@interface".toList
    · cases c.has "@enum".toList
      · cases c.has "@param".toList
        · cases c.has "@return".toList <;> rfl
        · rfl
      · rfl
    · rfl
  · rfl

def isStatic (s : Symbol) : Bool := s.static? = some true

def ofKind (k : Kind) (symbols : List Symbol) : List Symbol :=
  symbols.filter fun s => s.kind? = some k

/-- The symbols in the order of their identifiers; equal ones stay in the order given. -/
def sorted (symbols : List Symbol) : List Symbol :=
  symbols.mergeSort fun a b => a.identifier.atMost b.identifier

end Symbol

end ScriptDocs
