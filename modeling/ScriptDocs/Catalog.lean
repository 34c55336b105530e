import ScriptDocs.Log
import ScriptDocs.Source
import ScriptDocs.Symbol.Record

/-!
# The catalog of symbols

The symbols of all sources together, each identifier once.  Of two symbols with one identifier the
first counts; the other is either reported (`Catalog.collect`) or refused
(`Catalog.collectStrictly`), with a description of both.  `Group.ofSymbols` then sorts them by the
namespaces that own them.
-/

namespace ScriptDocs

/-- A symbol, and the one collected before it that has its identifier. -/
structure Duplicate where
  again : Symbol
  first : Symbol
deriving DecidableEq, Repr

/-- A duplicate as a fault that describes both symbols, each by what `siblings` gives as the symbols
of its source. -/
def Duplicate.fault (siblings : Symbol → List Symbol) (d : Duplicate) : Fault :=
  .duplicateSymbol (d.again.described (siblings d.again)) (d.first.described (siblings d.first))

/-- The symbols collected, in order, and what was noted on the way. -/
structure Catalog where
  symbols : List Symbol
  notes : List LogEntry
deriving DecidableEq, Repr

namespace Catalog

def empty : Catalog := ⟨[], []⟩

/-- The names of the functions by which scripts declare what they are. -/
def ignored : List Text :=
  ["goog.provide", "goog.require", "goog.setTestOnly"].map String.toList

inductive Verdict where
  | added
  | passedOver
  | ofThis
  | duplicate (first : Symbol)
deriving DecidableEq, Repr

/-- What becomes of a symbol, given those collected before it. -/
def verdict (collected : List Symbol) (s : Symbol) : Verdict :=
  if ignored.contains s.identifier then .passedOver
  else if Source.isOfThis s.identifier then .ofThis
  else match collected.find? (·.identifier = s.identifier) with
    | some first => .duplicate first
    | none => .added

variable (siblings : Symbol → List Symbol)

/-- The catalog after one more symbol, which is not a duplicate or is reported as one. -/
def enter (c : Catalog) (s : Symbol) : Catalog :=
  match verdict c.symbols s with
  | .added => { c with symbols := c.symbols ++ [s] }
  | .passedOver => c
  | .ofThis =>
    { c with notes := c.notes ++
        [.info ("Skipping \"this\" identifier ".toList ++ s.identifier)] }
  | .duplicate first =>
    { c with notes := c.notes ++ [.warning (Duplicate.fault siblings ⟨s, first⟩).message] }

def collect (symbols : List Symbol) : Catalog := symbols.foldl (enter siblings) empty

/-- The catalog after one more symbol, which must not be a duplicate. -/
def enterStrictly (c : Catalog) (s : Symbol) : Except Fault Catalog :=
  match verdict c.symbols s with
  | .duplicate first => .error (Duplicate.fault siblings ⟨s, first⟩)
  | _ => .ok (c.enter siblings s)

def collectStrictly (symbols : List Symbol) : Except Fault Catalog :=
  symbols.foldlM (enterStrictly siblings) empty

end Catalog

/-! ## Groups -/

structure Group where
  owner : Text
  members : List Symbol
deriving DecidableEq, Repr

namespace Group

/-- Adds a symbol to the group of its owner, which is made behind the others if it is new. -/
def insert (owner : Text) (s : Symbol) : List Group → List Group
  | [] => [⟨owner, [s]⟩]
  | g :: gs =>
    if g.owner = owner then { g with members := g.members ++ [s] } :: gs
    else g :: insert owner s gs

/-- The identifiers of the members with their positions, in order. -/
def listing (g : Group) : List (Text × Int) :=
  (g.members.map fun s => (s.identifier, s.start)).mergeSort fun a b =>
    if a.1 = b.1 then a.2 ≤ b.2 else a.1.atMost b.1

/-- The symbols in groups, in the order in which the owners first come up.  Every symbol has to
have an owner. -/
def ofSymbols (symbols : List Symbol) : Except Fault (List Group) :=
  symbols.foldlM (fun gs s =>
    match s.owner? with
    | none => .error .unownedSymbol
    | some owner => .ok (insert owner s gs)) []

end Group

end ScriptDocs
