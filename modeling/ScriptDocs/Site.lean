import ScriptDocs.Catalog
import ScriptDocs.Page.Content

/-!
# Sites

The documentation of a set of scripts: one page for each namespace that owns a documented symbol.
The scripts are scanned in order, their symbols are collected in a catalog, and the catalog is
grouped by namespaces; the pages come in the order of the groups.

The symbols of a source, and those of a group, are sets.  The order in which they are listed is left
open: `Orders` is one choice of it.
-/

namespace ScriptDocs

structure PageTree where
  name : Text
  tree : Html.Node
deriving Repr

structure PageFile where
  name : Text
  content : Text
deriving DecidableEq, Repr

section

variable (parser : Html.Parser)

def Group.tree (g : Group) : Except Fault PageTree := do
  let tree ← Page.document parser g.owner g.members
  return ⟨g.owner ++ ".html".toList, tree⟩

/-- The pages of groups as trees, in order, up to the first that fails. -/
def pageTrees (gs : List Group) : Produced PageTree :=
  Produced.through ⟨gs, none⟩ fun g => (g.tree parser).map some

def PageTree.file (p : PageTree) : Except Fault PageFile := do
  let content ← Page.written p.tree
  return ⟨p.name, content⟩

/-- The pages of groups, in order, up to the first that fails.  Each is written before the next is
made. -/
def pages (gs : List Group) : Produced PageFile :=
  (pageTrees parser gs).through fun p => p.file.map some

end

/-- A script with the path under which it was given. -/
structure Script where
  path : Text
  content : Text
deriving DecidableEq, Repr

/-- The orders in which sets of symbols are listed: those of the sources, by their numbers, and
those of the groups, by their owners. -/
structure Orders where
  ofSource : Nat → List Symbol → List Symbol
  ofGroup : Text → List Symbol → List Symbol
  perm_ofSource : ∀ i symbols, (ofSource i symbols).Perm symbols
  perm_ofGroup : ∀ owner symbols, (ofGroup owner symbols).Perm symbols

/-- Symbols are listed as they were found. -/
def Orders.asFound : Orders where
  ofSource _ symbols := symbols
  ofGroup _ symbols := symbols
  perm_ofSource _ _ := .refl _
  perm_ofGroup _ _ := .refl _

/-- The symbols of a set of scripts, collected and grouped, and all that was noted on the way. -/
structure Site where
  symbols : List Symbol
  groups : List Group
  notes : List LogEntry
deriving DecidableEq, Repr

namespace Site

def scanAll (scripts : List Script) : Except Fault (List (Source × List LogEntry)) :=
  scripts.mapM fun s => Source.scan s.content (some s.path)

variable (orders : Orders)

/-- The sources with their symbols in the order in which they are listed. -/
def listed (scanned : List (Source × List LogEntry)) : List Source :=
  scanned.mapIdx fun i x => { x.1 with symbols := orders.ofSource i x.1.symbols }

/-- The groups with their members in the order in which they are listed. -/
def regrouped (groups : List Group) : List Group :=
  groups.map fun g => { g with members := orders.ofGroup g.owner g.members }

def siblings (sources : List Source) (s : Symbol) : List Symbol :=
  ((sources.find? fun source => s.origin? = some source.origin).map (·.symbols)).getD []

def ofScripts (scripts : List Script) : Except Fault Site := do
  let scanned ← scanAll scripts
  let sources := listed orders scanned
  let catalog := Catalog.collect (siblings sources) (sources.flatMap (·.symbols))
  let groups ← Group.ofSymbols catalog.symbols
  return ⟨catalog.symbols, regrouped orders groups, scanned.flatMap (·.2) ++ catalog.notes⟩

end Site

end ScriptDocs
