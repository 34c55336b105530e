import ScriptDocs.Page.Entry

/-!
# Pages

The page of a namespace: its symbols in the order of their identifiers, in sections by kind, with
the public methods summed up before they are described.
-/

namespace ScriptDocs.Page

open Html

variable (parser : Parser)

/-- A section with its heading, or nothing if there is nothing to show in it. -/
def sectionOf (title : String) (entry : Symbol → Except Fault (List Node))
    (symbols : List Symbol) : Except Fault (List Node) :=
  if symbols.isEmpty then .ok []
  else do
    let entries ← symbols.mapM entry
    return heading title.toList :: entries.flatten

def rule : Node := elementOf "hr" []

/-- An entry with a rule below it. -/
def ruled (entry : Symbol → Except Fault (List Node)) (s : Symbol) : Except Fault (List Node) := do
  let nodes ← entry s
  return nodes ++ [rule]

/-- The public ones among functions, which all have to have comments. -/
def publicOnes : List Symbol → Except Fault (List Symbol)
  | [] => .ok []
  | s :: ss =>
    match s.comment? with
    | none => .error .flagsWithoutComment
    | some c => (publicOnes ss).map fun rest =>
      if Visibility.ofFlags c.flags = .isPublic then s :: rest else rest

/-- A summary with its heading, unless it is left out. -/
def summarySection (title : String) (leftOut : Bool) (functions : List Symbol) :
    Except Fault (List Node) :=
  if leftOut then .ok []
  else do
    let list ← summary parser functions
    return [heading title.toList, list]

/-- The section of the static methods, with a rule above the first. -/
def staticMethods (functions : List Symbol) : Except Fault (List Node) :=
  if functions.isEmpty then .ok []
  else do
    let entries ← functions.mapM (ruled (functionEntry parser))
    return heading "Static methods".toList :: rule :: entries.flatten

def content (owner : Text) (symbols : List Symbol) : Except Fault (List Node) := do
  let symbols := Symbol.sorted symbols
  let methods := (Symbol.ofKind .function symbols).filter fun s => !s.isStatic
  let functions := (Symbol.ofKind .function symbols).filter Symbol.isStatic
  let instanceProperties := (Symbol.ofKind .property symbols).filter fun s => !s.isStatic
  let staticProperties := (Symbol.ofKind .property symbols).filter Symbol.isStatic
  let constructors ←
    sectionOf "Constructor" (symbolEntry parser) (Symbol.ofKind .constructor symbols)
  let interfaces ← sectionOf "Interface" (symbolEntry parser) (Symbol.ofKind .interface symbols)
  let publicMethods ← publicOnes methods
  let methodSummary ←
    summarySection parser "Public instance method summary" publicMethods.isEmpty publicMethods
  let publicFunctions ← publicOnes functions
  let functionSummary ←
    summarySection parser "Public static method summary" functions.isEmpty publicFunctions
  let enumerations ←
    sectionOf "Enumerations" (symbolEntry parser) (Symbol.ofKind .enumeration symbols)
  let methodEntries ← sectionOf "Instance methods" (ruled (functionEntry parser)) methods
  let propertyEntries ←
    sectionOf "Instance properties" (ruled (symbolEntry parser)) instanceProperties
  let functionEntries ← staticMethods parser functions
  let staticEntries ← sectionOf "Static properties" (ruled (symbolEntry parser)) staticProperties
  return labelled "h1" owner :: constructors ++ interfaces ++ methodSummary ++ functionSummary ++
    enumerations ++ methodEntries ++ propertyEntries ++ functionEntries ++ staticEntries

def document (owner : Text) (symbols : List Symbol) : Except Fault Node := do
  let nodes ← content parser owner symbols
  return elementOf "html" [elementOf "body" nodes]

/-- A tree as text, unless it holds a comment that cannot be written. -/
def written (n : Node) : Except Fault Text :=
  if n.writable then .ok n.write else .error .unwritableComment

/-- Nodes as text, unless they hold a comment that cannot be written. -/
def writtenAll (ns : List Node) : Except Fault Text :=
  if nodesWritable ns then .ok (writeNodes ns) else .error .unwritableComment

end ScriptDocs.Page
