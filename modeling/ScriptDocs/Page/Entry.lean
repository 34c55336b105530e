import ScriptDocs.Html.Node
import ScriptDocs.Link
import ScriptDocs.Page.Signature

/-!
# Entries of a page

What a page says about one symbol.  Descriptions may hold markup, and web addresses in them become
links.  How markup is read is left open: pages are made with any parser.

* `summary`: one line per function, with a link to its description.
* `functionEntry`, `symbolEntry`: the description of a function, and of any other symbol.
-/

namespace ScriptDocs.Page

open Html

variable (parser : Parser)

def prose (t : Text) : List Node := parser (Link.webLinks t)

def elementOf (name : String) (children : List Node) : Node := .element name.toList [] children

def labelled (name : String) (content : Text) : Node := .labelled name.toList content

def heading (content : Text) : Node := labelled "h2" content

/-- The comment of a symbol that is to be shown. -/
def commentOf (s : Symbol) : Except Fault Comment :=
  match s.comment? with
  | none => .error .undocumented
  | some c => .ok c

/-! ## Summaries -/

def codeLine (name : Text) (s : Symbol) : Except Fault Node := do
  let comment ← commentOf s
  let signature ← Signature.ofFlags comment.flags
  let returned := match signature.returned? with
    | none => []
    | some r => [Node.text " : ".toList, Node.text r.signature]
  return elementOf "code" (.link name ('#' :: name) :: .text signature.inline :: returned)

/-- The name under which a function is summed up: an instance method goes by its property. -/
def summaryName (s : Symbol) : Except Fault Text :=
  if s.isStatic then .ok s.identifier
  else match s.property? with
    | none => .error .unnamedMethod
    | some p => .ok p

/-- A function in a summary, with the first part of its description. -/
def summaryEntry (s : Symbol) : Except Fault Node := do
  let comment ← commentOf s
  let name ← summaryName s
  let line ← codeLine name s
  let description := match comment.descriptions with
    | [] => []
    | first :: _ => prose parser first
  return elementOf "dt" [line, elementOf "dd" description]

def summary (functions : List Symbol) : Except Fault Node := do
  let entries ← functions.mapM (summaryEntry parser)
  return elementOf "dl" entries

/-! ## Descriptions -/

def paragraphs (c : Comment) : List Node :=
  c.descriptions.map fun d => elementOf "p" (prose parser d)

/-- A type, and the description behind it. -/
def typed (type text : Text) : List Node :=
  labelled "code" ('{' :: type ++ ['}']) :: .text [' '] :: prose parser text

def parameterList (ps : List Parameter) : List Node :=
  if ps.isEmpty then []
  else
    let term (p : Parameter) : Node :=
      .element "dt".toList [] [.text p.name, elementOf "dd" (typed parser p.type p.text)]
    [labelled "h4" "Parameters:".toList, elementOf "dl" (ps.map term)]

def returnParagraph : Option Returned → List Node
  | none => []
  | some r => [labelled "h4" "Returns:".toList, elementOf "p" (typed parser r.type r.text)]

/-- The description of a function.  Its heading can be linked to by the identifier. -/
def functionEntry (s : Symbol) : Except Fault (List Node) := do
  let comment ← commentOf s
  let signature ← Signature.ofFlags comment.flags
  let title : Node := .element "h3".toList [⟨"id".toList, s.identifier⟩]
    (if s.identifier.isEmpty then [] else [.text s.identifier])
  let full := signature.full (.ofFlags comment.flags) s.identifier
  return title :: labelled "pre" full :: parameterList parser signature.parameters ++
    returnParagraph parser signature.returned? ++ paragraphs parser comment

/-- The description of a symbol that is no function. -/
def symbolEntry (s : Symbol) : Except Fault (List Node) := do
  let comment ← commentOf s
  return labelled "h3" s.identifier :: paragraphs parser comment

end ScriptDocs.Page
