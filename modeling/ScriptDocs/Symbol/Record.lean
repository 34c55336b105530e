import ScriptDocs.Symbol.Basic

/-!
# Records in messages

How symbols, comments and sources are shown in messages: the fields of a record with their names,
texts in quotes.  A symbol and its source refer to each other; the one that is being shown further
out is only hinted at by dots.
-/

namespace ScriptDocs

def record (name : String) (fields : List (String × Text)) : Text :=
  let shown := fields.map fun f => f.1.toList ++ '=' :: f.2
  name.toList ++ '(' :: List.intercalate ", ".toList shown ++ [')']

def shownOption {α : Type} (shown : α → Text) : Option α → Text
  | none => "None".toList
  | some a => shown a

def shownList {α : Type} (shown : α → Text) (as : List α) : Text :=
  '[' :: List.intercalate ", ".toList (as.map shown) ++ [']']

def shownSet {α : Type} (shown : α → Text) (as : List α) : Text :=
  if as.isEmpty then "set()".toList
  else '{' :: List.intercalate ", ".toList (as.map shown) ++ ['}']

def shownBool (b : Bool) : Text := if b then "True".toList else "False".toList

/-- What stands for a record that is being shown further out. -/
def dots : Text := "...".toList

def Flag.shown (f : Flag) : Text :=
  record "Flag" [("name", Text.quoted f.name), ("text", Text.quoted f.text)]

def Comment.shown (c : Comment) : Text :=
  record "Comment"
    [("text", Text.quoted c.text), ("start", Text.integer c.start), ("end", Text.integer c.stop),
     ("flags", shownList Flag.shown c.flags),
     ("description_sections", shownList Text.quoted c.descriptions)]

/-- A symbol as a record, with the given text for its source. -/
def Symbol.shownWith (source : Text) (s : Symbol) : Text :=
  record "Symbol"
    [("identifier", Text.quoted s.identifier), ("start", Text.integer s.start),
     ("end", Text.integer s.stop), ("source", source),
     ("comment", shownOption Comment.shown s.comment?),
     ("namespace", shownOption Text.quoted s.owner?),
     ("property", shownOption Text.quoted s.property?),
     ("type", shownOption (fun k => Text.quoted k.word) s.kind?),
     ("static", shownOption shownBool s.static?)]

/-- A source as a record, with the given texts for its symbols. -/
def Origin.shownWith (symbols : List Text) (o : Origin) : Text :=
  record "Source"
    [("script", Text.quoted o.script), ("path", shownOption Text.quoted o.path?),
     ("provides", shownSet Text.quoted o.provides), ("requires", shownSet Text.quoted o.requires),
     ("symbols", shownSet id symbols), ("filecomment", "None".toList)]

/-- A source in a message: the record, and the path if there is one. -/
def Origin.described (symbols : List Symbol) (o : Origin) : Text :=
  let path := match o.path? with
    | some (c :: cs) => ' ' :: c :: cs
    | _ => []
  o.shownWith (symbols.map (Symbol.shownWith dots)) ++ path

/-- A symbol in a message: the record, the identifier, and the source if there is one.  The
symbols of the source, of which it is one, are given apart. -/
def Symbol.described (siblings : List Symbol) (s : Symbol) : Text :=
  let sibling (t : Symbol) : Text := if t = s then dots else t.shownWith dots
  let source := match s.origin? with
    | none => "None".toList
    | some o => o.shownWith (siblings.map sibling)
  let behind := match s.origin? with
    | none => []
    | some o => ' ' :: o.described siblings
  s.shownWith source ++ ' ' :: s.identifier ++ behind

end ScriptDocs
