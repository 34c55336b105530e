import ScriptDocs.Text.Basic

/-!
# Paths

A place is the list of names that leads from the top to a file or a directory.  A path is a text
that spells a place: names with slashes between them, where a dot stays where it is and two dots go
one directory up.  It begins at the top if it begins with a slash, and elsewhere, at home,
otherwise.  Here is what can be said of a path without a look at the files.

* `join`: a path and a name behind it.
* `normal`: the place that a path spells.
* `relative`: the path that leads from one place to another.
* `extension`: the ending of a file name.
-/

namespace ScriptDocs

/-- The names that lead from the top to a file or a directory. -/
abbrev Place := List Text

namespace Path

def isAbsolute (path : Text) : Bool := path.head? = some '/'

/-- A path and a name behind it.  In place of a name there may be another path; if that begins at
the top, it stands alone. -/
def join (path name : Text) : Text :=
  if isAbsolute name then name
  else if path.isEmpty || path.getLast? = some '/' then path ++ name
  else path ++ '/' :: name

/-- The place to which one more name leads.  At the top there is nothing further up. -/
def follow (p : Place) (name : Text) : Place :=
  if name = [] || name = ".".toList then p
  else if name = "..".toList then p.dropLast
  else p ++ [name]

def origin (home : Place) (path : Text) : Place := if isAbsolute path then [] else home

def normal (home : Place) (path : Text) : Place :=
  (Text.fields '/' path).foldl follow (origin home path)

/-- How many names two places have in common before they part. -/
def shared : Place → Place → Nat
  | a :: as, b :: bs => if a = b then shared as bs + 1 else 0
  | _, _ => 0

/-- The path to the place that `path` spells, from the place that `start` spells. -/
def relative (home : Place) (path start : Text) : Text :=
  let goal := normal home path
  let base := normal home start
  let common := shared goal base
  let names := List.replicate (base.length - common) "..".toList ++ goal.drop common
  if names.isEmpty then ".".toList else names.foldl join []

def fileName (path : Text) : Text := (Text.fields '/' path).getLastD []

/-- The ending of the file name at the end of a path, from the last dot on.  Dots at its start begin
no ending. -/
def extension (path : Text) : Text :=
  let name := (fileName path).dropWhile (· = '.')
  if name.contains '.' then '.' :: (Text.fields '.' name).getLastD [] else []

end Path

end ScriptDocs
