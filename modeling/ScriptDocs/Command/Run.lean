import ScriptDocs.Archive.Basic
import ScriptDocs.Command.Options
import ScriptDocs.File.Store
import ScriptDocs.Site

/-!
# Runs of the documentation command

A run reads the scripts that are named, documents them, and writes the pages into an archive.  All
scripts are read before the first is scanned, and the archive is opened only when the symbols are
grouped; from then on its old content is gone, also if a page fails.

* `run`: what a run does, given what it can read and write.
* `FileStore.after`: the files after a run.
-/

namespace ScriptDocs.Command

/-- What a run can reach: the text of the file at a path, and why the file there cannot be opened
to be written, if it cannot. -/
structure Access where
  read : Text → Except Fault Text
  openFault? : Text → Option Fault

/-- What a run has done: its notes, the file it has written with the new content, and the fault
that ended it, if one did. -/
structure Run where
  notes : List LogEntry
  written? : Option (Text × List UInt8)
  fault? : Option Fault
deriving Repr

def endsWith (ending t : Text) : Bool := ending.reverse.isPrefixOf t.reverse

/-- Whether the file at a path is documented: it is a script, but no list of dependencies and no
test. -/
def isDocumented (path : Text) : Bool :=
  let name := Path.fileName path
  endsWith ".js".toList name && name ≠ "deps.js".toList && !endsWith "_test.js".toList name

/-- The scripts at the paths, behind those read before.  No path may come twice. -/
def readScripts (a : Access) (before : List Script) : List Text → Except Fault (List Script)
  | [] => .ok before
  | path :: rest =>
    if before.any (·.path = path) then .error (.repeatedPath path)
    else match a.read path with
      | .error f => .error f
      | .ok content => readScripts a (before ++ [⟨path, content⟩]) rest

def entryOf (p : PageFile) : Archive.Entry := ⟨p.name, Utf8.encode p.content⟩

variable (parser : Html.Parser) (orders : Orders)

/-- Writes the pages of a site, behind what has been noted before. -/
def writePages (notes : List LogEntry) (path : Text) (site : Site) : Run :=
  let produced := pages parser site.groups
  let entries := produced.items.map entryOf
  let notes := notes ++
    produced.items.map fun p => .info ("Writing doc to tar: ".toList ++ p.name)
  match produced.fault? with
  | some f => ⟨notes, some (path, Archive.unfinished entries), some f⟩
  | none =>
    ⟨notes ++ [.info ("Tar written to ".toList ++ path)],
      some (path, Archive.ofEntries entries), none⟩

def runWith (a : Access) (o : Options) : Run :=
  let paths := o.paths.filter isDocumented
  let notes : List LogEntry :=
    [.info ("Found ".toList ++ Text.number paths.length ++ " paths.".toList),
     .info "Reading file contents.".toList]
  match readScripts a [] paths with
  | .error f => ⟨notes, none, some f⟩
  | .ok scripts =>
    match Site.ofScripts orders scripts with
    | .error f => ⟨notes, none, some f⟩
    | .ok site =>
      let notes := notes ++ site.notes ++ [.info ("Writing to tar: ".toList ++ o.archive)]
      match a.openFault? o.archive with
      | some f => ⟨notes, none, some f⟩
      | none => writePages parser notes o.archive site

def run (a : Access) (args : List Text) : Run :=
  match Options.ofArguments args with
  | .error f => ⟨[], none, some f⟩
  | .ok o => runWith parser orders a o

end ScriptDocs.Command

namespace ScriptDocs.FileStore

def access (s : FileStore) : Command.Access := ⟨s.readText, s.openFault?⟩

def after (s : FileStore) (r : Command.Run) : FileStore :=
  match r.written? with
  | none => s
  | some (path, content) =>
    match s.writePlace? path with
    | none => s
    | some p => s.put p content

end ScriptDocs.FileStore
