import ScriptDocs.File.Store
import ScriptDocs.Json.Writer
import ScriptDocs.Log

/-!
# Script trees

All scripts at and below a directory, as one map from their paths to their texts.  A directory
gives its own files before those of its subdirectories.

* `ScriptTree.scan`: the scripts below a directory.
* `ScriptTree.command`: the scripts as the text of a JSON object.
-/

namespace ScriptDocs.ScriptTree

/-- A script with its path from the directory that was scanned. -/
structure Entry where
  path : Text
  content : Text
deriving DecidableEq, Repr

structure Listing where
  entries : List Entry
  notes : List LogEntry
deriving DecidableEq, Repr

/-- A file below the directory that is scanned: its path from there, and the path by which it is
opened. -/
structure Found where
  key : Text
  path : Text
deriving DecidableEq, Repr

def found (s : FileStore) (root : Text) : List Found :=
  (s.walkAll root).flatMap fun visit => visit.names.map fun name =>
    let path := Path.join visit.path name
    ⟨Path.relative s.home path root, path⟩

def foundScripts (s : FileStore) (root : Text) : List Found :=
  (found s root).filter fun f => Path.extension f.path = ".js".toList

/-- The entries with one more, in place of the one that has its path. -/
def setEntry (e : Entry) : List Entry → List Entry
  | [] => [e]
  | first :: rest => if first.path = e.path then e :: rest else first :: setEntry e rest

def readInto (s : FileStore) (l : Listing) (f : Found) : Except Fault Listing :=
  (s.readText f.path).map fun t =>
    ⟨setEntry ⟨f.key, t⟩ l.entries, l.notes ++ [.info ("Reading file: ".toList ++ f.key)]⟩

/-- The scripts at and below the directory to which a path leads; none if it leads to none. -/
def scan (s : FileStore) (root : Text) : Except Fault Listing :=
  (foundScripts s root).foldlM (readInto s) ⟨[], []⟩

def Listing.sorted (l : Listing) : Listing :=
  { entries := l.entries.mergeSort fun a b => a.path.atMost b.path
    notes := l.notes.mergeSort fun a b => a.message.atMost b.message }

/-- What the command says about itself when it is not used as it should be. -/
def usage : Text :=
  ("Scans a directory tree for .js files and builds a JSON representation.\n\n" ++
   "Scans a directory tree for .js files, and puts the contents into a single JSON\n" ++
   "object map of path to content.\n\n" ++
   "Output is written to stdout.\n\n" ++
   "Usage:\n\n" ++
   "$ genjsonfiletree.py\n\n" ++
   "Scans the current directory.\n\n" ++
   "$ genjsonfiletree.py path/to/dir\n\n" ++
   "Scans the given directory.\n").toList

/-- The directory that the arguments name: the current one if there are none. -/
def directoryOf : List Text → Except Fault Text
  | [] => .ok ".".toList
  | [path] => .ok path
  | _ => .error (.exitText usage)

/-- The scripts of the directory that the arguments name, as the text of a JSON object. -/
def command (s : FileStore) (args : List Text) : Except Fault Text := do
  let path ← directoryOf args
  let listing ← scan s path
  (Json.Data.ofTexts (listing.entries.map fun e => (e.path, e.content))).write

end ScriptDocs.ScriptTree
