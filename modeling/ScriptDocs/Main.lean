import ScriptDocs.Command.Run
import ScriptDocs.File.Tree
import ScriptDocs.Html.Fragment
import ScriptDocs.Parsing

/-!
# The command line

Three commands over the files of the machine.  Given the word `tree` it writes the scripts below a
directory as JSON; given the word `parse` it hands such a tree to the external parser; otherwise it
documents the files that are named.  What the commands do is in `ScriptTree.command`,
`Parsing.command` and `Command.run`; here are only the reading and the writing.
-/

namespace ScriptDocs.Main

/-- What is shown when help is asked for, or when the arguments are not understood. -/
def usage : String :=
  "usage: scriptdocs [-h] --tar TAR [files ...]\n" ++
  "       scriptdocs tree [directory]\n" ++
  "       scriptdocs parse < tree"

/-- Tells of a fault; the result is the exit code. -/
def report (f : Fault) : IO UInt32 := do
  match f with
  | .exit 0 => IO.println usage; return 0
  | .exit code => IO.eprintln usage; return UInt32.ofNat code
  | f => IO.eprintln (String.ofList f.message); return 1

def write (r : Except Fault Text) : IO UInt32 := do
  match r with
  | .ok t => IO.print (String.ofList t); return 0
  | .error f => report f

def readFile (path : Text) : IO (Text × Except Fault Text) := do
  match ← (IO.FS.readBinFile (String.ofList path)).toBaseIO with
  | .ok bytes => return (path, FileStore.textOf bytes.toList)
  | .error _ => return (path, .error (.noFile path))

/-- What a run can reach if these files have been read. -/
def accessTo (files : List (Text × Except Fault Text)) : Command.Access where
  read path := ((files.find? (·.1 = path)).map (·.2)).getD (.error (.noFile path))
  openFault? path := if path.isEmpty then some .nothingToOpen else none

def document (args : List Text) : IO UInt32 := do
  let paths := match Command.Options.ofArguments args with
    | .ok o => o.paths.filter Command.isDocumented
    | .error _ => []
  let files ← paths.mapM readFile
  let run := Command.run Html.fragment .asFound (accessTo files) args
  for note in run.notes do
    IO.eprintln (String.ofList (note.level.word ++ ": ".toList ++ note.message))
  if let some (path, content) := run.written? then
    IO.FS.writeBinFile (String.ofList path) ⟨content.toArray⟩
  match run.fault? with
  | some f => report f
  | none => return 0

/-- The scripts below a directory, by their paths from there. -/
def storeBelow (directory : String) : IO FileStore := do
  let top := (← IO.currentDir) / directory
  match ← top.walkDir.toBaseIO with
  | .error _ => return .empty
  | .ok paths =>
    let mut files := []
    for path in paths do
      if Path.extension path.toString.toList = ".js".toList && !(← path.isDir) then
        let bytes ← IO.FS.readBinFile path
        files := (path.toString.toList.drop (top.toString.length + 1), bytes.toList) :: files
    return .ofList files

def tree (args : List Text) : IO UInt32 := do
  match ScriptTree.directoryOf args with
  | .error f => report f
  | .ok directory => write (ScriptTree.command (← storeBelow (String.ofList directory)) [])

/-- All that can be read from a stream, behind what has been read. -/
partial def readAll (input : IO.FS.Stream) (before : String) : IO String := do
  let line ← input.getLine
  if line.isEmpty then return before else readAll input (before ++ line)

/-- Hands the tree on the standard input to the external parser, which is not there. -/
def parse : IO UInt32 := do
  write (Parsing.command none (← readAll (← IO.getStdin) "").toList)

end ScriptDocs.Main

def main (args : List String) : IO UInt32 :=
  match args.map String.toList with
  | ['t', 'r', 'e', 'e'] :: rest => ScriptDocs.Main.tree rest
  | [['p', 'a', 'r', 's', 'e']] => ScriptDocs.Main.parse
  | args => ScriptDocs.Main.document args
