import ScriptDocs.Fault
import ScriptDocs.File.Path

/-!
# Stores of files

Files in nested directories, without symbolic links.  A directory is there if there is a file or
another directory in it, or if it is listed.  To follow a path is to pass through directories: all
that is passed on the way has to be one.

* `locate?`: the place to which a path leads.
* `read?`, `put`: the content of a file.
* `walk`: the directories at and below the one to which a path leads.
-/

namespace ScriptDocs

/-- Files with their contents, directories that are there also if there is nothing in them, and the
place where the paths begin that do not begin at the top. -/
structure FileStore where
  files : List (Place × List UInt8)
  directories : List Place
  home : Place
deriving DecidableEq, Repr

namespace FileStore

/-- The store without files: a home, somewhere below the top. -/
def empty : FileStore := ⟨[], [["home".toList]], ["home".toList]⟩

def isDirectory (s : FileStore) (p : Place) : Bool :=
  p.isEmpty || (s.files.any fun f => p.isPrefixOf f.1 && p.length < f.1.length) ||
    s.directories.any fun d => p.isPrefixOf d

def step (s : FileStore) (p : Place) (name : Text) : Option Place :=
  if s.isDirectory p then some (Path.follow p name) else none

def locate? (s : FileStore) (path : Text) : Option Place :=
  if path.isEmpty then none
  else (Text.fields '/' path).foldlM s.step (Path.origin s.home path)

def contentAt? (s : FileStore) (p : Place) : Option (List UInt8) :=
  (s.files.find? fun f => f.1 = p).map (·.2)

def read? (s : FileStore) (path : Text) : Option (List UInt8) :=
  (s.locate? path).bind s.contentAt?

def textOf (bytes : List UInt8) : Except Fault Text :=
  match Utf8.fileText bytes with
  | .error f => .error (.undecodable f)
  | .ok t => .ok t

def passesFile (s : FileStore) (path : Text) : Bool :=
  let names := Text.fields '/' path
  (List.range names.length).any fun n =>
    ((names.take n).foldlM s.step (Path.origin s.home path)).any fun p => (s.contentAt? p).isSome

/-- Why there is no file where a path leads, if there is none. -/
def lost (s : FileStore) (path : Text) : Fault :=
  if (s.locate? path).any s.isDirectory then .isDirectory path
  else if s.passesFile path then .notDirectory path
  else .noFile path

def readText (s : FileStore) (path : Text) : Except Fault Text :=
  match s.read? path with
  | none => .error (s.lost path)
  | some bytes => textOf bytes

/-- The store with a file at a place, in place of the one that is there. -/
def put (s : FileStore) (p : Place) (content : List UInt8) : FileStore :=
  { s with files := s.files.filter (fun f => f.1 ≠ p) ++ [(p, content)] }

/-- Whether a file can be written where a path leads: it ends in a name, in a directory that is
there, and no directory is in the way. -/
def writePlace? (s : FileStore) (path : Text) : Option Place :=
  match s.locate? path with
  | none => none
  | some p => if s.isDirectory p || !s.isDirectory p.dropLast then none else some p

/-- Why a file cannot be opened to be written.  A path that ends in slashes asks for a directory. -/
def openFault? (s : FileStore) (path : Text) : Option Fault :=
  let bare := (path.reverse.dropWhile (· = '/')).reverse
  if path.isEmpty then some .nothingToOpen
  else if (s.writePlace? path).isSome then none
  else if (s.writePlace? bare).isSome then some (.isDirectory path)
  else some (s.lost path)

/-- The store of files at home, given by names with slashes; a later file takes the place of an
earlier one. -/
def ofList (files : List (Text × List UInt8)) : FileStore :=
  files.foldl (fun s f => s.put (Path.normal s.home f.1) f.2) empty

/-! ## Walks -/

def places (s : FileStore) : List Place := s.files.map (·.1) ++ s.directories

/-- The names of the files in a directory, in code point order. -/
def fileNames (s : FileStore) (p : Place) : List Text :=
  (s.files.filterMap fun f => match p.isPrefixOf? f.1 with
    | some [name] => some name
    | _ => none).mergeSort Text.atMost

/-- The names of the directories in a directory, in code point order. -/
def directoryNames (s : FileStore) (p : Place) : List Text :=
  Text.sortedSet ((s.places.filterMap fun q => (p.isPrefixOf? q).bind List.head?).filter
    fun name => s.isDirectory (p ++ [name]))

/-- A directory to which a walk comes: its path, and the names of the files in it. -/
structure Visit where
  path : Text
  names : List Text
deriving DecidableEq, Repr

/-- The directory to which a path leads, and those in it down to a depth, each before those in
it. -/
def walk (s : FileStore) : Nat → Text → List Visit
  | 0, _ => []
  | depth + 1, path =>
    match s.locate? path with
    | none => []
    | some p =>
      if s.isDirectory p then
        ⟨path, s.fileNames p⟩ ::
          (s.directoryNames p).flatMap fun name => s.walk depth (Path.join path name)
      else []

/-- A depth that no directory exceeds. -/
def depth (s : FileStore) : Nat := (s.places.map List.length).foldr Nat.max 0

def walkAll (s : FileStore) (path : Text) : List Visit := s.walk (s.depth + 1) path

end FileStore

end ScriptDocs
