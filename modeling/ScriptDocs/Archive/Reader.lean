import ScriptDocs.Archive.Basic

/-!
# Reading archives

The files of an archive: block by block, with the name from the extended header where there is
one.  A block of zeros, or the end of the bytes, ends the archive.
-/

namespace ScriptDocs.Archive

def slice (start length : Nat) (block : List UInt8) : List UInt8 := (block.drop start).take length

def octalValue (bytes : List UInt8) : Nat :=
  (bytes.takeWhile (· ≠ 0)).foldl (fun n b => n * 8 + (b.toNat - '0'.toNat)) 0

def textOf (bytes : List UInt8) : Text :=
  match Utf8.decode bytes with
  | .ok t => t
  | .error _ => []

def recordedName (record : List UInt8) : Text :=
  ((textOf record).dropWhile (· ≠ '=')).drop 1 |>.dropLast

/-- The files of the bytes; `named` is the name from an extended header in front. -/
def entriesFrom (named : Option Text) (bytes : List UInt8) : List Entry :=
  if bytes.length < blockSize then []
  else
    let block := bytes.take blockSize
    if block.all (· == 0) then []
    else
      let rest := bytes.drop blockSize
      let size := octalValue (slice 124 12 block)
      let content := rest.take size
      let behind := rest.drop (size + (filling blockSize size).length)
      if slice 156 1 block = [120] then entriesFrom (some (recordedName content)) behind
      else
        let name := named.getD (textOf ((slice 0 100 block).takeWhile (· ≠ 0)))
        ⟨name, content⟩ :: entriesFrom none behind
termination_by bytes.length
decreasing_by all_goals simp only [List.length_drop, blockSize] at *; omega

def entries (bytes : List UInt8) : List Entry := entriesFrom none bytes

end ScriptDocs.Archive
