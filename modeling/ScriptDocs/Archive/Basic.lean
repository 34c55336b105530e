import ScriptDocs.Text.Utf8

/-!
# Archives

A tape archive is a row of blocks of 512 bytes.  Each file has a header block with its name and
size, followed by its content, filled up with zeros to whole blocks.  A name that does not fit the
header, because it is too long or not ASCII, stands in an extended header in front.  Two blocks of
zeros end the archive, which is filled up to whole records of twenty blocks.

* `entryBytes`: the blocks of one file.
* `finish`: what ends an archive of which a number of bytes has been written.
-/

namespace ScriptDocs.Archive

structure Entry where
  name : Text
  content : List UInt8
deriving DecidableEq, Repr

def blockSize : Nat := 512

def recordSize : Nat := 20 * blockSize

/-- The bytes that fill up a length to a multiple of `size`. -/
def filling (size length : Nat) : List UInt8 :=
  List.replicate ((size - length % size) % size) 0

/-- Bytes cut or filled up with zeros to a width. -/
def fitted (width : Nat) (bytes : List UInt8) : List UInt8 :=
  bytes.take width ++ List.replicate (width - bytes.length) 0

/-- The bytes of a text, with a question mark for what is not ASCII. -/
def asciiBytes (t : Text) : List UInt8 :=
  t.map fun c => if c.toNat < 128 then c.toNat.toUInt8 else '?'.toNat.toUInt8

/-- A number in octal digits, with zeros in front and a zero byte behind. -/
def octal (width n : Nat) : List UInt8 :=
  let digits := Nat.toDigits 8 n
  asciiBytes (List.replicate (width - 1 - digits.length) '0' ++ digits) ++ [0]

def headerWith (checksum : List UInt8) (name : Text) (mode size : Nat) (type : Char) :
    List UInt8 :=
  fitted blockSize
    (fitted 100 (asciiBytes name) ++ octal 8 mode ++ octal 8 0 ++ octal 8 0 ++ octal 12 size ++
      octal 12 0 ++ checksum ++ asciiBytes [type] ++ fitted 100 [] ++
      asciiBytes "ustar\x0000".toList)

/-- The header of a file.  The checksum is the sum of the header's bytes, with blanks for itself. -/
def header (name : Text) (mode size : Nat) (type : Char) : List UInt8 :=
  let blanks := List.replicate 8 32
  let sum := (headerWith blanks name mode size type).foldl (fun n b => n + b.toNat) 0
  headerWith (octal 7 sum ++ [32]) name mode size type

def fits (name : Text) : Bool := name.length ≤ 100 && name.all fun c => c.toNat < 128

/-- The length of a record of an extended header that counts itself: `length` bytes and the digits
of the whole. -/
def countedLength (length : Nat) : Nat :=
  let first := length + (Nat.toDigits 10 length).length
  length + (Nat.toDigits 10 first).length

def nameRecord (name : Text) : List UInt8 :=
  let value := " path=".toList ++ name ++ ['\n']
  let length := (Utf8.encode value).length
  asciiBytes (Nat.toDigits 10 (countedLength length)) ++ Utf8.encode value

def blocks (name : Text) (mode : Nat) (type : Char) (content : List UInt8) : List UInt8 :=
  header name mode content.length type ++ content ++ filling blockSize content.length

def entryBytes (e : Entry) : List UInt8 :=
  (if fits e.name then [] else blocks "././@PaxHeader".toList 0 'x' (nameRecord e.name)) ++
    blocks e.name 0o644 '0' e.content

/-- What ends an archive of which `length` bytes have been written. -/
def finish (length : Nat) : List UInt8 :=
  let ended := List.replicate (2 * blockSize) 0
  ended ++ filling recordSize (length + 2 * blockSize)

/-- The archive of some files, without its end. -/
def unfinished (entries : List Entry) : List UInt8 := entries.flatMap entryBytes

def ofEntries (entries : List Entry) : List UInt8 :=
  unfinished entries ++ finish (unfinished entries).length

end ScriptDocs.Archive
