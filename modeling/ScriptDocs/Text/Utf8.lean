import ScriptDocs.Text.Lines

/-!
# Files of text

Files are bytes.  `decode` reads them as UTF-8 and accepts nothing else: it stops at the first
byte with which no character can begin, at the first byte that does not continue the character
begun, and at an end in the middle of a character.  `fileText` then reads every kind of line end
as a line feed.
-/

namespace ScriptDocs

namespace Utf8

inductive Reason where
  /-- No character begins with this byte. -/
  | start
  /-- The byte does not continue the character begun before it. -/
  | continuation
  /-- The bytes end in the middle of a character. -/
  | ended
deriving DecidableEq, Repr

/-- The first bytes that cannot be read: they stand at the positions from `start` up to, and
without, `stop`, and `byte` is the first of them. -/
structure Fault where
  start : Nat
  stop : Nat
  byte : UInt8
  reason : Reason
deriving DecidableEq, Repr

def Reason.message : Reason → Text
  | .start => "invalid start byte".toList
  | .continuation => "invalid continuation byte".toList
  | .ended => "unexpected end of data".toList

def Fault.message (f : Fault) : Text :=
  "'utf-8' codec can't decode ".toList ++
  (if f.stop = f.start + 1 then
    "byte 0x".toList ++ Text.hexadecimal 2 f.byte.toNat ++ " in position ".toList ++
      Text.number f.start
  else
    "bytes in position ".toList ++ Text.number f.start ++ "-".toList ++ Text.number (f.stop - 1)) ++
  ": ".toList ++ f.reason.message

def continues (b : UInt8) : Bool := 0x80 ≤ b && b ≤ 0xBF

/-- Whether `b` can follow the first byte `a`: the shorter spellings, the surrogates and what
lies beyond the last code point are left out. -/
def follows (a b : UInt8) : Bool :=
  continues b && !(a == 0xE0 && b < 0xA0) && !(a == 0xED && b > 0x9F) &&
    !(a == 0xF0 && b < 0x90) && !(a == 0xF4 && b > 0x8F)

/-- The character with the given leading bits, followed by the six bits of each further byte. -/
def assemble (lead : Nat) (rest : List UInt8) : Char :=
  Char.ofNat (rest.foldl (fun n b => n * 64 + b.toNat % 64) lead)

/-- Reads the bytes from position `pos` on; `read` holds the characters before it, last first. -/
def decodeFrom (pos : Nat) (read : Text) : List UInt8 → Except Fault Text
  | [] => .ok read.reverse
  | a :: rest =>
    if a < 0x80 then decodeFrom (pos + 1) (Char.ofNat a.toNat :: read) rest
    else if a < 0xC2 || a > 0xF4 then .error ⟨pos, pos + 1, a, .start⟩
    else match rest with
      | [] => .error ⟨pos, pos + 1, a, .ended⟩
      | b :: rest =>
        if !follows a b then .error ⟨pos, pos + 1, a, .continuation⟩
        else if a < 0xE0 then
          decodeFrom (pos + 2) (assemble (a.toNat - 0xC0) [b] :: read) rest
        else match rest with
          | [] => .error ⟨pos, pos + 2, a, .ended⟩
          | c :: rest =>
            if !continues c then .error ⟨pos, pos + 2, a, .continuation⟩
            else if a < 0xF0 then
              decodeFrom (pos + 3) (assemble (a.toNat - 0xE0) [b, c] :: read) rest
            else match rest with
              | [] => .error ⟨pos, pos + 3, a, .ended⟩
              | d :: rest =>
                if !continues d then .error ⟨pos, pos + 3, a, .continuation⟩
                else decodeFrom (pos + 4) (assemble (a.toNat - 0xF0) [b, c, d] :: read) rest

def decode (bytes : List UInt8) : Except Fault Text := decodeFrom 0 [] bytes

def encode (t : Text) : List UInt8 := t.flatMap String.utf8EncodeChar

/-- The text of a file: its characters, with every line end made a line feed. -/
def fileText (bytes : List UInt8) : Except Fault Text := (decode bytes).map Text.unixBreaks

end Utf8

end ScriptDocs
