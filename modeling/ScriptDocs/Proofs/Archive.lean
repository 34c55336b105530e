import Mathlib.Algebra.Group.Nat.Defs
import ScriptDocs.Archive.Reader
import ScriptDocs.Proofs.List
import ScriptDocs.Proofs.Text.Utf8

/-!
# Archives that are read back

A header tells its reader how many bytes of content follow, and the blocks of a file are told apart
by that alone.  So an archive can be read file by file, from the front, whatever stands behind, and
its files are those that were written, whether it was finished or broken off.

* `Storable`: the files that can be read back.
* `layout_header`: the fields of a header, by their places.
* `entriesFrom_blocks`: one header with its content is read in one step.
* `entriesFrom_entryBytes`: one file is read in one or two such steps.
* `entries_unfinished`, `entries_ofEntries`: whole archives.
-/

namespace ScriptDocs.Archive

/-! ### Fields -/

theorem slice_append {a b c : List UInt8} {start length : Nat} (ha : a.length = start)
    (hb : b.length = length) : slice start length (a ++ (b ++ c)) = b := by
  subst ha hb
  rw [slice, List.drop_left, List.take_left]

theorem length_fitted (width : Nat) (bytes : List UInt8) : (fitted width bytes).length = width := by
  rw [fitted, List.length_append, List.length_take, List.length_replicate]
  omega

theorem fitted_of_le {width : Nat} {bytes : List UInt8} (h : bytes.length ≤ width) :
    fitted width bytes = bytes ++ List.replicate (width - bytes.length) 0 := by
  rw [fitted, List.take_of_length_le h]

theorem length_asciiBytes (t : Text) : (asciiBytes t).length = t.length := List.length_map ..

theorem toNat_toUInt8 {c : Char} (h : c.toNat < 128) : c.toNat.toUInt8.toNat = c.toNat :=
  UInt8.toNat_ofNat_of_lt (Nat.lt_trans h (by decide))

/-- The bytes of an ASCII text are those that UTF-8 has for it. -/
theorem encode_ascii {t : Text} (h : ∀ c ∈ t, c.toNat < 128) : Utf8.encode t = asciiBytes t := by
  induction t with
  | nil => rfl
  | cons c cs ih =>
    obtain ⟨hc, hcs⟩ := List.forall_mem_cons.mp h
    have hbyte : String.utf8EncodeChar c = [c.toNat.toUInt8] := by
      have hshape := Utf8.Shape.one (a := c.toNat.toUInt8) (by rw [toNat_toUInt8 hc]; exact hc)
      have hencode := hshape.encode_eq
      rwa [toNat_toUInt8 hc, Char.ofNat_toNat] at hencode
    rw [Utf8.encode, List.flatMap_cons, hbyte, asciiBytes, List.map_cons, if_pos hc]
    exact congrArg (_ :: ·) (ih hcs)

theorem zero_notMem_asciiBytes {t : Text} (h : ∀ c ∈ t, c.toNat < 128) (hzero : '\x00' ∉ t) :
    0 ∉ asciiBytes t := by
  intro hmem
  obtain ⟨c, hc, hbyte⟩ := List.mem_map.mp hmem
  rw [if_pos (h c hc)] at hbyte
  have hnat : c.toNat = '\x00'.toNat := by rw [← toNat_toUInt8 (h c hc), hbyte]; rfl
  exact hzero (Char.toNat_inj.mp hnat ▸ hc)

/-! ### Numbers -/

theorem length_octal {width n : Nat} (hwidth : 1 < width) (h : n < 8 ^ (width - 1)) :
    (octal width n).length = width := by
  have hdigits : (Nat.toDigits 8 n).length ≤ width - 1 :=
    (Nat.length_toDigits_le_iff (by decide) (by omega)).mpr h
  simp only [octal, List.length_append, length_asciiBytes, List.length_replicate,
    List.length_singleton]
  omega

theorem ofDigitChars_zeros (b k : Nat) (digits : List Char) :
    Nat.ofDigitChars b (List.replicate k '0' ++ digits) 0 = Nat.ofDigitChars b digits 0 := by
  induction k with
  | zero => rfl
  | succ k ih =>
    rw [List.replicate_succ, List.cons_append, Nat.ofDigitChars_cons, Nat.mul_zero]
    exact ih

theorem ascii_of_isDigit {c : Char} (h : c.isDigit = true) : c.toNat < 128 ∧ c ≠ '\x00' := by
  obtain ⟨hlow, hhigh⟩ := Char.isDigit_iff_toNat.mp h
  refine ⟨Nat.lt_of_le_of_lt hhigh (by decide), ?_⟩
  rintro rfl
  exact absurd hlow (by decide)

theorem foldl_asciiBytes {digits : Text} (h : ∀ c ∈ digits, c.toNat < 128) (n : Nat) :
    (asciiBytes digits).foldl (fun n b => n * 8 + (b.toNat - '0'.toNat)) n =
      Nat.ofDigitChars 8 digits n := by
  induction digits generalizing n with
  | nil => rfl
  | cons c cs ih =>
    obtain ⟨hc, hcs⟩ := List.forall_mem_cons.mp h
    rw [asciiBytes, List.map_cons, List.foldl_cons, if_pos hc, toNat_toUInt8 hc,
      Nat.ofDigitChars_cons, Nat.mul_comm 8 n]
    exact ih hcs _

/-- The digits of a number are read as the number. -/
theorem octalValue_octal (width n : Nat) : octalValue (octal width n) = n := by
  let digits := List.replicate (width - 1 - (Nat.toDigits 8 n).length) '0' ++ Nat.toDigits 8 n
  have hdigits : ∀ c ∈ digits, c.toNat < 128 ∧ c ≠ '\x00' := by
    intro c hc
    rcases List.mem_append.mp hc with hc | hc
    · rw [List.eq_of_mem_replicate hc]
      decide
    · exact ascii_of_isDigit (Nat.isDigit_of_mem_toDigits (by decide) (by decide) hc)
  have hzero : 0 ∉ asciiBytes digits :=
    zero_notMem_asciiBytes (fun c hc => (hdigits c hc).1) fun h => (hdigits _ h).2 rfl
  calc octalValue (octal width n)
      = (asciiBytes digits).foldl (fun n b => n * 8 + (b.toNat - '0'.toNat)) 0 := by
        rw [octalValue, octal, takeWhile_ne_iff.mpr hzero]
    _ = Nat.ofDigitChars 8 (Nat.toDigits 8 n) 0 := by
        rw [foldl_asciiBytes fun c hc => (hdigits c hc).1, ofDigitChars_zeros]
    _ = n := Nat.ofDigitChars_toDigits (by decide) (by decide)

/-! ### Headers -/

/-- The fields of a header that are read, at their places. -/
structure Layout (name : Text) (size : Nat) (type : Char) (block : List UInt8) : Prop where
  length : block.length = blockSize
  name : slice 0 100 block = fitted 100 (asciiBytes name)
  size : slice 124 12 block = octal 12 size
  type : slice 156 1 block = asciiBytes [type]

theorem layout_of_fields (name : Text) {size : Nat} (type : Char) {owners sum rest : List UInt8}
    (howners : owners.length = 24) (hsize : (octal 12 size).length = 12) (hsum : sum.length = 20)
    (hrest : rest.length = 355) :
    Layout name size type (fitted 100 (asciiBytes name) ++ (owners ++ (octal 12 size ++
      (sum ++ (asciiBytes [type] ++ rest))))) := by
  have hname : (fitted 100 (asciiBytes name)).length = 100 := length_fitted ..
  have htype : (asciiBytes [type]).length = 1 := length_asciiBytes _
  refine ⟨?_, slice_append (a := []) rfl hname, ?_, ?_⟩
  · simp only [List.length_append, hname, howners, hsize, hsum, htype, hrest, blockSize]
  · rw [← List.append_assoc]
    exact slice_append (by rw [List.length_append, hname, howners]) hsize
  · rw [← List.append_assoc, ← List.append_assoc, ← List.append_assoc]
    refine slice_append ?_ htype
    simp only [List.length_append, hname, howners, hsize, hsum]

theorem layout_headerWith {checksum : List UInt8} (hsum : checksum.length = 8) (name : Text)
    {mode size : Nat} (hmode : mode < 8 ^ 7) (hsize : size < 8 ^ 11) (type : Char) :
    Layout name size type (headerWith checksum name mode size type) := by
  have hname : (fitted 100 (asciiBytes name)).length = 100 := length_fitted ..
  have hmode : (octal 8 mode).length = 8 := length_octal (by decide) hmode
  have hid : (octal 8 0).length = 8 := length_octal (by decide) (by decide)
  have hsize : (octal 12 size).length = 12 := length_octal (by decide) hsize
  have htime : (octal 12 0).length = 12 := length_octal (by decide) (by decide)
  have htype : (asciiBytes [type]).length = 1 := length_asciiBytes _
  have hlink : (fitted 100 []).length = 100 := length_fitted ..
  have hmagic : (asciiBytes "ustar\x0000".toList).length = 8 := length_asciiBytes _
  rw [headerWith]
  generalize asciiBytes "ustar\x0000".toList = magic at hmagic ⊢
  rw [fitted_of_le (by
    simp only [List.length_append, hname, hmode, hid, hsize, htime, hsum, htype, hlink, hmagic,
      blockSize, Nat.reduceAdd, Nat.reduceLeDiff])]
  have howners : (octal 8 mode ++ octal 8 0 ++ octal 8 0).length = 24 := by
    rw [List.length_append, List.length_append, hmode, hid]
  have hsums : (octal 12 0 ++ checksum).length = 20 := by rw [List.length_append, htime, hsum]
  have hrest : (fitted 100 [] ++ magic ++ List.replicate 247 0).length = 355 := by
    rw [List.length_append, List.length_append, hlink, hmagic, List.length_replicate]
  have hrow := layout_of_fields name type howners hsize hsums hrest
  simpa only [List.append_assoc, List.length_append, hname, hmode, hid, hsize, htime, hsum, htype,
    hlink, hmagic, blockSize, Nat.reduceAdd, Nat.reduceSub] using hrow

theorem sum_bytes_le (bytes : List UInt8) (n : Nat) :
    bytes.foldl (fun n b => n + b.toNat) n ≤ n + 255 * bytes.length := by
  induction bytes generalizing n with
  | nil => exact Nat.le_refl n
  | cons b bytes ih =>
    have hb : b.toNat < 256 := b.toNat_lt
    have hstep := ih (n + b.toNat)
    rw [List.foldl_cons, List.length_cons]
    omega

/-- A header has its fields at their places: its checksum, which is a sum of 512 bytes, fits the
six digits it has. -/
theorem layout_header (name : Text) {mode size : Nat} (hmode : mode < 8 ^ 7)
    (hsize : size < 8 ^ 11) (type : Char) : Layout name size type (header name mode size type) := by
  have hblanks := layout_headerWith (List.length_replicate (n := 8) (a := 32)) name hmode hsize type
  refine layout_headerWith ?_ name hmode hsize type
  have hsum := sum_bytes_le (headerWith (List.replicate 8 32) name mode size type) 0
  rw [hblanks.length, blockSize] at hsum
  rw [List.length_append, length_octal (by decide) (Nat.lt_of_le_of_lt hsum (by decide)),
    List.length_singleton]

/-! ### Reading one header -/

theorem not_zeros_of_layout {name : Text} {size : Nat} {type : Char} {block : List UInt8}
    (h : Layout name size type block) (htype : asciiBytes [type] ≠ [0]) :
    (block.all (· == 0)) = false := by
  rw [← Bool.not_eq_true]
  intro hall
  have hslice : ∀ b ∈ slice 156 1 block, b = 0 := fun b hb =>
    beq_iff_eq.mp (List.all_eq_true.mp hall b (List.mem_of_mem_drop (List.mem_of_mem_take hb)))
  rw [h.type] at hslice
  exact htype (congrArg (fun b => [b]) (hslice _ (List.mem_singleton.mpr rfl)))

/-- One header is read with its content, and reading goes on behind the filling. -/
theorem entriesFrom_blocks {named : Option Text} {name : Text} {mode : Nat} {type : Char}
    {content rest : List UInt8} (hmode : mode < 8 ^ 7) (hsize : content.length < 8 ^ 11)
    (htype : asciiBytes [type] ≠ [0]) :
    entriesFrom named (blocks name mode type content ++ rest) =
      if asciiBytes [type] = [120] then entriesFrom (some (recordedName content)) rest
      else
        ⟨named.getD (textOf ((fitted 100 (asciiBytes name)).takeWhile (· ≠ 0))), content⟩ ::
          entriesFrom none rest := by
  have hlayout := layout_header name hmode hsize type
  rw [blocks]
  generalize header name mode content.length type = block at hlayout ⊢
  rw [entriesFrom, List.append_assoc, List.append_assoc]
  generalize hbody : content ++ (filling blockSize content.length ++ rest) = body
  have hlong : ¬ (block ++ body).length < blockSize := by
    rw [List.length_append, hlayout.length]
    omega
  have htake : (block ++ body).take blockSize = block := List.take_left' hlayout.length
  have hdrop : (block ++ body).drop blockSize = body := List.drop_left' hlayout.length
  have hcontent : body.take content.length = content := by rw [← hbody, List.take_left]
  have hbehind : body.drop (content.length + (filling blockSize content.length).length) =
      rest := by
    rw [← hbody, ← List.append_assoc, List.drop_left' List.length_append]
  simp only [if_neg hlong, htake, hdrop, not_zeros_of_layout hlayout htype, hlayout.size,
    octalValue_octal, hlayout.type, hlayout.name, hcontent, hbehind, Bool.false_eq_true, if_false]

/-! ### Names -/

theorem textOf_encode (t : Text) : textOf (Utf8.encode t) = t := by
  rw [textOf, Utf8.decode_eq_ok_iff.mpr rfl]

theorem fits_iff {name : Text} :
    fits name = true ↔ name.length ≤ 100 ∧ ∀ c ∈ name, c.toNat < 128 := by
  simp only [fits, Bool.and_eq_true, decide_eq_true_eq, List.all_eq_true]

/-- A name that fits its field is read from there. -/
theorem textOf_name {name : Text} (hfits : fits name = true) (hzero : '\x00' ∉ name) :
    textOf ((fitted 100 (asciiBytes name)).takeWhile (· ≠ 0)) = name := by
  obtain ⟨hlength, hascii⟩ := fits_iff.mp hfits
  have hfield : (fitted 100 (asciiBytes name)).takeWhile (· ≠ 0) = asciiBytes name := by
    have hzeros := zero_notMem_asciiBytes hascii hzero
    rw [fitted_of_le (by rwa [length_asciiBytes])]
    cases 100 - (asciiBytes name).length with
    | zero =>
      rw [List.replicate_zero, List.append_nil, List.takeWhile_eq_self_iff]
      intro b hb
      exact decide_eq_true fun he => hzeros (he ▸ hb)
    | succ k => exact takeWhile_ne_iff.mpr hzeros
  rw [hfield, ← encode_ascii hascii, textOf_encode]

/-- Any name is read from the record that gives it. -/
theorem recordedName_nameRecord (name : Text) : recordedName (nameRecord name) = name := by
  have hrecord : ∃ count : Text, '=' ∉ count ∧
      nameRecord name = Utf8.encode (count ++ '=' :: (name ++ ['\n'])) := by
    rw [nameRecord]
    generalize countedLength (Utf8.encode (" path=".toList ++ name ++ ['\n'])).length = n
    have hdigit : ∀ c ∈ Nat.toDigits 10 n, c.isDigit = true := fun c hc =>
      Nat.isDigit_of_mem_toDigits (by decide) (by decide) hc
    refine ⟨Nat.toDigits 10 n ++ " path".toList, ?_, ?_⟩
    · intro hmem
      rcases List.mem_append.mp hmem with hmem | hmem
      · exact absurd (hdigit _ hmem) (by decide)
      · exact absurd hmem (by decide)
    · rw [← encode_ascii fun c hc => (ascii_of_isDigit (hdigit c hc)).1]
      simp [Utf8.encode]
  obtain ⟨count, hcount, hrecord⟩ := hrecord
  rw [recordedName, hrecord, textOf_encode, dropWhile_ne hcount, List.drop_one, List.tail_cons,
    List.dropLast_concat]

/-! ### Whole archives -/

/-- A file whose name and sizes can be told from its blocks: no zero byte ends its name early, and
sizes have at most eleven octal digits. -/
structure Storable (e : Entry) : Prop where
  name : '\x00' ∉ e.name
  record : (nameRecord e.name).length < 8 ^ 11
  content : e.content.length < 8 ^ 11

/-- One file is read from its blocks, whatever stands behind them. -/
theorem entriesFrom_entryBytes {e : Entry} (h : Storable e) (rest : List UInt8) :
    entriesFrom none (entryBytes e ++ rest) = e :: entriesFrom none rest := by
  have hplain : asciiBytes ['0'] ≠ [0] ∧ asciiBytes ['0'] ≠ [120] := by decide
  have hextended : asciiBytes ['x'] ≠ [0] ∧ asciiBytes ['x'] = [120] := by decide
  rw [entryBytes]
  cases hfits : fits e.name with
  | true =>
    rw [if_pos rfl, List.nil_append, entriesFrom_blocks (by decide) h.content hplain.1,
      if_neg hplain.2, Option.getD_none, textOf_name hfits h.name]
  | false =>
    rw [if_neg Bool.false_ne_true, List.append_assoc,
      entriesFrom_blocks (by decide) h.record hextended.1, if_pos hextended.2,
      entriesFrom_blocks (by decide) h.content hplain.1, if_neg hplain.2, Option.getD_some,
      recordedName_nameRecord]

/-- Files are read one by one, up to where they stop and whatever stands there. -/
theorem entries_unfinished_append {es : List Entry} (h : ∀ e ∈ es, Storable e) (rest : List UInt8) :
    entries (unfinished es ++ rest) = es ++ entries rest := by
  induction es with
  | nil => rfl
  | cons e es ih =>
    obtain ⟨he, hes⟩ := List.forall_mem_cons.mp h
    rw [unfinished, List.flatMap_cons, List.append_assoc, entries, entriesFrom_entryBytes he]
    exact congrArg (e :: ·) (ih hes)

theorem entries_zeros (n : Nat) : entries (List.replicate n 0) = [] := by
  rw [entries, entriesFrom]
  split
  · rfl
  · rw [List.take_replicate, if_pos (by simp)]

/-- **What has been written of an archive is read back**, if it is broken off behind a file. -/
theorem entries_unfinished {es : List Entry} (h : ∀ e ∈ es, Storable e) :
    entries (unfinished es) = es := by
  have hread := entries_unfinished_append h (List.replicate 0 0)
  rwa [entries_zeros, List.replicate_zero, List.append_nil, List.append_nil] at hread

/-- **A whole archive is read back**: its files, in their order, and nothing of its end. -/
theorem entries_ofEntries {es : List Entry} (h : ∀ e ∈ es, Storable e) :
    entries (ofEntries es) = es := by
  rw [ofEntries, entries_unfinished_append h, finish, filling, List.replicate_append_replicate,
    entries_zeros, List.append_nil]

end ScriptDocs.Archive
