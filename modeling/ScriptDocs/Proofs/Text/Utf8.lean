import ScriptDocs.Text.Utf8

/-!
# Bytes that spell a text

`Utf8.decode` reads bytes one character after the other and stops at the first that it cannot read.
It accepts exactly what `Utf8.encode` writes: `decode_eq_ok_iff`.

* `Shape`: the bytes of one character, in numbers, and the code point that they spell.
* `Shape.encode_eq`, `shape_encode`: the bytes of a character have this shape, and no others do.
* `Shape.decodeFrom_eq`: what has this shape is read in one step.
-/

namespace ScriptDocs.Utf8

/-! ### The bytes of one character -/

/-- Bytes that spell one code point.  The second byte is bounded so that no code point has a longer
spelling than it needs, none is a surrogate, and none lies behind the last. -/
inductive Shape : List UInt8 → Nat → Prop
  | one {a : UInt8} (ha : a.toNat < 0x80) : Shape [a] a.toNat
  | two {a b : UInt8} (ha : 0xC2 ≤ a.toNat) (ha' : a.toNat < 0xE0) (hb : follows a b = true) :
      Shape [a, b] ((a.toNat - 0xC0) * 64 + b.toNat % 64)
  | three {a b c : UInt8} (ha : 0xE0 ≤ a.toNat) (ha' : a.toNat < 0xF0) (hb : follows a b = true)
      (hc : continues c = true) :
      Shape [a, b, c] (((a.toNat - 0xE0) * 64 + b.toNat % 64) * 64 + c.toNat % 64)
  | four {a b c d : UInt8} (ha : 0xF0 ≤ a.toNat) (ha' : a.toNat ≤ 0xF4) (hb : follows a b = true)
      (hc : continues c = true) (hd : continues d = true) :
      Shape [a, b, c, d]
        ((((a.toNat - 0xF0) * 64 + b.toNat % 64) * 64 + c.toNat % 64) * 64 + d.toNat % 64)

theorem continues_iff {b : UInt8} : continues b = true ↔ 0x80 ≤ b.toNat ∧ b.toNat ≤ 0xBF := by
  simp [continues, UInt8.le_iff_toNat_le]

theorem follows_iff {a b : UInt8} :
    follows a b = true ↔ (0x80 ≤ b.toNat ∧ b.toNat ≤ 0xBF) ∧
      (a.toNat = 0xE0 → 0xA0 ≤ b.toNat) ∧ (a.toNat = 0xED → b.toNat ≤ 0x9F) ∧
      (a.toNat = 0xF0 → 0x90 ≤ b.toNat) ∧ (a.toNat = 0xF4 → b.toNat ≤ 0x8F) := by
  simp only [follows, Bool.and_eq_true, continues_iff, Bool.not_eq_eq_eq_not, Bool.not_true,
    Bool.and_eq_false_imp, beq_iff_eq, decide_eq_false_iff_not, UInt8.lt_iff_toNat_lt, gt_iff_lt,
    ← UInt8.toNat_inj]
  simp only [UInt8.reduceToNat, Nat.not_lt]
  omega

/-- The code point that bytes spell is that of a character. -/
theorem Shape.isValidChar {bytes : List UInt8} {n : Nat} (h : Shape bytes n) : n.isValidChar := by
  unfold Nat.isValidChar
  cases h with
  | one ha => omega
  | two ha ha' hb => omega
  | three ha ha' hb hc =>
    have hb := follows_iff.mp hb
    omega
  | four ha ha' hb hc hd =>
    have hb := follows_iff.mp hb
    omega

theorem ofNat_eq (a : UInt8) {n : Nat} (h : n = a.toNat) : UInt8.ofNat n = a := by
  rw [h, UInt8.ofNat_toNat]

theorem utf8EncodeChar_ofNat {n : Nat} (h : n.isValidChar) :
    String.utf8EncodeChar (Char.ofNat n) =
      if n ≤ 0x7F then [.ofNat n]
      else if n ≤ 0x7FF then [.ofNat (n / 64 % 0x20 + 0xC0), .ofNat (n % 0x40 + 0x80)]
      else if n ≤ 0xFFFF then
        [.ofNat (n / 4096 % 0x10 + 0xE0), .ofNat (n / 64 % 0x40 + 0x80), .ofNat (n % 0x40 + 0x80)]
      else
        [.ofNat (n / 262144 % 0x08 + 0xF0), .ofNat (n / 4096 % 0x40 + 0x80),
          .ofNat (n / 64 % 0x40 + 0x80), .ofNat (n % 0x40 + 0x80)] := by
  have hval : (Char.ofNat n).val.toNat = n := by
    rw [Char.ofNat, dif_pos h]
    rfl
  rw [String.utf8EncodeChar, hval]

/-- **The bytes are those of the character.** -/
theorem Shape.encode_eq {bytes : List UInt8} {n : Nat} (h : Shape bytes n) :
    String.utf8EncodeChar (Char.ofNat n) = bytes := by
  rw [utf8EncodeChar_ofNat h.isValidChar]
  cases h with
  | @one a ha => rw [if_pos (by omega), UInt8.ofNat_toNat]
  | @two a b ha ha' hb =>
    have hb := follows_iff.mp hb
    rw [if_neg (by omega), if_pos (by omega), ofNat_eq a (by omega), ofNat_eq b (by omega)]
  | @three a b c ha ha' hb hc =>
    have hb := follows_iff.mp hb
    have hc := continues_iff.mp hc
    rw [if_neg (by omega), if_neg (by omega), if_pos (by omega), ofNat_eq a (by omega),
      ofNat_eq b (by omega), ofNat_eq c (by omega)]
  | @four a b c d ha ha' hb hc hd =>
    have hb := follows_iff.mp hb
    have hc := continues_iff.mp hc
    have hd := continues_iff.mp hd
    rw [if_neg (by omega), if_neg (by omega), if_neg (by omega), ofNat_eq a (by omega),
      ofNat_eq b (by omega), ofNat_eq c (by omega), ofNat_eq d (by omega)]

theorem Shape.of_eq {bytes : List UInt8} {m n : Nat} (h : Shape bytes m) (heq : m = n) :
    Shape bytes n := heq ▸ h

/-- **The bytes of a character have this shape.** -/
theorem shape_encode (c : Char) : Shape (String.utf8EncodeChar c) c.toNat := by
  have hbyte {n : Nat} (h : n < 256) : (UInt8.ofNat n).toNat = n := UInt8.toNat_ofNat_of_lt h
  have hvalid : c.toNat.isValidChar := c.valid
  have hencode := utf8EncodeChar_ofNat hvalid
  rw [Char.ofNat_toNat] at hencode
  unfold Nat.isValidChar at hvalid
  generalize c.toNat = n at hencode hvalid ⊢
  rw [hencode]
  by_cases h1 : n ≤ 0x7F
  · have ha := hbyte (n := n) (by omega)
    rw [if_pos h1]
    exact (Shape.one (by omega)).of_eq ha
  by_cases h2 : n ≤ 0x7FF
  · have ha := hbyte (n := n / 64 % 0x20 + 0xC0) (by omega)
    have hb := hbyte (n := n % 0x40 + 0x80) (by omega)
    rw [if_neg h1, if_pos h2]
    exact (Shape.two (by omega) (by omega) (follows_iff.mpr (by omega))).of_eq (by omega)
  by_cases h3 : n ≤ 0xFFFF
  · have ha := hbyte (n := n / 4096 % 0x10 + 0xE0) (by omega)
    have hb := hbyte (n := n / 64 % 0x40 + 0x80) (by omega)
    have hc := hbyte (n := n % 0x40 + 0x80) (by omega)
    rw [if_neg h1, if_neg h2, if_pos h3]
    exact (Shape.three (by omega) (by omega) (follows_iff.mpr (by omega))
      (continues_iff.mpr (by omega))).of_eq (by omega)
  · have ha := hbyte (n := n / 262144 % 0x08 + 0xF0) (by omega)
    have hb := hbyte (n := n / 4096 % 0x40 + 0x80) (by omega)
    have hc := hbyte (n := n / 64 % 0x40 + 0x80) (by omega)
    have hd := hbyte (n := n % 0x40 + 0x80) (by omega)
    rw [if_neg h1, if_neg h2, if_neg h3]
    exact (Shape.four (by omega) (by omega) (follows_iff.mpr (by omega))
      (continues_iff.mpr (by omega)) (continues_iff.mpr (by omega))).of_eq (by omega)

/-! ### Reading -/

/-- Whether no character of several bytes begins with this byte, in numbers. -/
theorem noLead_iff {a : UInt8} :
    (decide (a < 0xC2) || decide (a > 0xF4)) = true ↔ a.toNat < 0xC2 ∨ 0xF4 < a.toNat := by
  simp [UInt8.lt_iff_toNat_lt]

theorem not_lt_of_le {a k : UInt8} (h : k.toNat ≤ a.toNat) : ¬ a < k :=
  fun hlt => Nat.not_lt_of_le h (UInt8.lt_iff_toNat_lt.mp hlt)

/-- **What has the shape of a character is read in one step.** -/
theorem Shape.decodeFrom_eq {bytes : List UInt8} {n : Nat} (h : Shape bytes n) (pos : Nat)
    (read : Text) (rest : List UInt8) :
    decodeFrom pos read (bytes ++ rest) =
      decodeFrom (pos + bytes.length) (Char.ofNat n :: read) rest := by
  rw [decodeFrom.eq_def]
  cases h with
  | @one a ha => exact if_pos (UInt8.lt_iff_toNat_lt.mpr ha)
  | @two a b ha ha' hb =>
    have h80 : ¬ a < 0x80 := not_lt_of_le (show 0x80 ≤ a.toNat by omega)
    simp only [List.cons_append, List.nil_append]
    rw [if_neg h80, if_neg (mt noLead_iff.mp (by omega)), if_neg (by simp [hb]),
      if_pos (UInt8.lt_iff_toNat_lt.mpr ha')]
    rfl
  | @three a b c ha ha' hb hc =>
    have h80 : ¬ a < 0x80 := not_lt_of_le (show 0x80 ≤ a.toNat by omega)
    simp only [List.cons_append, List.nil_append]
    rw [if_neg h80, if_neg (mt noLead_iff.mp (by omega)), if_neg (by simp [hb]),
      if_neg (not_lt_of_le (k := 0xE0) ha), if_neg (by simp [hc]),
      if_pos (UInt8.lt_iff_toNat_lt.mpr ha')]
    rfl
  | @four a b c d ha ha' hb hc hd =>
    have h80 : ¬ a < 0x80 := not_lt_of_le (show 0x80 ≤ a.toNat by omega)
    have hE0 : ¬ a < 0xE0 := not_lt_of_le (show 0xE0 ≤ a.toNat by omega)
    simp only [List.cons_append, List.nil_append]
    rw [if_neg h80, if_neg (mt noLead_iff.mp (by omega)), if_neg (by simp [hb]), if_neg hE0,
      if_neg (by simp [hc]), if_neg (not_lt_of_le (k := 0xF0) ha), if_neg (by simp [hd])]
    rfl

/-- **One step of reading.**  Bytes that can be read are none, or begin with those of a
character. -/
theorem decodeFrom_cases {pos : Nat} {read t : Text} {bytes : List UInt8}
    (h : decodeFrom pos read bytes = .ok t) :
    (bytes = [] ∧ t = read.reverse) ∨ ∃ front n rest, Shape front n ∧ bytes = front ++ rest ∧
      decodeFrom (pos + front.length) (Char.ofNat n :: read) rest = .ok t := by
  rw [decodeFrom.eq_def] at h
  split at h
  · exact Or.inl ⟨rfl, (Except.ok.inj h).symm⟩
  right
  rename_i a rest
  split at h
  · rename_i h80
    exact ⟨[a], _, rest, .one (UInt8.lt_iff_toNat_lt.mp h80), rfl, h⟩
  split at h
  · cases h
  rename_i h80 hlead
  have hlow : 0xC2 ≤ a.toNat ∧ a.toNat ≤ 0xF4 := by
    have := mt noLead_iff.mpr hlead
    omega
  split at h
  · cases h
  rename_i b rest
  split at h
  · cases h
  rename_i hb
  have hb : follows a b = true := by simpa using hb
  split at h
  · rename_i hE0
    exact ⟨[a, b], _, rest, .two hlow.1 (UInt8.lt_iff_toNat_lt.mp hE0) hb, rfl, h⟩
  rename_i hE0
  have hE0 : 0xE0 ≤ a.toNat :=
    Nat.le_of_not_lt fun hlt => hE0 (UInt8.lt_iff_toNat_lt.mpr hlt)
  split at h
  · cases h
  rename_i c rest
  split at h
  · cases h
  rename_i hc
  have hc : continues c = true := by simpa using hc
  split at h
  · rename_i hF0
    exact ⟨[a, b, c], _, rest, .three hE0 (UInt8.lt_iff_toNat_lt.mp hF0) hb hc, rfl, h⟩
  rename_i hF0
  have hF0 : 0xF0 ≤ a.toNat :=
    Nat.le_of_not_lt fun hlt => hF0 (UInt8.lt_iff_toNat_lt.mpr hlt)
  split at h
  · cases h
  rename_i d rest
  split at h
  · cases h
  rename_i hd
  have hd : continues d = true := by simpa using hd
  exact ⟨[a, b, c, d], _, rest, .four hF0 hlow.2 hb hc hd, rfl, h⟩

theorem Shape.length_pos {bytes : List UInt8} {n : Nat} (h : Shape bytes n) : 0 < bytes.length := by
  cases h with
  | one => exact Nat.zero_lt_succ _
  | two => exact Nat.zero_lt_succ _
  | three => exact Nat.zero_lt_succ _
  | four => exact Nat.zero_lt_succ _

theorem decodeFrom_encode (pos : Nat) (read t : Text) :
    decodeFrom pos read (encode t) = .ok (read.reverse ++ t) := by
  induction t generalizing pos read with
  | nil => simp [encode, decodeFrom]
  | cons c t ih =>
    have hstep := (shape_encode c).decodeFrom_eq pos read (encode t)
    rw [Char.ofNat_toNat, ih] at hstep
    simpa [encode] using hstep

theorem exists_encode_of_decodeFrom {pos : Nat} {read t : Text} {bytes : List UInt8}
    (h : decodeFrom pos read bytes = .ok t) : ∃ u, t = read.reverse ++ u ∧ bytes = encode u := by
  induction hn : bytes.length using Nat.strongRecOn generalizing pos read bytes with
  | ind n ih =>
    rcases decodeFrom_cases h with ⟨rfl, rfl⟩ | ⟨front, m, rest, hshape, rfl, hrest⟩
    · exact ⟨[], (List.append_nil _).symm, rfl⟩
    · have hpos := hshape.length_pos
      rw [List.length_append] at hn
      obtain ⟨u, rfl, rfl⟩ := ih rest.length (by omega) hrest rfl
      refine ⟨Char.ofNat m :: u, by simp, ?_⟩
      simp [encode, hshape.encode_eq]

/-- **Bytes can be read exactly if they spell a text, and then as that text.** -/
theorem decode_eq_ok_iff {bytes : List UInt8} {t : Text} :
    decode bytes = .ok t ↔ bytes = encode t := by
  constructor
  · intro h
    obtain ⟨u, rfl, hbytes⟩ := exists_encode_of_decodeFrom h
    exact hbytes
  · rintro rfl
    exact decodeFrom_encode 0 [] t

theorem fileText_eq_ok_iff {bytes : List UInt8} {content : Text} :
    fileText bytes = .ok content ↔ ∃ t, bytes = encode t ∧ content = Text.unixBreaks t := by
  unfold fileText
  constructor
  · intro h
    cases hd : decode bytes with
    | error f =>
      rw [hd] at h
      cases h
    | ok t =>
      rw [hd] at h
      exact ⟨t, decode_eq_ok_iff.mp hd, (Except.ok.inj h).symm⟩
  · intro h
    obtain ⟨t, hbytes, rfl⟩ := h
    rw [decode_eq_ok_iff.mpr hbytes]
    rfl

end ScriptDocs.Utf8
