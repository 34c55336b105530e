import ScriptDocs.Comment.Target
import ScriptDocs.Proofs.Comment.Span
import ScriptDocs.Proofs.Text

/-!
# What targets are

`Target.find?` skips to the first character that can begin a target and then reads as far as the
name goes.  `find?_eq_some_iff` says this once, as a cut of the script at the position, and all
else follows from it.

* `Continues`: the grammar of what stands behind the first character of a name, and
  `continues_take_chainLength`, that `chainLength` reads it.
* `IsDottedName`: identifiers joined by dots.  `isDottedName_squeeze` makes one of a target that is
  no parenthesis, by leaving out the blanks.
* `eq_or_stop_le_of_find?`: the targets of two comments are the same, or stand one behind the
  other.
-/

namespace ScriptDocs.Target

open Text

/-! ### Characters of a name -/

theorem isIdentifierChar_of_isBlank {c : Char} (h : isBlank c = true) :
    isIdentifierChar c = false := by
  have hd : c ≠ '$' := by rintro rfl; revert h; decide
  simp [isIdentifierChar, hd, isWord_of_isBlank h]

theorem isBlank_of_isIdentifierChar {c : Char} (h : isIdentifierChar c = true) :
    isBlank c = false := by
  cases hb : isBlank c with
  | false => rfl
  | true => rw [isIdentifierChar_of_isBlank hb] at h; exact absurd h (by simp)

theorem isIdentifierChar_dot : isIdentifierChar '.' = false := by decide

theorem isIdentifierChar_slash : isIdentifierChar '/' = false := by decide

/-! ### The grammar of names -/

/-- What may follow the first character of a name: more characters of the identifier, and further
identifiers, each behind a dot that may have blanks on both sides. -/
inductive Continues : Text → Prop
  | nil : Continues []
  | char {c : Char} {t : Text} : isIdentifierChar c = true → Continues t → Continues (c :: t)
  | link {bs bs' : Text} {c : Char} {t : Text} : (∀ b ∈ bs, isBlank b = true) →
      (∀ b ∈ bs', isBlank b = true) → isIdentifierChar c = true → Continues t →
      Continues ((bs ++ '.' :: bs') ++ c :: t)

/-- An identifier: at least one character, and all of the right class. -/
def IsIdentifier (p : Text) : Prop := p ≠ [] ∧ ∀ c ∈ p, isIdentifierChar c = true

theorem IsIdentifier.dot_notMem {p : Text} (h : IsIdentifier p) : '.' ∉ p := by
  intro hdot
  have hchar := h.2 '.' hdot
  rw [isIdentifierChar_dot] at hchar
  exact absurd hchar (by simp)

/-- Identifiers, at least one, joined by dots. -/
def IsDottedName (t : Text) : Prop :=
  ∃ ps : List Text, ps ≠ [] ∧ (∀ p ∈ ps, IsIdentifier p) ∧ t = List.intercalate ['.'] ps

theorem isDottedName_singleton {c : Char} (hc : isIdentifierChar c = true) : IsDottedName [c] :=
  ⟨[[c]], by simp, by simp [IsIdentifier, hc], by simp⟩

theorem IsDottedName.cons {c : Char} {t : Text} (hc : isIdentifierChar c = true)
    (h : IsDottedName t) : IsDottedName (c :: t) := by
  obtain ⟨ps, hne, hid, rfl⟩ := h
  cases ps with
  | nil => exact absurd rfl hne
  | cons p ps =>
    refine ⟨(c :: p) :: ps, by simp, ?_, by simp⟩
    intro q hq
    rcases List.mem_cons.mp hq with rfl | hq
    · refine ⟨by simp, ?_⟩
      intro x hx
      rcases List.mem_cons.mp hx with rfl | hx
      · exact hc
      · exact (hid p (by simp)).2 x hx
    · exact hid q (by simp [hq])

theorem IsDottedName.cons_dot {c : Char} {t : Text} (hc : isIdentifierChar c = true)
    (h : IsDottedName t) : IsDottedName (c :: '.' :: t) := by
  obtain ⟨ps, hne, hid, rfl⟩ := h
  refine ⟨[c] :: ps, by simp, ?_, by simp [List.intercalate_cons_of_ne_nil hne]⟩
  intro q hq
  rcases List.mem_cons.mp hq with rfl | hq
  · exact ⟨by simp, by simp [hc]⟩
  · exact hid q hq

/-- **A name without its blanks is dotted.** -/
theorem Continues.isDottedName_squeeze {t : Text} (h : Continues t) :
    ∀ {c : Char}, isIdentifierChar c = true → IsDottedName (c :: squeeze t) := by
  induction h with
  | nil => intro c hc; exact isDottedName_singleton hc
  | @char d t hd _ ih =>
    intro c hc
    have hsq : squeeze (d :: t) = d :: squeeze t := by
      simp [squeeze, isBlank_of_isIdentifierChar hd]
    rw [hsq]
    exact (ih hd).cons hc
  | @link bs bs' d t hbs hbs' hd _ ih =>
    intro c hc
    have hsq : squeeze ((bs ++ '.' :: bs') ++ d :: t) = '.' :: d :: squeeze t := by
      rw [show (bs ++ '.' :: bs') ++ d :: t = bs ++ (['.'] ++ (bs' ++ ([d] ++ t))) by simp]
      simp only [squeeze_append, squeeze_eq_nil_iff.mpr hbs, squeeze_eq_nil_iff.mpr hbs']
      simp [squeeze, isBlank_of_isIdentifierChar hd, show isBlank '.' = false by decide]
    rw [hsq]
    exact (ih hd).cons_dot hc

/-- Every character of a name is part of an identifier, blank, or a dot. -/
theorem Continues.mem {t : Text} (h : Continues t) :
    ∀ x ∈ t, isIdentifierChar x = true ∨ isBlank x = true ∨ x = '.' := by
  induction h with
  | nil => intro x hx; simp at hx
  | char hc _ ih =>
    intro x hx
    rcases List.mem_cons.mp hx with rfl | hx
    · exact Or.inl hc
    · exact ih x hx
  | link hbs hbs' hc _ ih =>
    intro x hx
    simp only [List.mem_append, List.mem_cons] at hx
    rcases hx with (hx | rfl | hx) | rfl | hx
    · exact Or.inr (Or.inl (hbs x hx))
    · exact Or.inr (Or.inr rfl)
    · exact Or.inr (Or.inl (hbs' x hx))
    · exact Or.inl hc
    · exact ih x hx

/-! ### How far a name goes -/

/-- On the way to the next identifier the name goes on up to it. -/
theorem chainLength_between {gap : Text} {c : Char} {cs : Text}
    (hgap : ∀ x ∈ gap, isIdentifierChar x = false) (hc : isIdentifierChar c = true) :
    chainLength true (gap ++ c :: cs) = gap.length + 1 + chainLength false cs := by
  induction gap with
  | nil => simp only [List.nil_append, chainLength, hc, if_true, List.length_nil]; omega
  | cons x gap ih =>
    have hx : isIdentifierChar x = false := hgap x (by simp)
    have hrest := ih fun y hy => hgap y (by simp [hy])
    simp only [List.cons_append, chainLength, hx, Bool.true_or, if_true, hrest, List.length_cons]
    rw [if_neg (by simp)]
    omega

/-- A text that begins with a link, cut at the next identifier. -/
theorem exists_link_of_beginsLink {t : Text} (h : beginsLink t = true) :
    ∃ (bs bs' : Text) (c : Char) (cs : Text), (∀ b ∈ bs, isBlank b = true) ∧
      (∀ b ∈ bs', isBlank b = true) ∧ isIdentifierChar c = true ∧
      t = (bs ++ '.' :: bs') ++ c :: cs := by
  unfold beginsLink at h
  split at h
  · rename_i ds hds
    have hsplit : t = t.takeWhile isBlank ++ '.' :: ds := by
      rw [← hds, trimStart, List.takeWhile_append_dropWhile]
    have hsplit' : ds = ds.takeWhile isBlank ++ trimStart ds := by
      rw [trimStart, List.takeWhile_append_dropWhile]
    cases hc : trimStart ds with
    | nil => rw [hc] at h; simp [beginsIdentifier] at h
    | cons c cs =>
      rw [hc] at h hsplit'
      refine ⟨t.takeWhile isBlank, ds.takeWhile isBlank, c, cs, ?_, ?_, h, ?_⟩
      · exact fun b hb => List.mem_takeWhile_imp hb
      · exact fun b hb => List.mem_takeWhile_imp hb
      · rw [List.append_assoc, List.cons_append, ← hsplit']
        exact hsplit
  · simp at h

/-- A dot with blanks around it, in front of an identifier, is a link. -/
theorem beginsLink_append {bs bs' : Text} {c : Char} {cs : Text}
    (hbs : ∀ b ∈ bs, isBlank b = true) (hbs' : ∀ b ∈ bs', isBlank b = true)
    (hc : isIdentifierChar c = true) : beginsLink ((bs ++ '.' :: bs') ++ c :: cs) = true := by
  have hdot : trimStart ('.' :: (bs' ++ c :: cs)) = '.' :: (bs' ++ c :: cs) := by
    apply trimStart_eq_self
    rintro _ ⟨⟩
    decide
  have hnext : trimStart (bs' ++ c :: cs) = c :: cs := by
    rw [trimStart_append_of_blank hbs']
    apply trimStart_eq_self
    rintro _ ⟨⟩
    exact isBlank_of_isIdentifierChar hc
  rw [beginsLink, List.append_assoc, List.cons_append, trimStart_append_of_blank hbs, hdot]
  simp only [hnext, beginsIdentifier, hc]

/-- **A name goes on behind a link.** -/
theorem chainLength_link {bs bs' : Text} {c : Char} {cs : Text}
    (hbs : ∀ b ∈ bs, isBlank b = true) (hbs' : ∀ b ∈ bs', isBlank b = true)
    (hc : isIdentifierChar c = true) :
    chainLength false ((bs ++ '.' :: bs') ++ c :: cs) =
      (bs ++ '.' :: bs').length + 1 + chainLength false cs := by
  have hgap : ∀ x ∈ bs ++ '.' :: bs', isIdentifierChar x = false := by
    intro x hx
    simp only [List.mem_append, List.mem_cons] at hx
    rcases hx with hx | rfl | hx
    · exact isIdentifierChar_of_isBlank (hbs x hx)
    · exact isIdentifierChar_dot
    · exact isIdentifierChar_of_isBlank (hbs' x hx)
  have hlink : beginsLink ((bs ++ '.' :: bs') ++ c :: cs) = true := beginsLink_append hbs hbs' hc
  rw [← chainLength_between hgap hc]
  cases hcons : bs ++ '.' :: bs' with
  | nil => simp at hcons
  | cons x gap =>
    rw [hcons] at hgap hlink
    rw [List.cons_append] at hlink ⊢
    simp only [chainLength, hgap x List.mem_cons_self, hlink, Bool.or_true]

/-- **`chainLength` reads a name.**  The induction is on the length of the text: a link is read
as a whole, up to the identifier behind it. -/
theorem continues_take_chainLength : ∀ cs : Text, Continues (cs.take (chainLength false cs)) := by
  intro cs
  induction hn : cs.length using Nat.strong_induction_on generalizing cs with
  | _ n ih =>
    cases cs with
    | nil => exact .nil
    | cons c cs =>
      by_cases hc : isIdentifierChar c = true
      · simp only [chainLength, hc, if_true, List.take_succ_cons]
        exact .char hc (ih cs.length (by subst hn; simp) cs rfl)
      · by_cases hl : beginsLink (c :: cs) = true
        · obtain ⟨bs, bs', d, ds, hbs, hbs', hd, he⟩ := exists_link_of_beginsLink hl
          rw [he, chainLength_link hbs hbs' hd, List.take_append, List.take_of_length_le (by omega),
            Nat.add_assoc, Nat.add_sub_cancel_left, Nat.add_comm 1, List.take_succ_cons]
          refine .link hbs hbs' hd (ih ds.length ?_ ds rfl)
          subst hn
          rw [he]
          simp only [List.length_append, List.length_cons]
          omega
        · have hlen : chainLength false (c :: cs) = 0 := by simp [chainLength, hc, hl]
          rw [hlen]
          exact .nil

/-! ### Finding the target -/

/-- The target that begins with the character `c` at a position, in front of `cs`. -/
def spanAt (start : Nat) (c : Char) (cs : Text) : Span :=
  if c = '(' then ⟨start, start + 1⟩ else ⟨start, start + 1 + chainLength false cs⟩

@[simp] theorem spanAt_start (start : Nat) (c : Char) (cs : Text) :
    (spanAt start c cs).start = start := by
  unfold spanAt
  split <;> rfl

/-- **The target is the first thing that can be one.**  In front of it stands nothing that can
begin a target. -/
theorem find?_eq_some_iff {script : Text} {pos : Nat} {t : Span} :
    find? script pos = some t ↔ ∃ (gap : Text) (c : Char) (cs : Text),
      script.drop pos = gap ++ c :: cs ∧ (∀ x ∈ gap, isStart x = false) ∧ isStart c = true ∧
      t = spanAt (pos + gap.length) c cs := by
  constructor
  · intro h
    simp only [find?] at h
    split at h
    · exact absurd h (by simp)
    · rename_i c cs hdrop
      refine ⟨(script.drop pos).takeWhile fun x => !isStart x, c, cs, ?_, ?_, ?_, ?_⟩
      · rw [← hdrop, List.takeWhile_append_dropWhile]
      · intro x hx
        simpa using List.mem_takeWhile_imp hx
      · have hhead := List.head?_dropWhile_not (fun x => !isStart x) (script.drop pos)
        rw [hdrop] at hhead
        simpa using hhead
      · unfold spanAt
        split at h
        · rename_i hp
          rw [if_pos hp]
          exact (Option.some.inj h).symm
        · rename_i hp
          rw [if_neg hp]
          exact (Option.some.inj h).symm
  · rintro ⟨gap, c, cs, hdrop, hgap, hc, rfl⟩
    have hall : ∀ x ∈ gap, (!isStart x) = true := fun x hx => by simp [hgap x hx]
    have htake : (script.drop pos).takeWhile (fun x => !isStart x) = gap := by
      rw [hdrop, List.takeWhile_append_of_pos hall]
      simp [hc]
    have hrest : (script.drop pos).dropWhile (fun x => !isStart x) = c :: cs := by
      rw [hdrop, List.dropWhile_append_of_pos hall]
      simp [hc]
    simp only [find?, htake, hrest, spanAt]
    split <;> rfl

/-- There is no target where nothing can begin one. -/
theorem find?_eq_none_iff {script : Text} {pos : Nat} :
    find? script pos = none ↔ ∀ c ∈ script.drop pos, isStart c = false := by
  have hdrop : (script.drop pos).dropWhile (fun c => !isStart c) = [] ↔
      ∀ c ∈ script.drop pos, isStart c = false := by
    rw [List.dropWhile_eq_nil_iff]
    simp
  rw [← hdrop, find?]
  cases (script.drop pos).dropWhile fun c => !isStart c with
  | nil => simp
  | cons c cs =>
    by_cases hp : c = '('
    · simp [hp]
    · simp [hp]

theorem start_le_of_find? {script : Text} {pos : Nat} {t : Span}
    (h : find? script pos = some t) : pos ≤ t.start := by
  obtain ⟨gap, c, cs, _, _, _, rfl⟩ := find?_eq_some_iff.mp h
  simp

/-- The target stays the same as long as the search begins in front of it. -/
theorem find?_of_le {script : Text} {pos pos' : Nat} {t : Span} (h : find? script pos = some t)
    (hle : pos ≤ pos') (hle' : pos' ≤ t.start) : find? script pos' = some t := by
  obtain ⟨gap, c, cs, hdrop, hgap, hc, rfl⟩ := find?_eq_some_iff.mp h
  rw [spanAt_start] at hle'
  refine find?_eq_some_iff.mpr ⟨gap.drop (pos' - pos), c, cs, ?_, ?_, hc, ?_⟩
  · have hpos : pos' = pos + (pos' - pos) := by omega
    rw [hpos, ← List.drop_drop, hdrop, List.drop_append_of_le_length (by omega)]
    rw [Nat.add_sub_cancel_left]
  · exact fun x hx => hgap x (List.mem_of_mem_drop hx)
  · rw [List.length_drop]
    congr 1
    omega

/-- What stands at a target: a parenthesis, or a name. -/
theorem text_of_find? {script : Text} {pos : Nat} {t : Span} (h : find? script pos = some t) :
    t.text script = ['('] ∨
      ∃ c cs, t.text script = c :: cs ∧ isIdentifierChar c = true ∧ Continues cs := by
  obtain ⟨gap, c, cs, hdrop, _, hc, rfl⟩ := find?_eq_some_iff.mp h
  have hstart : script.drop (pos + gap.length) = c :: cs := by
    rw [← List.drop_drop, hdrop, List.drop_left]
  unfold spanAt
  split
  · rename_i hp
    left
    rw [Span.text, hstart, hp, Nat.add_sub_cancel_left]
    rfl
  · rename_i hp
    right
    refine ⟨c, cs.take (chainLength false cs), ?_, ?_, continues_take_chainLength cs⟩
    · rw [Span.text, hstart, Nat.add_assoc, Nat.add_sub_cancel_left, Nat.add_comm 1,
        List.take_succ_cons]
    · simpa [isStart, hp] using hc

/-- **A target that is no parenthesis is a dotted name, but for its blanks.** -/
theorem isDottedName_squeeze {script : Text} {pos : Nat} {t : Span}
    (h : find? script pos = some t) (hp : t.text script ≠ ['(']) :
    IsDottedName (squeeze (t.text script)) := by
  rcases text_of_find? h with ht | ⟨c, cs, ht, hc, hcs⟩
  · exact absurd ht hp
  · have hsq : squeeze (c :: cs) = c :: squeeze cs := by
      simp [squeeze, isBlank_of_isIdentifierChar hc]
    rw [ht, hsq]
    exact hcs.isDottedName_squeeze hc

/-- No slash stands in a target. -/
theorem slash_notMem_text {script : Text} {pos : Nat} {t : Span}
    (h : find? script pos = some t) : '/' ∉ t.text script := by
  intro hmem
  rcases text_of_find? h with ht | ⟨c, cs, ht, hc, hcs⟩
  · rw [ht] at hmem
    exact absurd hmem (by decide)
  · rw [ht] at hmem
    rcases List.mem_cons.mp hmem with rfl | hmem
    · exact absurd hc (by simp [isIdentifierChar_slash])
    · rcases hcs.mem '/' hmem with hx | hx | hx
      · exact absurd hx (by simp [isIdentifierChar_slash])
      · exact absurd hx (by decide)
      · exact absurd hx (by decide)

/-- A target that begins in front of a slash ends in front of it. -/
theorem stop_le_of_slash {script : Text} {pos i : Nat} {t : Span}
    (h : find? script pos = some t) (hi : script[i]? = some '/') (hle : t.start ≤ i) :
    t.stop ≤ i := by
  by_contra hlt
  apply slash_notMem_text h
  have hat := Span.getElem?_text script t (i := i - t.start) (by omega)
  rw [Nat.add_sub_cancel' hle, hi] at hat
  exact List.mem_of_getElem? hat

/-- **Targets of two comments do not overlap.**  If the second comment stands behind the place
where the search for the first target began, the targets are the same, or the first ends before
the second begins. -/
theorem eq_or_stop_le_of_find? {script : Text} {pos : Nat} {b t t' : Span}
    (hb : Comment.IsComment script b) (hpos : pos ≤ b.start) (h : find? script pos = some t)
    (h' : find? script b.stop = some t') : t = t' ∨ t.stop ≤ t'.start := by
  have hlong := hb.long
  by_cases hle : b.stop ≤ t.start
  · left
    have hsame := find?_of_le h (by omega) hle
    rw [h'] at hsame
    exact (Option.some.inj hsame).symm
  · right
    have hstop := stop_le_of_slash h hb.getElem?_stop (by omega)
    have hstart := start_le_of_find? h'
    omega

end ScriptDocs.Target
