import ScriptDocs.Proofs.Comment.Target

/-!
# The longest name

`Target.find?` decides with one look ahead whether a name goes on behind an identifier.  Here names
are given by their grammar, with no regard to what follows them, and the target is the longest of
all names that begin at the first place where a target can begin.

* `IsName`: the grammar; `isName_cons_iff` says it by the first character and what may follow.
* `length_le_chainLength`: no name goes further than `chainLength` does.
* `LongestName`, `longestName_iff`: the longest name at the beginning of a text.
* `BeginsAt`, `IsTarget`: the first place for a target, and the target there.
* `find?_firstLongest`: `find?` finds it, and finds nothing exactly if there is no such place.
-/

namespace ScriptDocs.Target

open Text

/-! ### Names -/

/-- A name: an identifier, or an identifier and a name with a dot between them, and any blanks on
both sides of the dot. -/
inductive IsName : Text → Prop
  | identifier {p : Text} (hp : IsIdentifier p) : IsName p
  | dotted {p bs bs' t : Text} (hp : IsIdentifier p) (hbs : ∀ b ∈ bs, isBlank b = true)
      (hbs' : ∀ b ∈ bs', isBlank b = true) (ht : IsName t) :
      IsName (p ++ ((bs ++ '.' :: bs') ++ t))

theorem IsIdentifier.cons {c : Char} {p : Text} (hc : isIdentifierChar c = true)
    (h : ∀ x ∈ p, isIdentifierChar x = true) : IsIdentifier (c :: p) :=
  ⟨by simp, List.forall_mem_cons.mpr ⟨hc, h⟩⟩

/-- An identifier, cut behind its first character. -/
theorem IsIdentifier.exists_cons {p : Text} (h : IsIdentifier p) :
    ∃ c cs, p = c :: cs ∧ isIdentifierChar c = true ∧ ∀ x ∈ cs, isIdentifierChar x = true := by
  obtain ⟨hne, hall⟩ := h
  cases p with
  | nil => exact absurd rfl hne
  | cons c cs =>
    obtain ⟨hc, hcs⟩ := List.forall_mem_cons.mp hall
    exact ⟨c, cs, rfl, hc, hcs⟩

theorem Continues.append {p t : Text} (hp : ∀ x ∈ p, isIdentifierChar x = true)
    (h : Continues t) : Continues (p ++ t) := by
  induction p with
  | nil => exact h
  | cons c p ih =>
    obtain ⟨hc, hp⟩ := List.forall_mem_cons.mp hp
    exact .char hc (ih hp)

theorem IsName.exists_cons {t : Text} (h : IsName t) :
    ∃ c cs, t = c :: cs ∧ isIdentifierChar c = true ∧ Continues cs := by
  induction h with
  | identifier hp =>
    obtain ⟨c, cs, rfl, hc, hcs⟩ := hp.exists_cons
    refine ⟨c, cs, rfl, hc, ?_⟩
    rw [← List.append_nil cs]
    exact Continues.nil.append hcs
  | @dotted p bs bs' t hp hbs hbs' _ ih =>
    obtain ⟨c, cs, rfl, hc, hcs⟩ := hp.exists_cons
    obtain ⟨d, ds, rfl, hd, hds⟩ := ih
    exact ⟨c, _, rfl, hc, (Continues.link hbs hbs' hd hds).append hcs⟩

theorem IsName.cons {c : Char} {t : Text} (hc : isIdentifierChar c = true) (h : IsName t) :
    IsName (c :: t) := by
  cases h with
  | identifier hp => exact .identifier (.cons hc hp.2)
  | @dotted p _ _ _ hp hbs hbs' ht => exact .dotted (p := c :: p) (.cons hc hp.2) hbs hbs' ht

theorem Continues.isName {t : Text} (h : Continues t) :
    ∀ {c : Char}, isIdentifierChar c = true → IsName (c :: t) := by
  have hone {c : Char} (hc : isIdentifierChar c = true) : IsIdentifier [c] := .cons hc (by simp)
  induction h with
  | nil => intro c hc; exact .identifier (hone hc)
  | char hd _ ih => intro c hc; exact (ih hd).cons hc
  | link hbs hbs' hd _ ih => intro c hc; exact .dotted (hone hc) hbs hbs' (ih hd)

/-- **A name is the first character of an identifier and what may follow it.** -/
theorem isName_cons_iff {c : Char} {cs : Text} :
    IsName (c :: cs) ↔ isIdentifierChar c = true ∧ Continues cs := by
  constructor
  · intro h
    obtain ⟨d, ds, heq, hd, hds⟩ := h.exists_cons
    obtain ⟨rfl, rfl⟩ := List.cons.inj heq
    exact ⟨hd, hds⟩
  · rintro ⟨hc, hcs⟩
    exact hcs.isName hc

/-! ### The longest of them -/

/-- **No name goes further.**  Whatever the text begins with that may follow the first character of
a name, `chainLength` reads at least that far. -/
theorem Continues.length_le_chainLength {u : Text} (h : Continues u) (rest : Text) :
    u.length ≤ chainLength false (u ++ rest) := by
  induction h with
  | nil => exact Nat.zero_le _
  | char hc _ ih =>
    rw [List.cons_append, chainLength, if_pos hc, List.length_cons]
    omega
  | @link bs bs' c t hbs hbs' hc _ ih =>
    rw [List.append_assoc (bs ++ '.' :: bs'), List.cons_append, chainLength_link hbs hbs' hc]
    simp only [List.length_append, List.length_cons]
    omega

/-- A text begins with the name, and with no name that is longer. -/
structure LongestName (t name : Text) : Prop where
  isName : IsName name
  begins : name <+: t
  longest : ∀ other, IsName other → other <+: t → other.length ≤ name.length

theorem longestName_chainLength {c : Char} (hc : isIdentifierChar c = true) (cs : Text) :
    LongestName (c :: cs) (c :: cs.take (chainLength false cs)) := by
  refine ⟨isName_cons_iff.mpr ⟨hc, continues_take_chainLength cs⟩, ?_, ?_⟩
  · exact List.cons_prefix_cons.mpr ⟨rfl, List.take_prefix _ _⟩
  · intro other hother hbegins
    obtain ⟨d, ds, rfl, -, hds⟩ := hother.exists_cons
    obtain ⟨rfl, rest, rfl⟩ := List.cons_prefix_cons.mp hbegins
    have hlen := hds.length_le_chainLength rest
    simp only [List.length_cons, List.length_take, List.length_append]
    omega

/-- There is only one longest name. -/
theorem LongestName.unique {t a b : Text} (ha : LongestName t a) (hb : LongestName t b) : a = b :=
  (List.prefix_of_prefix_length_le ha.begins hb.begins
    (hb.longest a ha.isName ha.begins)).eq_of_length_le (ha.longest b hb.isName hb.begins)

theorem longestName_iff {c : Char} (hc : isIdentifierChar c = true) {cs name : Text} :
    LongestName (c :: cs) name ↔ name = c :: cs.take (chainLength false cs) := by
  constructor
  · intro h
    exact h.unique (longestName_chainLength hc cs)
  · rintro rfl
    exact longestName_chainLength hc cs

/-- How far a name goes on is at most to the end of the text. -/
theorem chainLength_le_length (between : Bool) (cs : Text) :
    chainLength between cs ≤ cs.length := by
  fun_induction chainLength between cs with
  | case1 => exact Nat.le_refl _
  | case2 => simp only [List.length_cons]; omega
  | case3 => simp only [List.length_cons]; omega
  | case4 => exact Nat.zero_le _

/-! ### The target -/

/-- The first position from `pos` on where a target can begin, and the character there. -/
structure BeginsAt (script : Text) (pos i : Nat) (c : Char) : Prop where
  le : pos ≤ i
  char : script[i]? = some c
  start : isStart c = true
  first : ∀ j d, pos ≤ j → j < i → script[j]? = some d → isStart d = false

/-- The target behind a position: a parenthesis, or the longest name. -/
inductive IsTarget (script : Text) (pos : Nat) : Span → Prop
  | parenthesis {i : Nat} (hbegins : BeginsAt script pos i '(') : IsTarget script pos ⟨i, i + 1⟩
  | name {i : Nat} {c : Char} {name : Text} (hbegins : BeginsAt script pos i c) (hc : c ≠ '(')
      (hname : LongestName (script.drop i) name) : IsTarget script pos ⟨i, i + name.length⟩

/-- The first place for a target as a cut of the script. -/
theorem beginsAt_iff {script : Text} {pos i : Nat} {c : Char} :
    BeginsAt script pos i c ↔ ∃ gap cs, script.drop pos = gap ++ c :: cs ∧
      (∀ x ∈ gap, isStart x = false) ∧ isStart c = true ∧ i = pos + gap.length := by
  constructor
  · rintro ⟨hle, hchar, hstart, hfirst⟩
    obtain ⟨hlt, hget⟩ := List.getElem?_eq_some_iff.mp hchar
    refine ⟨(script.drop pos).take (i - pos), script.drop (i + 1), ?_, ?_, hstart, ?_⟩
    · have hcut : script.drop i = c :: script.drop (i + 1) := by
        rw [List.drop_eq_getElem_cons hlt, hget]
      rw [← hcut, ← Nat.add_sub_cancel' hle, ← List.drop_drop, Nat.add_sub_cancel_left,
        List.take_append_drop]
    · intro x hx
      obtain ⟨k, hk⟩ := List.mem_iff_getElem?.mp hx
      have hlen : k < i - pos := by
        have hlt := (List.getElem?_eq_some_iff.mp hk).1
        rw [List.length_take] at hlt
        omega
      rw [List.getElem?_take_of_lt hlen, List.getElem?_drop] at hk
      exact hfirst (pos + k) x (by omega) (by omega) hk
    · rw [List.length_take, List.length_drop]
      omega
  · rintro ⟨gap, cs, hdrop, hgap, hstart, rfl⟩
    have hat (k : Nat) : script[pos + k]? = (gap ++ c :: cs)[k]? := by
      rw [← hdrop, List.getElem?_drop]
    refine ⟨Nat.le_add_right .., ?_, hstart, ?_⟩
    · rw [hat, List.getElem?_append_right (Nat.le_refl _), Nat.sub_self]
      rfl
    · intro j d hle hlt hd
      rw [show j = pos + (j - pos) by omega, hat, List.getElem?_append_left (by omega)] at hd
      exact hgap d (List.mem_of_getElem? hd)

theorem isIdentifierChar_of_isStart {c : Char} (h : isStart c = true) (hc : c ≠ '(') :
    isIdentifierChar c = true := by
  simpa [isStart, hc] using h

/-- A target that is no parenthesis ends where the longest name does. -/
theorem spanAt_of_longestName {c : Char} {cs name : Text} (i : Nat) (hc : c ≠ '(')
    (hid : isIdentifierChar c = true) (hname : LongestName (c :: cs) name) :
    spanAt i c cs = ⟨i, i + name.length⟩ := by
  have hle := chainLength_le_length false cs
  rw [(longestName_iff hid).mp hname, spanAt, if_neg hc, List.length_cons, List.length_take,
    Nat.min_eq_left hle, Nat.add_assoc, Nat.add_comm 1]

theorem find?_eq_some_iff_isTarget {script : Text} {pos : Nat} {t : Span} :
    find? script pos = some t ↔ IsTarget script pos t := by
  -- what stands at the first place for a target, in the words of both sides
  have hdrop {gap cs : Text} {c : Char} (h : script.drop pos = gap ++ c :: cs) :
      script.drop (pos + gap.length) = c :: cs := by
    rw [← List.drop_drop, h, List.drop_left]
  rw [find?_eq_some_iff]
  constructor
  · rintro ⟨gap, c, cs, hcut, hgap, hstart, rfl⟩
    have hbegins := beginsAt_iff.mpr ⟨gap, cs, hcut, hgap, hstart, rfl⟩
    by_cases hc : c = '('
    · subst hc
      exact .parenthesis hbegins
    · have hid := isIdentifierChar_of_isStart hstart hc
      have hname := longestName_chainLength hid cs
      rw [spanAt_of_longestName _ hc hid hname]
      exact .name hbegins hc (by rwa [hdrop hcut])
  · intro h
    cases h with
    | parenthesis hbegins =>
      obtain ⟨gap, cs, hcut, hgap, hstart, rfl⟩ := beginsAt_iff.mp hbegins
      exact ⟨gap, '(', cs, hcut, hgap, hstart, rfl⟩
    | @name i c name hbegins hc hname =>
      obtain ⟨gap, cs, hcut, hgap, hstart, rfl⟩ := beginsAt_iff.mp hbegins
      rw [hdrop hcut] at hname
      have hid := isIdentifierChar_of_isStart hstart hc
      exact ⟨gap, c, cs, hcut, hgap, hstart, (spanAt_of_longestName _ hc hid hname).symm⟩

/-- **The target is the first and the longest.**  There is none exactly if no character from the
position on can begin one.  Otherwise it begins at the first character that can, and it is the
parenthesis there, or the longest name.  The search from a position that may be any integer finds
the same. -/
theorem find?_firstLongest (script : Text) (pos : Nat) :
    (find? script pos = none ↔ ∀ i c, pos ≤ i → script[i]? = some c → isStart c = false) ∧
    (∀ t, find? script pos = some t ↔ IsTarget script pos t) ∧
    (pos < 0x8000000000000000 → findAt? script pos = .ok (find? script pos)) := by
  refine ⟨?_, fun t => find?_eq_some_iff_isTarget, ?_⟩
  · rw [find?_eq_none_iff]
    constructor
    · intro h i c hle hc
      refine h c (List.mem_iff_getElem?.mpr ⟨i - pos, ?_⟩)
      rw [List.getElem?_drop, Nat.add_sub_cancel' hle, hc]
    · intro h c hc
      obtain ⟨k, hk⟩ := List.mem_iff_getElem?.mp hc
      rw [List.getElem?_drop] at hk
      exact h (pos + k) c (Nat.le_add_right ..) hk
  · intro hpos
    rw [findAt?, if_neg (by simp; omega), Int.toNat_natCast]

/-- The last dot is not part of the name, for no identifier follows it. -/
example : find? "; a .\n b. ; c".toList 0 = some ⟨2, 8⟩ := by decide

end ScriptDocs.Target
