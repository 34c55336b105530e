import Mathlib.Data.List.TakeWhile
import ScriptDocs.Link

/-!
# References in a text

`pieces` reads a text with one look ahead at every dot and number sign.  Here references are given
by their grammar, with no regard to what follows them, and a text is cut into references and gaps:
in a gap stands no word character, and each reference is the longest that begins where it stands.
There is one such cut, and `symbolLinks` replaces its references one by one.

* `IsReference`: the grammar; `isReference_iff` says it by the first character and what may follow.
* `LongestReference`, `longestReference_follow`: the longest reference at the beginning of a text.
* `Cut`, `Cut.Proper`: a text in gaps and references; `Cut.Proper.unique` says that there is one.
* `proper_cutOf`: the pieces of a text are its cut.
* `symbolLinks_cut`: what becomes of a text.
-/

namespace ScriptDocs.Link

/-! ### The grammar -/

structure Word (w : Text) : Prop where
  ne_nil : w ≠ []
  chars : ∀ c ∈ w, isWord c = true

inductive DottedName : Text → Prop
  | word {w : Text} (hw : Word w) : DottedName w
  | dotted {w t : Text} (hw : Word w) (ht : DottedName t) : DottedName (w ++ '.' :: t)

/-- A dotted name, alone or with a number sign and a word behind it. -/
inductive IsReference : Text → Prop
  | name {t : Text} (ht : DottedName t) : IsReference t
  | anchored {t w : Text} (ht : DottedName t) (hw : Word w) : IsReference (t ++ '#' :: w)

/-- What may follow a word character in a reference. -/
inductive Follows : Text → Prop
  | nil : Follows []
  | char {c : Char} {t : Text} (hc : isWord c = true) (ht : Follows t) : Follows (c :: t)
  | dot {c : Char} {t : Text} (hc : isWord c = true) (ht : Follows t) : Follows ('.' :: c :: t)
  | hash {w : Text} (hw : Word w) : Follows ('#' :: w)

theorem Word.exists_cons {w : Text} (h : Word w) :
    ∃ c cs, w = c :: cs ∧ isWord c = true ∧ ∀ x ∈ cs, isWord x = true := by
  obtain ⟨hne, hall⟩ := h
  cases w with
  | nil => exact absurd rfl hne
  | cons c cs =>
    obtain ⟨hc, hcs⟩ := List.forall_mem_cons.mp hall
    exact ⟨c, cs, rfl, hc, hcs⟩

theorem Word.cons {c : Char} {w : Text} (hc : isWord c = true) (hw : ∀ x ∈ w, isWord x = true) :
    Word (c :: w) :=
  ⟨by simp, List.forall_mem_cons.mpr ⟨hc, hw⟩⟩

theorem Follows.append {p t : Text} (hp : ∀ x ∈ p, isWord x = true) (h : Follows t) :
    Follows (p ++ t) := by
  induction p with
  | nil => exact h
  | cons c p ih =>
    obtain ⟨hc, hp⟩ := List.forall_mem_cons.mp hp
    exact .char hc (ih hp)

/-- What follows the first character of a dotted name, when more follows the name. -/
theorem DottedName.exists_cons {t u : Text} (h : DottedName t) (hu : Follows u) :
    ∃ c cs, t ++ u = c :: cs ∧ isWord c = true ∧ Follows cs := by
  induction h with
  | word hw =>
    obtain ⟨c, cs, rfl, hc, hcs⟩ := hw.exists_cons
    exact ⟨c, cs ++ u, rfl, hc, hu.append hcs⟩
  | @dotted w t hw _ ih =>
    obtain ⟨c, cs, rfl, hc, hcs⟩ := hw.exists_cons
    obtain ⟨d, ds, hd, hdw, hds⟩ := ih
    refine ⟨c, cs ++ '.' :: (t ++ u), by simp, hc, ?_⟩
    rw [hd]
    exact (Follows.dot hdw hds).append hcs

theorem DottedName.cons {c : Char} {t : Text} (hc : isWord c = true) (h : DottedName t) :
    DottedName (c :: t) := by
  cases h with
  | word hw => exact .word (.cons hc hw.chars)
  | @dotted w t hw ht => exact .dotted (w := c :: w) (.cons hc hw.chars) ht

theorem IsReference.cons {c : Char} {t : Text} (hc : isWord c = true) (h : IsReference t) :
    IsReference (c :: t) := by
  cases h with
  | name ht => exact .name (ht.cons hc)
  | anchored ht hw => exact .anchored (ht.cons hc) hw

theorem IsReference.dotted {w t : Text} (hw : Word w) (h : IsReference t) :
    IsReference (w ++ '.' :: t) := by
  cases h with
  | name ht => exact .name (.dotted hw ht)
  | @anchored t v ht hv =>
    rw [← List.cons_append, ← List.append_assoc]
    exact .anchored (.dotted hw ht) hv

theorem Follows.isReference {t : Text} (h : Follows t) :
    ∀ {c : Char}, isWord c = true → IsReference (c :: t) := by
  have hone {c : Char} (hc : isWord c = true) : Word [c] := .cons hc (by simp)
  induction h with
  | nil => intro c hc; exact .name (.word (hone hc))
  | char hd _ ih => intro c hc; exact (ih hd).cons hc
  | dot hd _ ih => intro c hc; exact (ih hd).dotted (hone hc)
  | hash hw => intro c hc; exact .anchored (.word (hone hc)) hw

/-- **A reference is a word character and what may follow it.** -/
theorem isReference_iff {t : Text} :
    IsReference t ↔ ∃ c cs, t = c :: cs ∧ isWord c = true ∧ Follows cs := by
  constructor
  · intro h
    cases h with
    | name ht => simpa using ht.exists_cons .nil
    | anchored ht hw => exact ht.exists_cons (.hash hw)
  · intro h
    obtain ⟨c, cs, rfl, hc, hcs⟩ := h
    exact hcs.isReference hc

/-! ### The longest reference -/

/-- What follows a word character in the reference that `pieces` reads there. -/
def follow (t : Text) : Text := (splitName t).1 ++ (splitAnchor (splitName t).2).1

/-- What `pieces` reads next behind that reference. -/
def behind (t : Text) : Text := (splitAnchor (splitName t).2).2

theorem follow_append_behind (t : Text) : follow t ++ behind t = t := by
  rw [follow, behind, List.append_assoc, splitAnchor_append, splitName_append]

theorem follow_word {c : Char} (hc : isWord c = true) (t : Text) :
    follow (c :: t) = c :: follow t := by
  rw [follow, splitName, if_pos (by simp [hc])]
  rfl

theorem follow_dot {c : Char} (hc : isWord c = true) (t : Text) :
    follow ('.' :: c :: t) = '.' :: c :: follow t := by
  rw [follow, splitName, if_pos (by simp [beginsWord, hc]), ← follow_word hc t]
  rfl

theorem isWord_hash : isWord '#' = false := by decide

theorem follow_hash {c : Char} (hc : isWord c = true) (t : Text) :
    follow ('#' :: c :: t) = '#' :: c :: t.takeWhile isWord := by
  rw [follow, splitName, if_neg (by simp [isWord_hash])]
  simp [splitAnchor, beginsWord, hc]

/-- A character that is no word character goes on only as a dot or a number sign in front of one. -/
theorem follow_stop {c : Char} {t : Text} (hc : isWord c = false)
    (h : beginsWord t = true → c ≠ '.' ∧ c ≠ '#') : follow (c :: t) = [] := by
  have hname : splitName (c :: t) = ([], c :: t) := by
    rw [splitName, if_neg]
    rw [hc, Bool.false_or, Bool.and_eq_true, decide_eq_true_eq]
    exact fun hdot => (h hdot.2).1 hdot.1
  have hanchor : (splitAnchor (c :: t)).1 = [] := by
    unfold splitAnchor
    split
    · rename_i cs heq
      obtain ⟨rfl, rfl⟩ := List.cons.inj heq
      rw [if_neg fun hword => (h hword).2 rfl]
    · rfl
  rw [follow, hname, hanchor, List.append_nil]

theorem Follows.tail {c : Char} {t : Text} (h : Follows (c :: t)) (hc : isWord c = true) :
    Follows t := by
  cases h with
  | char _ ht => exact ht
  | dot => exact absurd hc (by decide)
  | hash => exact absurd hc (by decide)

theorem follows_follow (t : Text) : Follows (follow t) := by
  induction t with
  | nil => exact .nil
  | cons c t ih =>
    cases hc : isWord c with
    | true =>
      rw [follow_word hc]
      exact .char hc ih
    | false =>
      by_cases hstop : beginsWord t = true → c ≠ '.' ∧ c ≠ '#'
      · rw [follow_stop hc hstop]
        exact .nil
      -- a dot or a number sign, with a word character behind it
      rw [Classical.not_imp, Classical.not_and_iff_not_or_not, not_not, not_not] at hstop
      obtain ⟨hbegins, hsign⟩ := hstop
      cases t with
      | nil => cases hbegins
      | cons d u =>
        have hd : isWord d = true := hbegins
        rcases hsign with rfl | rfl
        · rw [follow_word hd] at ih
          rw [follow_dot hd]
          exact .dot hd (ih.tail hd)
        · rw [follow_hash hd]
          exact .hash (.cons hd fun x hx => List.mem_takeWhile_imp hx)

/-- **No reference goes further.** -/
theorem Follows.length_le_follow {u : Text} (h : Follows u) (rest : Text) :
    u.length ≤ (follow (u ++ rest)).length := by
  induction h with
  | nil => exact Nat.zero_le _
  | char hc _ ih =>
    rw [List.cons_append, follow_word hc]
    exact Nat.succ_le_succ ih
  | dot hc _ ih =>
    rw [List.cons_append, List.cons_append, follow_dot hc]
    exact Nat.succ_le_succ (Nat.succ_le_succ ih)
  | hash hw =>
    obtain ⟨c, cs, rfl, hc, hcs⟩ := hw.exists_cons
    rw [List.cons_append, List.cons_append, follow_hash hc, List.takeWhile_append_of_pos hcs]
    simp

/-- A text begins with the reference, and with no reference that is longer. -/
structure LongestReference (t reference : Text) : Prop where
  isReference : IsReference reference
  begins : reference <+: t
  longest : ∀ other, IsReference other → other <+: t → other.length ≤ reference.length

theorem longestReference_follow {c : Char} (hc : isWord c = true) (t : Text) :
    LongestReference (c :: t) (c :: follow t) := by
  refine ⟨(follows_follow t).isReference hc, ?_, ?_⟩
  · exact List.cons_prefix_cons.mpr ⟨rfl, behind t, follow_append_behind t⟩
  · intro other hother hbegins
    obtain ⟨d, u, rfl, -, hu⟩ := isReference_iff.mp hother
    obtain ⟨rfl, rest, rfl⟩ := List.cons_prefix_cons.mp hbegins
    exact Nat.succ_le_succ (hu.length_le_follow rest)

/-- There is only one longest reference. -/
theorem LongestReference.unique {t a b : Text} (ha : LongestReference t a)
    (hb : LongestReference t b) : a = b :=
  (List.prefix_of_prefix_length_le ha.begins hb.begins
    (hb.longest a ha.isReference ha.begins)).eq_of_length_le (ha.longest b hb.isReference hb.begins)

/-! ### Cuts -/

/-- A text in gaps and references: the gap in front, and each reference with the gap behind it. -/
structure Cut where
  front : Text
  parts : List (Text × Text)
deriving DecidableEq, Repr

/-- No word character stands in the text. -/
def Wordless (g : Text) : Prop := ∀ c ∈ g, isWord c = false

namespace Cut

def written (f : Text → Text) (c : Cut) : Text := c.front ++ c.parts.flatMap fun p => f p.1 ++ p.2

def text (c : Cut) : Text := c.written id

/-- No word character stands in a gap, and each reference is the longest with which the rest of the
text begins. -/
inductive Proper : Cut → Prop
  | gap {g : Text} (hg : Wordless g) : Proper ⟨g, []⟩
  | reference {g t : Text} {rest : Cut} (hg : Wordless g)
      (ht : LongestReference (t ++ rest.text) t) (hrest : rest.Proper) :
      Proper ⟨g, (t, rest.front) :: rest.parts⟩

theorem text_gap (g : Text) : text ⟨g, []⟩ = g := List.append_nil g

theorem text_reference (g t : Text) (rest : Cut) :
    text ⟨g, (t, rest.front) :: rest.parts⟩ = g ++ (t ++ rest.text) := by
  simp [text, written]

/-- A text has one gap in front of its first word character. -/
theorem gap_unique {g g' a b : Text} (hg : Wordless g) (hg' : Wordless g')
    (ha : ∀ c, a.head? = some c → isWord c = true) (hb : ∀ c, b.head? = some c → isWord c = true)
    (h : g ++ a = g' ++ b) : g = g' ∧ a = b := by
  -- what one gap has more than the other would begin with a word character
  have hover {s x y : Text} (hs : ∀ c ∈ s, isWord c = false) (hx : x = s ++ y)
      (hhead : ∀ c, x.head? = some c → isWord c = true) : s = [] := by
    cases s with
    | nil => rfl
    | cons c s =>
      subst hx
      exact absurd (hhead c rfl) (by simp [hs c])
  rcases List.append_eq_append_iff.mp h with ⟨s, rfl, hs⟩ | ⟨s, rfl, hs⟩
  · obtain rfl := hover (fun c hc => hg' c (List.mem_append_right g hc)) hs ha
    exact ⟨(List.append_nil g).symm, hs⟩
  · obtain rfl := hover (fun c hc => hg c (List.mem_append_right g' hc)) hs hb
    exact ⟨List.append_nil g', hs.symm⟩

theorem head_reference {t u : Text} (h : IsReference t) :
    ∀ c, (t ++ u).head? = some c → isWord c = true := by
  obtain ⟨c, cs, rfl, hc, -⟩ := isReference_iff.mp h
  intro d hd
  rwa [← Option.some.inj hd]

theorem reference_append_ne_nil {t : Text} (h : IsReference t) (u : Text) : t ++ u ≠ [] := by
  obtain ⟨c, cs, rfl, -, -⟩ := isReference_iff.mp h
  simp

/-- **A text has one cut.** -/
theorem Proper.unique {c d : Cut} (hc : c.Proper) (hd : d.Proper) (h : c.text = d.text) :
    c = d := by
  have hnil : ∀ x, ([] : Text).head? = some x → isWord x = true := by
    intro x hx
    cases hx
  induction hc generalizing d with
  | @gap g hg =>
    cases hd with
    | @gap g' hg' =>
      rw [text_gap, text_gap] at h
      rw [h]
    | @reference g' t' rest' hg' ht' hrest' =>
      rw [text_gap, text_reference, ← List.append_nil g] at h
      have hboth := gap_unique hg hg' hnil (head_reference ht'.isReference) h
      exact absurd hboth.2.symm (reference_append_ne_nil ht'.isReference _)
  | @reference g t rest hg ht _ ih =>
    cases hd with
    | @gap g' hg' =>
      rw [text_gap, text_reference, ← List.append_nil g'] at h
      have hboth := gap_unique hg hg' (head_reference ht.isReference) hnil h
      exact absurd hboth.2 (reference_append_ne_nil ht.isReference _)
    | @reference g' t' rest' hg' ht' hrest' =>
      rw [text_reference, text_reference] at h
      obtain ⟨rfl, hbehind⟩ := gap_unique hg hg' (head_reference ht.isReference)
        (head_reference ht'.isReference) h
      rw [← hbehind] at ht'
      obtain rfl := ht.unique ht'
      obtain rfl := ih hrest' (List.append_cancel_left hbehind)
      rfl

def ofPieces : List Piece → Cut
  | [] => ⟨[], []⟩
  | .gap c :: ps => ⟨c :: (ofPieces ps).front, (ofPieces ps).parts⟩
  | .reference name hash :: ps => ⟨[], (name ++ hash, (ofPieces ps).front) :: (ofPieces ps).parts⟩

/-- What is put in a piece's place if references are replaced. -/
def replaced (f : Text → Text) : Piece → Text
  | .gap c => [c]
  | .reference name hash => f (name ++ hash)

theorem written_ofPieces (f : Text → Text) (ps : List Piece) :
    (ofPieces ps).written f = ps.flatMap (replaced f) := by
  induction ps with
  | nil => rfl
  | cons p ps ih =>
    rw [List.flatMap_cons, ← ih]
    cases p with
    | gap c => rfl
    | reference name hash => simp [ofPieces, replaced, written]

theorem Proper.cons {c : Cut} (h : c.Proper) {x : Char} (hx : isWord x = false) :
    Proper ⟨x :: c.front, c.parts⟩ := by
  cases h with
  | gap hg => exact .gap (List.forall_mem_cons.mpr ⟨hx, hg⟩)
  | reference hg ht hrest => exact .reference (List.forall_mem_cons.mpr ⟨hx, hg⟩) ht hrest

end Cut

def cutOf (t : Text) : Cut := .ofPieces (pieces t)

theorem text_cutOf (t : Text) : (cutOf t).text = t := by
  have hsource : Cut.replaced id = Piece.source := by
    funext p
    cases p with
    | gap c => rfl
    | reference name hash => rfl
  rw [cutOf, Cut.text, Cut.written_ofPieces, hsource, flatMap_source_pieces]

/-- **The pieces of a text are its cut.** -/
theorem proper_cutOf (t : Text) : (cutOf t).Proper := by
  unfold cutOf
  fun_induction pieces t with
  | case1 => exact .gap (by simp [Wordless])
  | case2 c cs hc name hash ih =>
    refine .reference (by simp [Wordless]) ?_ ih
    have hrest : Cut.text (.ofPieces (pieces hash.2)) = behind cs := text_cutOf (behind cs)
    have htoken : c :: name.1 ++ hash.1 = c :: follow cs := rfl
    rw [hrest, htoken, List.cons_append, follow_append_behind]
    exact longestReference_follow hc cs
  | case3 c cs hc ih => exact ih.cons (by simpa using hc)

/-! ### What becomes of a reference -/

def nameOf (reference : Text) : Text := reference.takeWhile (· ≠ '#')

/-- What is put in the place of a reference: a link to the page of its name, if that is known. -/
def linkOf (symbols : List Text) (reference : Text) : Text :=
  if symbols.contains (nameOf reference) then anchor (nameOf reference ++ ".html".toList) reference
  else reference

theorem hash_notMem_splitName (t : Text) : '#' ∉ (splitName t).1 := by
  induction t with
  | nil => simp [splitName]
  | cons c t ih =>
    unfold splitName
    split
    · rename_i h
      have hc : '#' ≠ c := by
        rintro rfl
        simp [isWord_hash] at h
      simpa [hc] using ih
    · simp

theorem nameOf_reference {name : Text} (hname : '#' ∉ name) (t : Text) :
    nameOf (name ++ (splitAnchor t).1) = name := by
  have hstop : ∀ c, (splitAnchor t).1.head? = some c → (decide (c ≠ '#')) = false := by
    intro c hc
    unfold splitAnchor at hc
    split at hc
    · split at hc
      · simpa using (Option.some.inj hc).symm
      · cases hc
    · cases hc
  have hall : ∀ c ∈ name, decide (c ≠ '#') = true := by
    intro c hc
    simpa using fun h : c = '#' => hname (h ▸ hc)
  rw [nameOf, List.takeWhile_append_of_pos hall]
  cases hhash : (splitAnchor t).1 with
  | nil => simp
  | cons c cs =>
    have hc := hstop c (by rw [hhash]; rfl)
    rw [List.takeWhile_cons_of_neg (by simp [hc]), List.append_nil]

/-- **References are replaced one by one.** -/
theorem symbolLinks_eq (symbols : List Text) (t : Text) :
    symbolLinks symbols t = (cutOf t).written (linkOf symbols) := by
  rw [symbolLinks, cutOf, Cut.written_ofPieces]
  fun_induction pieces t with
  | case1 => rfl
  | case2 c cs hc name hash ih =>
    have hno : '#' ∉ c :: name.1 := by
      have hne : '#' ≠ c := by
        rintro rfl
        exact absurd hc (by simp [isWord_hash])
      simpa [hne] using hash_notMem_splitName cs
    have hname : nameOf (c :: name.1 ++ hash.1) = c :: name.1 := nameOf_reference hno name.2
    rw [List.flatMap_cons, List.flatMap_cons, ih, Piece.linked, Cut.replaced, linkOf, hname]
  | case3 c cs _ ih => rw [List.flatMap_cons, List.flatMap_cons, ih, Piece.linked, Cut.replaced]

/-! ### What is put in -/

/-- A stretch of a text with links: what stood there before, or one of the two tags that are put
around a reference. -/
inductive Stretch where
  | kept (t : Text)
  | opening (name : Text)
  | closing
deriving DecidableEq, Repr

namespace Stretch

def text : Stretch → Text
  | .kept t => t
  | .opening name => "<a href=\"".toList ++ (name ++ ".html".toList) ++ "\">".toList
  | .closing => "</a>".toList

/-- What is left of a stretch if what was put in is removed. -/
def original : Stretch → Text
  | .kept t => t
  | .opening _ | .closing => []

/-- The stretches that take the place of a reference. -/
def ofReference (symbols : List Text) (reference : Text) : List Stretch :=
  if symbols.contains (nameOf reference) then
    [.opening (nameOf reference), .kept reference, .closing]
  else [.kept reference]

theorem text_ofReference (symbols : List Text) (reference : Text) :
    (ofReference symbols reference).flatMap text = linkOf symbols reference := by
  unfold ofReference linkOf
  by_cases h : symbols.contains (nameOf reference) = true
  · rw [if_pos h, if_pos h, List.flatMap_cons, List.flatMap_cons, List.flatMap_singleton]
    unfold anchor
    exact List.append_assoc _ reference _ |>.symm
  · rw [if_neg h, if_neg h]
    exact List.append_nil reference

theorem original_ofReference (symbols : List Text) (reference : Text) :
    (ofReference symbols reference).flatMap original = reference := by
  unfold ofReference
  by_cases h : symbols.contains (nameOf reference) = true
  · rw [if_pos h]
    exact List.append_nil reference
  · rw [if_neg h]
    exact List.append_nil reference

end Stretch

/-- The stretches of a text whose references to known symbols are made links. -/
def Cut.stretches (symbols : List Text) (c : Cut) : List Stretch :=
  .kept c.front :: c.parts.flatMap fun p => Stretch.ofReference symbols p.1 ++ [.kept p.2]

theorem Cut.text_stretches (symbols : List Text) (c : Cut) :
    (c.stretches symbols).flatMap Stretch.text = c.written (linkOf symbols) := by
  have hpart (p : Text × Text) : (Stretch.ofReference symbols p.1 ++ [Stretch.kept p.2]).flatMap
      Stretch.text = linkOf symbols p.1 ++ p.2 := by
    rw [List.flatMap_append, Stretch.text_ofReference, List.flatMap_singleton]
    rfl
  rw [stretches, List.flatMap_cons, List.flatMap_assoc]
  simp only [hpart]
  rfl

theorem Cut.original_stretches (symbols : List Text) (c : Cut) :
    (c.stretches symbols).flatMap Stretch.original = c.text := by
  have hpart (p : Text × Text) : (Stretch.ofReference symbols p.1 ++ [Stretch.kept p.2]).flatMap
      Stretch.original = p.1 ++ p.2 := by
    rw [List.flatMap_append, Stretch.original_ofReference, List.flatMap_singleton]
    rfl
  rw [stretches, List.flatMap_cons, List.flatMap_assoc]
  simp only [hpart]
  rfl

/-! ### Parts of a reference -/

/-- Behind the number sign of a reference stand only word characters. -/
theorem Follows.isWord_behind {u w : Text} (h : Follows u) (hsuffix : '#' :: w <:+ u) :
    ∀ c ∈ w, isWord c = true := by
  induction h with
  | nil => simp at hsuffix
  | char hc _ ih =>
    rcases List.suffix_cons_iff.mp hsuffix with heq | hsuffix
    · rw [← (List.cons.inj heq).1, isWord_hash] at hc
      cases hc
    · exact ih hsuffix
  | dot hc _ ih =>
    rcases List.suffix_cons_iff.mp hsuffix with heq | hsuffix
    · exact absurd (List.cons.inj heq).1 (by decide)
    rcases List.suffix_cons_iff.mp hsuffix with heq | hsuffix
    · rw [← (List.cons.inj heq).1, isWord_hash] at hc
      cases hc
    · exact ih hsuffix
  | hash hw =>
    rcases List.suffix_cons_iff.mp hsuffix with heq | hsuffix
    · rw [(List.cons.inj heq).2]
      exact hw.chars
    · exact fun c hc => hw.chars c (hsuffix.subset (List.mem_cons_of_mem _ hc))

theorem IsReference.isWord_behind {t front w : Text} (h : IsReference t)
    (heq : t = front ++ '#' :: w) : ∀ c ∈ w, isWord c = true := by
  obtain ⟨c, cs, rfl, hc, hcs⟩ := isReference_iff.mp h
  cases front with
  | nil =>
    rw [(List.cons.inj heq).1, isWord_hash] at hc
    cases hc
  | cons d front => exact hcs.isWord_behind ⟨front, (List.cons.inj heq).2.symm⟩

theorem hash_notMem_nameOf (t : Text) : ∀ c ∈ nameOf t, decide (c ≠ '#') = true :=
  fun _ hc => List.mem_takeWhile_imp (p := fun x => decide (x ≠ '#')) hc

theorem nameOf_append {s : Text} (hs : ∀ c ∈ s, decide (c ≠ '#') = true) (t : Text) :
    nameOf (s ++ t) = s ++ nameOf t :=
  List.takeWhile_append_of_pos hs

theorem nameOf_dot (t : Text) : nameOf ('.' :: t) = '.' :: nameOf t :=
  List.takeWhile_cons_of_pos (by decide)

/-- What ends in front of a dot is not all of the name. -/
theorem nameOf_ne_of_dot_behind {t s rest : Text} (heq : t = s ++ '.' :: rest) : nameOf t ≠ s := by
  intro hname
  have hs := hash_notMem_nameOf t
  rw [hname] at hs
  rw [heq, nameOf_append hs, nameOf_dot] at hname
  simp at hname

/-- What begins behind a dot is not all of the name. -/
theorem nameOf_ne_of_dot_before {t s rest : Text} (h : IsReference t)
    (heq : t = rest ++ '.' :: s) : nameOf t ≠ s := by
  intro hname
  by_cases hhash : '#' ∈ rest
  · -- the dot would stand behind the number sign
    obtain ⟨front, w, rfl⟩ := List.append_of_mem hhash
    rw [List.append_assoc, List.cons_append] at heq
    have hdot := h.isWord_behind heq '.' (by simp)
    exact absurd hdot (by decide)
  · -- the name would be all of the reference, which is longer
    have hrest : ∀ c ∈ rest, decide (c ≠ '#') = true := by
      intro c hc
      simpa using fun he : c = '#' => hhash (he ▸ hc)
    have hs := hash_notMem_nameOf t
    rw [hname] at hs
    have hself : nameOf s = s := by simpa [nameOf] using nameOf_append hs []
    rw [heq, nameOf_append hrest, nameOf_dot, hself] at hname
    have hlen := congrArg List.length hname
    simp only [List.length_append, List.length_cons] at hlen
    omega

theorem linkOf_cons_of_ne {s t : Text} (h : nameOf t ≠ s) (symbols : List Text) :
    linkOf (s :: symbols) t = linkOf symbols t := by
  unfold linkOf
  rw [List.contains_cons, beq_eq_false_iff_ne.mpr h, Bool.false_or]

theorem eq_of_anchor_eq {a b t : Text} (h : anchor a t = anchor b t) : a = b := by
  unfold anchor at h
  exact List.append_cancel_left
    (List.append_cancel_right (List.append_cancel_right (List.append_cancel_right h)))

theorem anchor_ne_self (a t : Text) : anchor a t ≠ t := by
  intro h
  have hlen := congrArg List.length h
  have hclose : "</a>".toList.length = 4 := rfl
  unfold anchor at hlen
  simp only [List.length_append, hclose] at hlen
  omega

/-- A reference is made a link to no page but that of its name. -/
theorem linkOf_ne_anchor {s t : Text} (h : nameOf t ≠ s) (symbols : List Text) :
    linkOf symbols t ≠ anchor (s ++ ".html".toList) t := by
  unfold linkOf
  by_cases hmem : symbols.contains (nameOf t) = true
  · rw [if_pos hmem]
    exact fun heq => h (List.append_cancel_right (eq_of_anchor_eq heq))
  · rw [if_neg hmem]
    exact (anchor_ne_self _ t).symm

theorem Cut.Proper.isReference {c : Cut} (h : c.Proper) : ∀ p ∈ c.parts, IsReference p.1 := by
  induction h with
  | gap => simp
  | reference _ ht _ ih => exact List.forall_mem_cons.mpr ⟨ht.isReference, ih⟩

/-- Where references are replaced by the same, the texts are the same. -/
theorem Cut.written_congr {f g : Text → Text} {c : Cut} (h : ∀ p ∈ c.parts, f p.1 = g p.1) :
    c.written f = c.written g := by
  unfold written
  congr 1
  rw [List.flatMap_def, List.flatMap_def]
  congr 1
  exact List.map_congr_left fun p hp => by rw [h p hp]

/-! ### What becomes of a text -/

/-- **References are linked one by one.**  A text has one cut into gaps without word characters and
references that are as long as can be.  Linking it replaces each reference whose name is known by a
link to the page of that name, and nothing else.  So the text comes back if the tags that were put
in are removed, and nothing is put in if no symbol is known.  A symbol that is only a part of a
reference, in front of a dot or behind one, is not linked there; and one that is nowhere the whole
name makes no difference. -/
theorem symbolLinks_cut (t : Text) :
    ((cutOf t).Proper ∧ (cutOf t).text = t ∧ ∀ c : Cut, c.Proper → c.text = t → c = cutOf t) ∧
    (∀ symbols, symbolLinks symbols t = (cutOf t).written (linkOf symbols) ∧
      ((cutOf t).stretches symbols).flatMap Stretch.text = symbolLinks symbols t ∧
      ((cutOf t).stretches symbols).flatMap Stretch.original = t) ∧
    symbolLinks [] t = t ∧
    (∀ p ∈ (cutOf t).parts, ∀ s rest, p.1 = s ++ '.' :: rest ∨ p.1 = rest ++ '.' :: s →
      ∀ symbols, linkOf symbols p.1 ≠ anchor (s ++ ".html".toList) p.1 ∧
        linkOf (s :: symbols) p.1 = linkOf symbols p.1) ∧
    ∀ s, (∀ p ∈ (cutOf t).parts, nameOf p.1 ≠ s) →
      ∀ symbols, symbolLinks (s :: symbols) t = symbolLinks symbols t := by
  have hproper := proper_cutOf t
  have htext := text_cutOf t
  refine ⟨⟨hproper, htext, ?_⟩, ?_, ?_, ?_, ?_⟩
  · intro c hc hct
    exact hc.unique hproper (hct.trans htext.symm)
  · intro symbols
    exact ⟨symbolLinks_eq symbols t,
      ((cutOf t).text_stretches symbols).trans (symbolLinks_eq symbols t).symm,
      ((cutOf t).original_stretches symbols).trans htext⟩
  · have hplain : (cutOf t).written (linkOf []) = (cutOf t).text :=
      Cut.written_congr fun p _ => if_neg Bool.false_ne_true
    rw [symbolLinks_eq, hplain, htext]
  · intro p hp s rest hpart symbols
    have hne : nameOf p.1 ≠ s := by
      rcases hpart with heq | heq
      · exact nameOf_ne_of_dot_behind heq
      · exact nameOf_ne_of_dot_before (hproper.isReference p hp) heq
    exact ⟨linkOf_ne_anchor hne symbols, linkOf_cons_of_ne hne symbols⟩
  · intro s hs symbols
    rw [symbolLinks_eq, symbolLinks_eq]
    exact Cut.written_congr fun p hp => linkOf_cons_of_ne (hs p hp) symbols

/-- Behind the number sign a dot ends the reference.  The symbol `a.b` is known, and is a part of
the first reference and the whole of the second. -/
theorem symbolLinks_cut_parts :
    cutOf "(a.b.c#d.e, a.b#f.".toList =
      ⟨"(".toList, [("a.b.c#d".toList, ".".toList), ("e".toList, ", ".toList),
        ("a.b#f".toList, ".".toList)]⟩ ∧
    symbolLinks ["a.b".toList] "(a.b.c#d.e, a.b#f.".toList =
      "(a.b.c#d.e, <a href=\"a.b.html\">a.b#f</a>.".toList ∧
    linkOf ["a.b".toList] "a.b.c#d".toList ≠
      anchor ("a.b".toList ++ ".html".toList) "a.b.c#d".toList ∧
    symbolLinks ["c".toList, "a.b".toList] "(a.b.c#d.e, a.b#f.".toList =
      symbolLinks ["a.b".toList] "(a.b.c#d.e, a.b#f.".toList := by
  have hcut : cutOf "(a.b.c#d.e, a.b#f.".toList =
      ⟨"(".toList, [("a.b.c#d".toList, ".".toList), ("e".toList, ", ".toList),
        ("a.b#f".toList, ".".toList)]⟩ := by decide +kernel
  obtain ⟨-, hlinks, -, hparts, hnone⟩ := symbolLinks_cut "(a.b.c#d.e, a.b#f.".toList
  have hlinked := (hlinks ["a.b".toList]).1
  rw [hcut] at hparts hnone hlinked
  refine ⟨hcut, hlinked.trans (by decide), ?_, hnone "c".toList ?_ ["a.b".toList]⟩
  · exact (hparts ("a.b.c#d".toList, ".".toList) (by simp) "a.b".toList "c#d".toList
      (Or.inl (by decide)) ["a.b".toList]).1
  · simp only [List.forall_mem_cons]
    decide

end ScriptDocs.Link
