import ScriptDocs.Proofs.Comment.Span

/-!
# Block comments

A script has block comments, and some of them are documentation comments: those that begin with a
slash and two stars, except the one that has nothing in it.  `Comment.spans` does not read block
comments, it looks for the marks of documentation comments only.  So it can take for the beginning
of one what is none: the beginning of the empty comment, or a mark that stands in a block comment of
another kind or overlaps its end.  Such a block is misread, if there is a closing mark behind.

The two readings are compared block by block.  `Scanned.pastBlock` is one step: behind a block that
is not misread, both go on from the same place.  `Scanned.pastBlocks` takes as many steps as there
are blocks in front of the first that is misread.

* `Blocks`: the block comments from a position on (`exists_blocks`, `Blocks.unique`).
* `IsDoc`, `docs`: the documentation comments among them.
* `Misread`: the blocks in which the scan sees the beginning of a comment, but should not.
* `spans_eq_docs_iff`: the scan finds the documentation comments exactly if no block is misread, and
  up to the first that is.
* `empty_block_swallows`: an empty comment, from which on code is taken for a comment.
-/

namespace ScriptDocs.Comment

open Text

variable {script : Text}

/-! ### Blocks -/

/-- The block comments of a script from position `n` on.  Each opens where its opening mark stands
first behind the one before it, and closes with the first closing mark that does not overlap the
opening one.  Behind the last of them no opening mark has a closing mark behind it. -/
inductive Blocks (script : Text) : Nat → List Span → Prop
  | done {n : Nat} (hnone : ∀ i j, n ≤ i → "/*".toList <+: script.drop i → i + 2 ≤ j →
      ¬ "*/".toList <+: script.drop j) : Blocks script n []
  | found {n s e : Nat} {bs : List Span} (hopen : FirstAt "/*".toList script n s)
      (hclose : FirstAt "*/".toList script (s + 2) e) (hrest : Blocks script (e + 2) bs) :
      Blocks script n (⟨s, e + 2⟩ :: bs)

theorem exists_blocks (script : Text) (n : Nat) : ∃ bs, Blocks script n bs := by
  induction hk : script.length - n using Nat.strong_induction_on generalizing n with
  | _ k ih =>
    by_cases hmarks : ∃ i j, n ≤ i ∧ "/*".toList <+: script.drop i ∧ i + 2 ≤ j ∧
        "*/".toList <+: script.drop j
    · obtain ⟨i, j, hi, hopens, hj, hcloses⟩ := hmarks
      obtain ⟨s, hopen⟩ := exists_firstAt hi hopens
      have hsi := hopen.le_of_stands hi hopens
      obtain ⟨e, hclose⟩ := exists_firstAt (n := s + 2) (by omega) hcloses
      have hstart := hopen.le
      have hstop := hclose.le
      have hend : e + 2 ≤ script.length := add_length_le (by decide) hclose.stands
      obtain ⟨bs, hrest⟩ := ih (script.length - (e + 2)) (by omega) (e + 2) rfl
      exact ⟨_, .found hopen hclose hrest⟩
    · refine ⟨[], .done ?_⟩
      intro i j hi hopens hj hcloses
      exact hmarks ⟨i, j, hi, hopens, hj, hcloses⟩

namespace Blocks

theorem unique {n : Nat} {bs bs' : List Span} (h : Blocks script n bs)
    (h' : Blocks script n bs') : bs = bs' := by
  induction h generalizing bs' with
  | done hnone =>
    cases h' with
    | done => rfl
    | found hopen hclose _ =>
      exact absurd hclose.stands (hnone _ _ hopen.le hopen.stands hclose.le)
  | found hopen hclose _ ih =>
    cases h' with
    | done hnone => exact absurd hclose.stands (hnone _ _ hopen.le hopen.stands hclose.le)
    | found hopen' hclose' hrest' =>
      obtain rfl := hopen.unique hopen'
      obtain rfl := hclose.unique hclose'
      rw [ih hrest']

theorem le_start {n : Nat} {bs : List Span} (h : Blocks script n bs) :
    ∀ b ∈ bs, n ≤ b.start := by
  induction h with
  | done => intro b hb; simp at hb
  | @found n s e bs hopen hclose _ ih =>
    have hopens := hopen.le
    have hcloses := hclose.le
    intro b hb
    rcases List.mem_cons.mp hb with rfl | hb
    · exact hopens
    · have hstart := ih b hb
      omega

/-- **Blocks do not overlap.** -/
theorem eq_of_mem {n i : Nat} {bs : List Span} (h : Blocks script n bs) {a b : Span} (ha : a ∈ bs)
    (hb : b ∈ bs) (hai : a.start ≤ i ∧ i < a.stop) (hbi : b.start ≤ i ∧ i < b.stop) : a = b := by
  induction h with
  | done => simp at ha
  | @found n s e bs _ _ hrest ih =>
    rcases List.mem_cons.mp ha with rfl | ha
    · rcases List.mem_cons.mp hb with rfl | hb
      · rfl
      · have hle := hrest.le_start b hb
        have hlt : i < e + 2 := hai.2
        omega
    · rcases List.mem_cons.mp hb with rfl | hb
      · have hle := hrest.le_start a ha
        have hlt : i < e + 2 := hbi.2
        omega
      · exact ih ha hb

end Blocks

/-! ### Documentation comments -/

/-- A block that begins as a documentation comment does, and has something in it. -/
structure IsDoc (script : Text) (b : Span) : Prop where
  opens : "/**".toList <+: b.text script
  filled : b.text script ≠ "/**/".toList

instance (script : Text) (b : Span) : Decidable (IsDoc script b) :=
  decidable_of_iff ("/**".toList <+: b.text script ∧ b.text script ≠ "/**/".toList)
    ⟨fun h => ⟨h.1, h.2⟩, fun h => ⟨h.opens, h.filled⟩⟩

def docs (script : Text) (bs : List Span) : List Span := bs.filter fun b => IsDoc script b

theorem docs_append (script : Text) (as bs : List Span) :
    docs script (as ++ bs) = docs script as ++ docs script bs := List.filter_append ..

theorem docs_of_isDoc {b : Span} (h : IsDoc script b) : docs script [b] = [b] := by
  simp [docs, h]

theorem docs_of_not_isDoc {b : Span} (h : ¬ IsDoc script b) : docs script [b] = [] := by
  simp [docs, h]

theorem mem_docs {b : Span} {bs : List Span} : b ∈ docs script bs ↔ b ∈ bs ∧ IsDoc script b := by
  simp [docs, List.mem_filter]

/-- The opening mark of a documentation comment is one of a block. -/
theorem opensBlock {t : Text} (h : "/**".toList <+: t) : "/*".toList <+: t :=
  (show "/*".toList <+: "/**".toList from ⟨['*'], rfl⟩).trans h

/-- **A block is a documentation comment if its marks are those of one,** and do not overlap. -/
theorem isDoc_iff {s e : Nat} (hclose : FirstAt "*/".toList script (s + 2) e) :
    IsDoc script ⟨s, e + 2⟩ ↔ "/**".toList <+: script.drop s ∧ s + 3 ≤ e := by
  have hle := hclose.le
  have hend : e + 2 ≤ script.length := add_length_le (by decide) hclose.stands
  constructor
  · intro h
    have hopens : "/**".toList <+: script.drop s := h.opens.trans (List.take_prefix ..)
    refine ⟨hopens, ?_⟩
    apply Nat.lt_of_le_of_ne hle
    -- the last star of the opening mark would be the first of the closing one
    intro he
    subst he
    obtain ⟨rest, hrest⟩ := hopens
    have hdrop : script.drop s = '/' :: '*' :: '*' :: rest := hrest.symm
    have hcloses := hclose.stands
    rw [← List.drop_drop, hdrop] at hcloses
    obtain ⟨rest', hrest'⟩ := hcloses
    have hslash : '/' :: rest' = rest := (List.cons.inj hrest').2
    refine h.filled ?_
    show (script.drop s).take (s + 2 + 2 - s) = "/**/".toList
    rw [hdrop, ← hslash, show s + 2 + 2 - s = 4 by omega]
    rfl
  · intro h
    obtain ⟨hopens, hlong⟩ := h
    refine ⟨List.prefix_take_iff.mpr ⟨hopens, ?_⟩, ?_⟩
    · show 3 ≤ e + 2 - s
      omega
    · intro htext
      have hlength : ((script.drop s).take (e + 2 - s)).length = 4 := congrArg List.length htext
      rw [List.length_take, List.length_drop] at hlength
      omega

/-! ### In step -/

/-- A block that is no documentation comment, although the mark of one stands in it or begins in it,
and has a closing mark behind it. -/
structure Misread (script : Text) (b : Span) : Prop where
  other : ¬ IsDoc script b
  marks : ∃ i j, b.start ≤ i ∧ i < b.stop ∧ "/**".toList <+: script.drop i ∧ i + 3 ≤ j ∧
    "*/".toList <+: script.drop j

/-- **One block.**  Behind a block that is not misread, the scan goes on as behind a comment, or as
if the block were not there. -/
theorem Scanned.pastBlock {n s e : Nat} {as : List Span} (h : Scanned script n as)
    (hopen : FirstAt "/*".toList script n s) (hclose : FirstAt "*/".toList script (s + 2) e)
    (hread : ¬ Misread script ⟨s, e + 2⟩) :
    ∃ as', Scanned script (e + 2) as' ∧ as = docs script [⟨s, e + 2⟩] ++ as' := by
  have hns := hopen.le
  have hse := hclose.le
  by_cases hdoc : IsDoc script ⟨s, e + 2⟩
  · rw [docs_of_isDoc hdoc]
    obtain ⟨hopens, hlong⟩ := (isDoc_iff hclose).mp hdoc
    cases h with
    | done hnone => exact absurd hclose.stands (hnone s e hns hopens hlong)
    | @found _ s' e' as' hopen' hclose' hrest =>
      have hs : s' = s := by
        have hle := hopen'.le_of_stands hns hopens
        have hge := hopen.le_of_stands hopen'.le (opensBlock hopen'.stands)
        omega
      subst hs
      obtain rfl := hclose'.unique (hclose.of_le (by omega) hlong)
      exact ⟨as', hrest, rfl⟩
  · rw [docs_of_not_isDoc hdoc]
    refine ⟨as, ?_, rfl⟩
    cases h with
    | done hnone => exact .done fun i j hi => hnone i j (by omega)
    | @found _ s' e' _ hopen' hclose' hrest =>
      have hge := hopen.le_of_stands hopen'.le (opensBlock hopen'.stands)
      have hbehind : e + 2 ≤ s' := by
        apply Nat.le_of_not_lt
        intro hlt
        exact hread ⟨hdoc, s', e', hge, hlt, hopen'.stands, hclose'.le, hclose'.stands⟩
      exact .found (hopen'.of_le (by omega) hbehind) hclose' hrest

/-- **Block by block.**  As long as no block is misread, the scan finds the documentation comments
among them, and then goes on where the blocks do. -/
theorem Scanned.pastBlocks {n : Nat} {front behind as : List Span} (h : Scanned script n as)
    (hblocks : Blocks script n (front ++ behind)) (hread : ∀ b ∈ front, ¬ Misread script b) :
    ∃ m as', Blocks script m behind ∧ Scanned script m as' ∧ as = docs script front ++ as' := by
  induction front generalizing n as with
  | nil => exact ⟨n, as, hblocks, h, rfl⟩
  | cons b front ih =>
    cases hblocks with
    | found hopen hclose hrest =>
      obtain ⟨hb, hfront⟩ := List.forall_mem_cons.mp hread
      obtain ⟨as', h', rfl⟩ := h.pastBlock hopen hclose hb
      obtain ⟨m, as'', hbehind, h'', rfl⟩ := ih h' hrest hfront
      refine ⟨m, as'', hbehind, h'', ?_⟩
      rw [← List.append_assoc, ← docs_append]
      rfl

/-- Where there are no more blocks, there are no more comments. -/
theorem Scanned.eq_nil {n : Nat} {as : List Span} (h : Scanned script n as)
    (hblocks : Blocks script n []) : as = [] := by
  cases h with
  | done => rfl
  | found hopen hclose _ =>
    cases hblocks with
    | done hnone =>
      have hle := hclose.le
      exact absurd hclose.stands (hnone _ _ hopen.le (opensBlock hopen.stands) (by omega))

/-- **In a block that is misread, a comment begins, and it does not end before the block does.** -/
theorem Scanned.inBlock {n : Nat} {b : Span} {behind as : List Span} (h : Scanned script n as)
    (hblocks : Blocks script n (b :: behind)) (hmisread : Misread script b) :
    ∃ a rest, as = a :: rest ∧ b.start ≤ a.start ∧ a.start < b.stop ∧ b.stop ≤ a.stop := by
  obtain ⟨i, j, hi, hlt, hopens, hj, hcloses⟩ := hmisread.marks
  cases hblocks with
  | @found _ s e _ hopen hclose _ =>
    have hns := hopen.le
    have hsi : s ≤ i := hi
    have hie : i < e + 2 := hlt
    cases h with
    | done hnone => exact absurd hcloses (hnone i j (by omega) hopens hj)
    | @found _ s' e' rest hopen' hclose' _ =>
      have hle := hopen'.le_of_stands (by omega) hopens
      have hge := hopen.le_of_stands hopen'.le (opensBlock hopen'.stands)
      have hse := hclose'.le
      have hee := hclose.le_of_stands (by omega) hclose'.stands
      refine ⟨⟨s', e' + 2⟩, rest, rfl, hge, ?_, ?_⟩
      · show s' < e + 2
        omega
      · show e + 2 ≤ e' + 2
        omega

/-- A mark in a block that is misread lies in a comment, but not in one of the documentation
comments, for blocks do not overlap. -/
theorem Blocks.not_misread {bs : List Span} (hblocks : Blocks script 0 bs)
    (hspans : spans script = docs script bs) : ∀ b ∈ bs, ¬ Misread script b := by
  intro b hb hmisread
  obtain ⟨i, j, hi, hlt, hopens, hj, hcloses⟩ := hmisread.marks
  obtain ⟨a, ha, hai⟩ := (scanned_spans script).covers (Nat.zero_le i) hopens hj hcloses
  rw [hspans] at ha
  obtain ⟨hmem, hdoc⟩ := mem_docs.mp ha
  obtain rfl := hblocks.eq_of_mem hmem hb hai ⟨hi, hlt⟩
  exact hmisread.other hdoc

/-- **Documentation comments are found as block comments, unless a block is misread.**  A script has
its block comments, and no other reading of them.  The scan finds exactly the documentation comments
among them if none is misread, and only then.  Otherwise it finds those in front of the first block
that is misread, and then a comment that begins in that block, and does not end before it. -/
theorem spans_eq_docs_iff (script : Text) :
    ∃ bs, Blocks script 0 bs ∧ (∀ bs', Blocks script 0 bs' → bs' = bs) ∧
      (spans script = docs script bs ↔ ∀ b ∈ bs, ¬ Misread script b) ∧
      ∀ front b behind, bs = front ++ b :: behind → (∀ a ∈ front, ¬ Misread script a) →
        Misread script b → ∃ a rest, spans script = docs script front ++ a :: rest ∧
          b.start ≤ a.start ∧ a.start < b.stop ∧ b.stop ≤ a.stop := by
  obtain ⟨bs, hblocks⟩ := exists_blocks script 0
  have hscanned := scanned_spans script
  refine ⟨bs, hblocks, fun bs' h => h.unique hblocks, ⟨hblocks.not_misread, ?_⟩, ?_⟩
  · intro hread
    rw [← List.append_nil bs] at hblocks
    obtain ⟨m, as, hrest, has, hspans⟩ := hscanned.pastBlocks hblocks hread
    rw [hspans, has.eq_nil hrest, List.append_nil]
  · intro front b behind hbs hfront hmisread
    rw [hbs] at hblocks
    obtain ⟨m, as, hrest, has, hspans⟩ := hscanned.pastBlocks hblocks hfront
    obtain ⟨a, rest, rfl, hin⟩ := has.inBlock hrest hmisread
    exact ⟨a, rest, hspans, hin⟩

/-- A mark in a block of another kind, and one that overlaps the end of such a block. -/
example : spans "/* /** a */ x".toList = [⟨3, 11⟩] ∧ spans "/* a */** b */".toList = [⟨6, 14⟩] := by
  decide

/-- A script with an empty comment in front of a documentation comment. -/
def swallowing : Text := "/**/ a /** b */ x".toList

/-- **An empty comment swallows what follows it.**  The script has no quotes and no line comments,
and its second block comment is the only documentation comment.  The scan begins at the first, and
takes the code between the two for part of a comment. -/
theorem empty_block_swallows :
    (swallowing.all fun c => !"'\"`".toList.contains c) = true ∧
    occurs "//".toList swallowing = false ∧
    Blocks swallowing 0 [⟨0, 4⟩, ⟨7, 15⟩] ∧ docs swallowing [⟨0, 4⟩, ⟨7, 15⟩] = [⟨7, 15⟩] ∧
    spans swallowing = [⟨0, 15⟩] := by
  have hnone : Lacks "/*".toList swallowing 15 17 := by decide
  refine ⟨by decide, by decide, ?_, by decide, by decide⟩
  refine .found (s := 0) (e := 2) (by decide) (by decide)
    (.found (s := 7) (e := 13) (by decide) (by decide) (.done ?_))
  intro i j hi hopens
  exact absurd hopens (hnone.of_end (by decide) (by decide) hi)

end ScriptDocs.Comment
