import ScriptDocs.Comment.Span
import ScriptDocs.Proofs.Text

/-!
# The spans of comments

`Comment.spans` walks along a script and changes its state at the marks.  Here the same comments are
told by positions alone: a comment begins where its opening mark stands first behind the comment
before it, and ends behind the first closing mark that does not overlap the opening one.

* `Searched`: what the scan knows of the part that it has read; every step keeps it.
* `Scanned`: the comments from a position on.  `scanned_spans` says that they are found, and all
  else follows from it.
* `isComment_of_mem_spans`: every span opens with a slash and two stars, and closes with a star
  and a slash that are not part of the opening.
* `pairwise_spans`: the spans stand one behind the other.
* `spans_firstMarks`: where each comment stands, and that none is missed.
-/

namespace ScriptDocs.Comment

open Text

variable {script : Text}

/-! ### The scan -/

/-- What is known of a script that has been read from `n` up to `pos`: outside of comments no
opening mark has been seen, and inside of one no closing mark behind the opening one. -/
inductive Searched (script : Text) (n pos : Nat) : Option Nat → Prop
  | outside (hpos : n ≤ pos) (hlacks : Lacks "/**".toList script n pos) : Searched script n pos none
  | inside {s : Nat} (hpos : s + 3 ≤ pos) (hopen : FirstAt "/**".toList script n s)
      (hlacks : Lacks "*/".toList script (s + 3) pos) : Searched script n pos (some s)

/-- The comments of a script from position `n` on.  Behind the last of them no opening mark has a
closing mark behind it. -/
inductive Scanned (script : Text) : Nat → List Span → Prop
  | done {n : Nat} (hnone : ∀ i j, n ≤ i → "/**".toList <+: script.drop i → i + 3 ≤ j →
      ¬ "*/".toList <+: script.drop j) : Scanned script n []
  | found {n s e : Nat} {as : List Span} (hopen : FirstAt "/**".toList script n s)
      (hclose : FirstAt "*/".toList script (s + 3) e) (hrest : Scanned script (e + 2) as) :
      Scanned script n (⟨s, e + 2⟩ :: as)

/-- **The scan finds the comments by their marks.** -/
theorem scanned_spansFrom {opened : Option Nat} {n pos : Nat} {t : Text}
    (ht : script.drop pos = t) (h : Searched script n pos opened) :
    Scanned script n (spansFrom opened pos t) := by
  fun_induction spansFrom opened pos t generalizing n with
  | case1 opened pos =>
    refine .done ?_
    intro i j hi hopens hj
    cases h with
    | outside _ hlacks => exact absurd hopens (hlacks.of_end (by simp) ht hi)
    | inside _ hopen hlacks =>
      -- a comment stays open, and its opening mark is not behind the one at `i`
      have hle := hopen.le_of_stands hi hopens
      exact hlacks.of_end (by simp) ht (by omega)
  | case2 pos cs ih =>
    cases h with
    | outside hpos hlacks =>
      refine ih (by rw [← List.drop_drop, ht]; rfl) ?_
      exact .inside (Nat.le_refl _) ⟨hpos, ⟨cs, ht.symm⟩, hlacks⟩ (lacks_self _ _ _)
  | case3 pos c cs hnot ih =>
    cases h with
    | outside hpos hlacks =>
      refine ih (by rw [← List.drop_drop, ht]; rfl) (.outside (by omega) (hlacks.step ?_))
      rw [ht]
      rintro ⟨rest, hrest⟩
      obtain ⟨rfl, rfl⟩ := List.cons.inj hrest
      exact hnot rest rfl rfl
  | case4 start pos cs ih =>
    cases h with
    | inside hpos hopen hlacks =>
      refine .found hopen ⟨hpos, ⟨cs, ht.symm⟩, hlacks⟩ ?_
      exact ih (by rw [← List.drop_drop, ht]; rfl) (.outside (Nat.le_refl _) (lacks_self _ _ _))
  | case5 start pos c cs hnot ih =>
    cases h with
    | inside hpos hopen hlacks =>
      refine ih (by rw [← List.drop_drop, ht]; rfl) (.inside (by omega) hopen (hlacks.step ?_))
      rw [ht]
      rintro ⟨rest, hrest⟩
      obtain ⟨rfl, rfl⟩ := List.cons.inj hrest
      exact hnot rest rfl rfl

theorem scanned_spans (script : Text) : Scanned script 0 (spans script) :=
  scanned_spansFrom (List.drop_zero ..) (.outside (Nat.le_refl _) (lacks_self _ _ _))

/-! ### Spans with their marks -/

/-- The span has the marks of a documentation comment at both ends, and they do not overlap. -/
structure IsComment (script : Text) (a : Span) : Prop where
  opens : "/**".toList <+: script.drop a.start
  closes : "*/".toList <+: script.drop (a.stop - 2)
  long : a.start + 5 ≤ a.stop

theorem Scanned.isComment {n : Nat} {as : List Span} (h : Scanned script n as) :
    ∀ a ∈ as, IsComment script a := by
  induction h with
  | done => intro a ha; simp at ha
  | @found n s e as hopen hclose _ ih =>
    intro a ha
    rcases List.mem_cons.mp ha with rfl | ha
    · have hle := hclose.le
      refine ⟨hopen.stands, hclose.stands, ?_⟩
      show s + 5 ≤ e + 2
      omega
    · exact ih a ha

/-- **Every span is that of a comment.** -/
theorem isComment_of_mem_spans {a : Span} (h : a ∈ spans script) : IsComment script a :=
  (scanned_spans script).isComment a h

theorem Scanned.le_start {n : Nat} {as : List Span} (h : Scanned script n as) :
    ∀ a ∈ as, n ≤ a.start := by
  induction h with
  | done => intro a ha; simp at ha
  | @found n s e as hopen hclose _ ih =>
    have hopens := hopen.le
    have hcloses := hclose.le
    intro a ha
    rcases List.mem_cons.mp ha with rfl | ha
    · exact hopens
    · have hstart := ih a ha
      omega

theorem Scanned.pairwise {n : Nat} {as : List Span} (h : Scanned script n as) :
    as.Pairwise fun a b => a.stop ≤ b.start := by
  induction h with
  | done => exact List.Pairwise.nil
  | found _ _ hrest ih => exact List.Pairwise.cons hrest.le_start ih

/-- **Comments stand one behind the other.** -/
theorem pairwise_spans (script : Text) :
    (spans script).Pairwise fun a b => a.stop ≤ b.start :=
  (scanned_spans script).pairwise

/-- The first character of a comment is a slash. -/
theorem IsComment.getElem?_start {script : Text} {a : Span} (h : IsComment script a) :
    script[a.start]? = some '/' := by
  obtain ⟨rest, hrest⟩ := h.opens
  rw [← Nat.add_zero a.start, ← List.getElem?_drop, ← hrest]
  rfl

/-- The last character of a comment is a slash. -/
theorem IsComment.getElem?_stop {script : Text} {a : Span} (h : IsComment script a) :
    script[a.stop - 1]? = some '/' := by
  obtain ⟨rest, hrest⟩ := h.closes
  have hlong := h.long
  have hpos : a.stop - 1 = a.stop - 2 + 1 := by omega
  rw [hpos, ← List.getElem?_drop, ← hrest]
  rfl

/-! ### All spans -/

/-- Where a comment stands, counted from the end of the one before it. -/
theorem Scanned.firstMarks {n : Nat} {as : List Span} (h : Scanned script n as) :
    ∀ {front : List Span} {a : Span} {behind : List Span}, as = front ++ a :: behind →
      FirstAt "/**".toList script (front.getLast?.elim n Span.stop) a.start ∧
        ∃ e, FirstAt "*/".toList script (a.start + 3) e ∧ a.stop = e + 2 := by
  induction h with
  | done => intro front a behind heq; simp at heq
  | @found n s e as hopen hclose _ ih =>
    intro front a behind heq
    cases front with
    | nil =>
      obtain ⟨rfl, -⟩ := List.cons.inj heq
      exact ⟨hopen, e, hclose, rfl⟩
    | cons b front =>
      obtain ⟨rfl, htail⟩ := List.cons.inj heq
      have hrest := ih htail
      -- the comment in front is the last of `front`, or the one that was found here
      cases front with
      | nil => exact hrest
      | cons c front => rwa [List.getLast?_cons_cons]

/-- **No comment is missed.** -/
theorem Scanned.covers {n i j : Nat} {as : List Span} (h : Scanned script n as) (hi : n ≤ i)
    (hopens : "/**".toList <+: script.drop i) (hj : i + 3 ≤ j)
    (hcloses : "*/".toList <+: script.drop j) : ∃ a ∈ as, a.start ≤ i ∧ i < a.stop := by
  induction h with
  | done hnone => exact absurd hcloses (hnone i j hi hopens hj)
  | @found n s e as hopen _ _ ih =>
    have hle : s ≤ i := hopen.le_of_stands hi hopens
    by_cases hlt : i < e + 2
    · exact ⟨⟨s, e + 2⟩, List.mem_cons_self, hle, hlt⟩
    · obtain ⟨a, ha, hin⟩ := ih (by omega)
      exact ⟨a, List.mem_cons_of_mem _ ha, hin⟩

/-- **Comments stand where their marks do.**  They stand one behind the other; each begins at the
first opening mark behind the comment before it, or of the script, and ends with the first closing
mark behind its opening mark; and every opening mark that has a closing mark behind it lies in one
of them. -/
theorem spans_firstMarks (script : Text) :
    (spans script).Pairwise (fun a b => a.stop ≤ b.start) ∧
    (∀ front a behind, spans script = front ++ a :: behind →
      FirstAt "/**".toList script (front.getLast?.elim 0 Span.stop) a.start ∧
        ∃ e, FirstAt "*/".toList script (a.start + 3) e ∧ a.stop = e + 2) ∧
    ∀ i j, "/**".toList <+: script.drop i → i + 3 ≤ j → "*/".toList <+: script.drop j →
      ∃ a ∈ spans script, a.start ≤ i ∧ i < a.stop := by
  have hscanned := scanned_spans script
  refine ⟨pairwise_spans script, ?_, ?_⟩
  · intro front a behind heq
    exact hscanned.firstMarks heq
  · intro i j hopens hj hcloses
    exact hscanned.covers (Nat.zero_le i) hopens hj hcloses

/-- Marks that overlap: the closing mark has to stand clear of the opening one, the mark in a
closing one is none, and what stays open is no comment. -/
example : spans "/**/ x */ /***/ /** */**".toList = [⟨0, 9⟩, ⟨10, 15⟩, ⟨16, 22⟩] := by decide

end ScriptDocs.Comment
