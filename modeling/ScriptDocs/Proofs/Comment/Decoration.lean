import ScriptDocs.Proofs.Comment.Block

/-!
# What is decoration

The blanks and the star in front of a line of a comment, and the spaces behind the star, decorate
it; the rest is text.  `Comment.interior` takes the decoration off, but it only does so for lines
that have a star.  A line without one is lost as a whole, also if it has text.

* `Text.InOrder`: pieces that stand in a text one behind the other.
* `undecorated`: a line without its decoration, whether it has a star or not.
* `interior_keeps_iff`: what is read of a comment, and that all its text is there exactly if each
  line with text has a star.
* `text_of_one_line_lost`: a comment on one line, which has no star but those of its marks.
-/

namespace ScriptDocs

namespace Text

/-! ### Pieces of a text -/

/-- The pieces stand in the text in their order, with anything in front, between and behind. -/
inductive InOrder : List Text → Text → Prop
  | nil (t : Text) : InOrder [] t
  | cons {p rest : Text} {ps : List Text} (gap : Text) (h : InOrder ps rest) :
      InOrder (p :: ps) (gap ++ (p ++ rest))

theorem inOrder_flatten (ps : List Text) : InOrder ps ps.flatten := by
  induction ps with
  | nil => exact .nil _
  | cons p ps ih => exact .cons [] ih

theorem InOrder.length_le {ps : List Text} {t : Text} (h : InOrder ps t) :
    ps.flatten.length ≤ t.length := by
  induction h with
  | nil => exact Nat.zero_le _
  | cons gap _ ih =>
    simp only [List.flatten_cons, List.length_append]
    omega

/-- If of every item all or nothing is kept, and no character is missing in the end, then all is
kept of each. -/
theorem eq_of_flatMap_length_le {α : Type} {f g : α → Text} (hf : ∀ a, f a = g a ∨ f a = [])
    (as : List α) : (as.flatMap f).length ≤ (as.flatMap g).length ∧
      ((as.flatMap g).length ≤ (as.flatMap f).length → ∀ a ∈ as, f a = g a) := by
  induction as with
  | nil => simp
  | cons a as ih =>
    obtain ⟨hle, hall⟩ := ih
    simp only [List.flatMap_cons, List.length_append, List.forall_mem_cons]
    rcases hf a with ha | ha
    · rw [ha]
      exact ⟨by omega, fun h => ⟨rfl, hall (by omega)⟩⟩
    · rw [ha, List.length_nil]
      refine ⟨by omega, fun h => ⟨?_, hall (by omega)⟩⟩
      exact (List.length_eq_zero_iff.mp (by omega)).symm

end Text

namespace Comment

open Text

/-! ### One line -/

/-- The line has a star in front of its text. -/
def HasStar (line : Text) : Prop := (trimStart line).head? = some '*'

instance (line : Text) : Decidable (HasStar line) := inferInstanceAs (Decidable (_ = _))

/-- A line without its decoration: without the blanks in front, without a star behind them, and
without the spaces behind the star. -/
def undecorated (line : Text) : Text :=
  if HasStar line then (trimStart line).tail.dropWhile (· = ' ') else trimStart line

def unstarred (t : Text) : Text := if t.head? = some '*' then t.tail else t

/-- **Only of a line with a star the text is kept.** -/
theorem lineText_eq (line : Text) :
    lineText line = if HasStar line then undecorated line else [] := by
  by_cases hstar : HasStar line
  · obtain ⟨cs, hcs⟩ := List.head?_eq_some_iff.mp hstar
    rw [if_pos hstar, undecorated, if_pos hstar, lineText, hcs]
    rfl
  · rw [if_neg hstar, lineText]
    split
    · rename_i cs hcs
      exact absurd (List.head?_eq_some_iff.mpr ⟨cs, hcs⟩) hstar
    · rfl

theorem lineText_eq_or_nil (line : Text) :
    lineText line = undecorated line ∨ lineText line = [] := by
  rw [lineText_eq]
  split
  · exact Or.inl rfl
  · exact Or.inr rfl

/-- The star is the first character that is not blank. -/
theorem hasStar_iff {line : Text} : HasStar line ↔ (squeeze line).head? = some '*' := by
  rw [HasStar, ← find?_eq_head?_trimStart, squeeze, List.head?_filter]

/-- **Decoration is blank, but for the star.** -/
theorem squeeze_undecorated (line : Text) :
    squeeze (undecorated line) = unstarred (squeeze line) := by
  by_cases hstar : HasStar line
  · have hspace : ∀ c : Char, decide (c = ' ') = true → isBlank c = true := by
      intro c hc
      rw [of_decide_eq_true hc]
      decide
    obtain ⟨cs, hcs⟩ := List.head?_eq_some_iff.mp hstar
    rw [undecorated, if_pos hstar, squeeze_dropWhile hspace, unstarred,
      if_pos (hasStar_iff.mp hstar), ← squeeze_trimStart line, hcs]
    rfl
  · rw [undecorated, if_neg hstar, unstarred, if_neg (mt hasStar_iff.mpr hstar), squeeze_trimStart]

/-- The line keeps all its text: it has a star, or no text. -/
def Kept (line : Text) : Prop := HasStar line ∨ ∀ c ∈ line, isBlank c = true

theorem lineText_eq_iff {line : Text} : lineText line = undecorated line ↔ Kept line := by
  by_cases hstar : HasStar line
  · exact iff_of_true (by rw [lineText_eq, if_pos hstar]) (Or.inl hstar)
  · rw [lineText_eq, if_neg hstar, undecorated, if_neg hstar, Kept, or_iff_right hstar, eq_comm,
      trimStart, List.dropWhile_eq_nil_iff]

theorem squeeze_lineText_eq_iff {line : Text} :
    squeeze (lineText line) = squeeze (undecorated line) ↔ Kept line := by
  by_cases hstar : HasStar line
  · exact iff_of_true (by rw [lineText_eq, if_pos hstar]) (Or.inl hstar)
  · rw [lineText_eq, if_neg hstar, undecorated, if_neg hstar, Kept, or_iff_right hstar, eq_comm,
      squeeze_trimStart]
    exact squeeze_eq_nil_iff

/-! ### The lines of a comment -/

theorem flatMap_lineText_eq (lines : List Text) :
    lines.flatMap lineText = (lines.filter fun line => HasStar line).flatMap undecorated := by
  induction lines with
  | nil => rfl
  | cons line lines ih =>
    rw [List.flatMap_cons, ih, lineText_eq, List.filter_cons]
    by_cases hstar : HasStar line
    · simp [hstar]
    · simp [hstar]

theorem inOrder_iff_kept (lines : List Text) :
    InOrder (lines.map undecorated) (lines.flatMap lineText) ↔ ∀ line ∈ lines, Kept line := by
  constructor
  · intro h line hline
    have hlength := h.length_le
    rw [← List.flatMap_def] at hlength
    have hall := (eq_of_flatMap_length_le lineText_eq_or_nil lines).2 hlength
    exact lineText_eq_iff.mp (hall line hline)
  · intro h
    have hsame : lines.map lineText = lines.map undecorated :=
      List.map_congr_left fun line hline => lineText_eq_iff.mpr (h line hline)
    rw [List.flatMap_def, hsame]
    exact inOrder_flatten _

theorem squeeze_iff_kept (lines : List Text) :
    squeeze (lines.flatMap lineText) = lines.flatMap (fun line => unstarred (squeeze line)) ↔
      ∀ line ∈ lines, Kept line := by
  simp only [← squeeze_undecorated, squeeze_flatMap, ← squeeze_lineText_eq_iff]
  have hall : ∀ line, squeeze (lineText line) = squeeze (undecorated line) ∨
      squeeze (lineText line) = [] := by
    intro line
    rcases lineText_eq_or_nil line with h | h
    · exact Or.inl (by rw [h])
    · exact Or.inr (by rw [h]; rfl)
  constructor
  · intro h
    exact (eq_of_flatMap_length_le hall lines).2 (Nat.le_of_eq (by rw [h]))
  · intro h
    rw [List.flatMap_def, List.flatMap_def, List.map_congr_left h]

/-- **What is read of a comment.**  It is the text of the lines that have a star, and nothing of the
others.  So every line is there without its decoration, and no character is missing that is neither
blank nor a star in front of a line, exactly if all lines without a star are blank. -/
theorem interior_keeps_iff {comment body : Text}
    (h : trim comment = "/**".toList ++ (body ++ "*/".toList)) :
    ∃ text, interior comment = .ok text ∧
      text = ((fullLines (trim body)).filter fun line => HasStar line).flatMap undecorated ∧
      (InOrder ((fullLines (trim body)).map undecorated) text ↔
        ∀ line ∈ fullLines (trim body), Kept line) ∧
      (squeeze text = (fullLines (trim body)).flatMap (fun line => unstarred (squeeze line)) ↔
        ∀ line ∈ fullLines (trim body), Kept line) := by
  refine ⟨(fullLines (trim body)).flatMap lineText, interior_of_trim h, ?_, ?_, ?_⟩
  · exact flatMap_lineText_eq _
  · exact inOrder_iff_kept _
  · exact squeeze_iff_kept _

/-- The first line has text, and no star. -/
theorem interior_keeps_iff_halfStarred :
    trim "/** F.\n * G. */".toList = "/**".toList ++ (" F.\n * G. ".toList ++ "*/".toList) ∧
    ∃ text, interior "/** F.\n * G. */".toList = .ok text ∧ text = "G.".toList ∧
      ¬ InOrder ((fullLines (trim " F.\n * G. ".toList)).map undecorated) text := by
  have h : trim "/** F.\n * G. */".toList =
      "/**".toList ++ (" F.\n * G. ".toList ++ "*/".toList) := by decide
  obtain ⟨text, htext, hlines, horder, -⟩ := interior_keeps_iff h
  refine ⟨h, text, htext, hlines.trans (by decide), ?_⟩
  rw [horder]
  intro hkept
  rcases hkept "F.\n".toList (by decide) with hstar | hblank
  · exact absurd hstar (by decide)
  · exact absurd (hblank 'F' (by decide)) (by decide)

/-- **A comment on one line can lose its text.**  Its only line has no star, so the flag in it is
not read. -/
theorem text_of_one_line_lost :
    trim "/** @private */".toList = "/**".toList ++ (" @private ".toList ++ "*/".toList) ∧
    interior "/** @private */".toList = .ok [] ∧
    fullLines (trim " @private ".toList) = ["@private".toList] ∧
    ¬ InOrder (["@private".toList].map undecorated) [] ∧
    squeeze [] ≠ ["@private".toList].flatMap (fun line => unstarred (squeeze line)) := by
  refine ⟨by decide, rfl, by decide, ?_, by decide⟩
  intro h
  exact absurd h.length_le (by decide)

end Comment

end ScriptDocs
