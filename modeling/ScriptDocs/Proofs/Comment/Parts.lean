import ScriptDocs.Proofs.Comment.Section

/-!
# What a comment's text is taken apart into

A comment's text is cut into sections, and each section into a description and flags.  All that is
dropped on the way is blank: the line feeds between two sections, the blanks at the ends of a piece,
and the blank in front of a flag.

* `Section.CutFrom`: a section against the marks in its text.
* `squeeze_content_ofText`, `squeeze_flatten_sections`: the two cuts, and what they keep.
* `partsOf_conserves`: descriptions and flags hold the whole text, in its order.
-/

namespace ScriptDocs.Comment

open Text

/-! ### One section -/

/-- How a section comes of its text: the description ends where the first mark begins, and the text
of a flag goes from the end of its mark to the next.  No flag stands in the description, and it does
not begin with a blank. -/
structure Section.CutFrom (s : Section) (t : Text) : Prop where
  description_eq : s.description = t.take (nextStart t (flagMarks t))
  flags_eq : ∀ k : Nat, s.flags[k]? = (flagMarks t)[k]?.map fun m =>
    ⟨m.name, trim (Span.text t ⟨m.span.stop, nextStart t ((flagMarks t).drop (k + 1))⟩)⟩
  no_flag : flagMarks s.description = []
  begins : ∀ c, s.description.head? = some c → isBlank c = false

theorem getElem?_flagsAt (t : Text) (ms : List FlagMark) (k : Nat) :
    (flagsAt t ms)[k]? = ms[k]?.map fun m =>
      ⟨m.name, trim (Span.text t ⟨m.span.stop, nextStart t (ms.drop (k + 1))⟩)⟩ := by
  induction ms generalizing k with
  | nil => rfl
  | cons m ms ih =>
    cases k with
    | zero => rfl
    | succ k => exact ih k

/-- No flag stands in front of the first one.  The induction is along the text, up to the place
where the mark begins. -/
theorem flagMarksFrom_take {t : Text} {free : Bool} {pos : Nat} {m : FlagMark}
    {ms : List FlagMark} (h : flagMarksFrom free pos t = m :: ms) :
    flagMarksFrom free pos (t.take (m.span.start - pos)) = [] := by
  induction t generalizing free pos with
  | nil => cases h
  | cons c cs ih =>
    rw [flagMarksFrom] at h
    by_cases hflag : (free && c = '@' && !(cs.takeWhile isWord).isEmpty) = true
    · rw [if_pos hflag] at h
      obtain ⟨rfl, -⟩ := List.cons.inj h
      rw [show pos - 1 - pos = 0 by omega]
      rfl
    · rw [if_neg hflag] at h
      by_cases hpos : m.span.start ≤ pos
      · rw [show m.span.start - pos = 0 by omega]
        rfl
      · rw [show m.span.start - pos = m.span.start - (pos + 1) + 1 by omega, List.take_succ_cons,
          flagMarksFrom, ih h, if_neg]
        -- a word that is cut short was a word before
        intro hshort
        apply hflag
        rw [← List.take_takeWhile] at hshort
        revert hshort
        cases cs.takeWhile isWord with
        | nil => simp
        | cons d word => simp +contextual

theorem flagMarks_description (t : Text) : flagMarks (t.take (nextStart t (flagMarks t))) = [] := by
  cases hmarks : flagMarks t with
  | nil =>
    show flagMarks (t.take t.length) = []
    rw [List.take_length, hmarks]
  | cons m ms => exact flagMarksFrom_take hmarks

/-- **A section is cut where its flags stand.** -/
theorem cutFrom_ofText {t : Text} (h : ∀ c, t.head? = some c → isBlank c = false) :
    (Section.ofText t).CutFrom t := by
  rw [Section.ofText_eq]
  refine ⟨rfl, getElem?_flagsAt t _, flagMarks_description t, ?_⟩
  intro c hc
  rw [List.head?_take] at hc
  split at hc
  · cases hc
  · exact h c hc

/-! ### What is kept -/

/-- All that a section says: its description, and each flag with its name and its text. -/
def Section.content (s : Section) : Text :=
  s.description ++ s.flags.flatMap fun f => f.name ++ f.text

theorem squeeze_flagsAt {t : Text} {n : Nat} {ms : List FlagMark} (h : Laid t n ms) :
    squeeze ((flagsAt t ms).flatMap fun f => f.name ++ f.text) =
      squeeze (t.drop (nextStart t ms)) := by
  induction h with
  | nil _ =>
    show squeeze [] = squeeze (t.drop t.length)
    rw [List.drop_length]
  | @cons n m ms _ hlt hname h ih =>
    have hbehind : t.drop m.span.start = m.span.text t ++
        (Span.text t ⟨m.span.stop, nextStart t ms⟩ ++ t.drop (nextStart t ms)) := by
      have hnext := h.le_nextStart
      have hend := h.nextStart_le
      rw [← Span.text_to_end, ← Span.text_to_end,
        Span.text_split t (b := m.span.stop) (by omega) (by omega),
        Span.text_split t (a := m.span.stop) hnext hend]
    rw [flagsAt, List.flatMap_cons, nextStart, hbehind]
    simp only [squeeze_append, ih, squeeze_trim, ← hname, squeeze_squeeze, List.append_assoc]

/-- **Taking a section apart loses only blanks.** -/
theorem squeeze_content_ofText (t : Text) : squeeze (Section.ofText t).content = squeeze t := by
  rw [Section.ofText_eq, Section.content, squeeze_append, squeeze_flagsAt (laid_flagMarks t),
    ← squeeze_append, List.take_append_drop]

theorem squeeze_flatten_cutAtEmptyLines (t : Text) :
    squeeze (cutAtEmptyLines t).flatten = squeeze t := by
  fun_induction cutAtEmptyLines t with
  | case1 => rfl
  | case2 cs ih => exact ih
  | case3 c cs _ hnil _ => exact absurd hnil (cutAtEmptyLines_ne_nil cs)
  | case4 c cs _ piece pieces hcs ih =>
    rw [hcs] at ih
    rw [List.flatten_cons, List.cons_append, ← List.flatten_cons, squeeze, squeeze,
      List.filter_cons, List.filter_cons, ← squeeze, ← squeeze, ih]

/-- **Cutting into sections loses only blanks.** -/
theorem squeeze_flatten_sections {t : Text} {ss : List Text} (h : sections t = .ok ss) :
    squeeze ss.flatten = squeeze t := by
  unfold sections at h
  split at h
  · cases h
  · obtain rfl := Except.ok.inj h
    rw [List.flatten_filter_not_isEmpty, ← List.flatMap_def, squeeze_flatMap]
    simp only [squeeze_trim]
    rw [← squeeze_flatMap, List.flatMap_id', squeeze_flatten_cutAtEmptyLines]

/-! ### The whole text -/

/-- **Nothing of a comment's text is lost, doubled or moved.**  Each section is cut where its flags
stand, the descriptions and flags of a comment are those of its sections, and all of them one behind
the other are the text, but for blanks. -/
theorem partsOf_conserves {t : Text} (h : '\r' ∉ t) :
    ∃ ss : List Text, sections t = .ok ss ∧
      (∀ s ∈ ss, (Section.ofText s).CutFrom s) ∧
      partsOf t = .ok
        { descriptions :=
            (ss.map fun s => (Section.ofText s).description).filter fun d => !d.isEmpty
          flags := ss.flatMap fun s => (Section.ofText s).flags } ∧
      squeeze (ss.flatMap fun s => (Section.ofText s).content) = squeeze t := by
  have hsections : sections t =
      .ok (((cutAtEmptyLines t).map trim).filter fun s => !s.isEmpty) := by
    rw [sections, if_neg (by simpa using h)]
  refine ⟨_, hsections, ?_, ?_, ?_⟩
  · intro s hs
    obtain ⟨hs, -⟩ := List.mem_filter.mp hs
    obtain ⟨piece, -, rfl⟩ := List.mem_map.mp hs
    exact cutFrom_ofText fun c hc => isBlank_of_head?_trim hc
  · rw [partsOf, hsections]
    simp only [Except.map, List.map_map, List.flatMap_map]
    rfl
  · rw [squeeze_flatMap]
    simp only [squeeze_content_ofText]
    rw [← squeeze_flatMap, List.flatMap_id', squeeze_flatten_sections hsections]

/-- At signs inside a word, two flags on one line, and blanks in all places where they are
dropped. -/
def scattered : Text := " Mail a@b \n\n\n @see\t@a@b c@d\n@see e ".toList

theorem partsOf_conserves_scattered : '\r' ∉ scattered ∧
    ∃ ss : List Text, sections scattered = .ok ss ∧
      (∀ s ∈ ss, (Section.ofText s).CutFrom s) ∧
      squeeze (ss.flatMap fun s => (Section.ofText s).content) =
        "Maila@b@see@a@bc@d@seee".toList := by
  have h : '\r' ∉ scattered := by decide
  obtain ⟨ss, hsections, hcut, -, hkept⟩ := partsOf_conserves h
  exact ⟨h, ss, hsections, hcut, hkept.trans (by decide)⟩

end ScriptDocs.Comment
