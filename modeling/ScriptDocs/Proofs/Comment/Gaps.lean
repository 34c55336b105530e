import ScriptDocs.Proofs.Comment.Section

/-!
# Sections and the gaps between them

`sections` cuts a text at every two line feeds, from the left.  A gap is a run of line feeds, two or
more of them and as many as stand there, and `CutAtGaps` cuts a text at its gaps.  The two cuts do
not give the same pieces: a long gap has empty ones in it, and an odd line feed at its end goes to
the piece behind it.  They give the same sections, for an empty piece is dropped, and a line feed in
front of a piece is trimmed away with the other blanks.

* `exists_cutAtGaps`, `CutAtGaps.unique`: every text can be cut at its gaps, in one way only.
* `kept_cutAtEmptyLines_newline`: a line feed in front of a text changes none of its sections.
* `CutAtGaps.kept_eq`: both cuts give the same sections.
* `cutAtGaps_intercalate`: joined sections are cut where they were joined.
* `sections_at_gaps`: the sections of a text are those between its gaps.
-/

namespace ScriptDocs.Comment

open Text

/-! ### Gaps -/

/-- A text cut at its gaps.  Between two pieces stand all the line feeds of a gap: the piece in
front does not end with one, and what is behind does not begin with one. -/
inductive CutAtGaps : Text → List Text → Prop
  | last {t : Text} (ht : ¬ ['\n', '\n'] <:+: t) : CutAtGaps t [t]
  | gap {piece rest : Text} {pieces : List Text} {n : Nat} (hpiece : ¬ ['\n', '\n'] <:+: piece)
      (hend : piece.getLast? ≠ some '\n') (hrest : rest.head? ≠ some '\n')
      (h : CutAtGaps rest pieces) :
      CutAtGaps (piece ++ (List.replicate (n + 2) '\n' ++ rest)) (piece :: pieces)

theorem not_infix_newline_iff {piece : Text} :
    ¬ ['\n', '\n'] <:+: piece ++ ['\n'] ↔
      ¬ ['\n', '\n'] <:+: piece ∧ piece.getLast? ≠ some '\n' := by
  constructor
  · intro h
    refine ⟨fun hi => h (hi.trans (List.prefix_append piece _).isInfix), fun hlast => h ?_⟩
    obtain ⟨front, rfl⟩ := List.getLast?_eq_some_iff.mp hlast
    exact ⟨front, [], by simp⟩
  · rintro ⟨hpiece, hend⟩ hi
    rcases pair_infix_append hi with hi | hi | ⟨hlast, -⟩
    · exact hpiece hi
    · exact absurd hi.length_le (by decide)
    · exact hend hlast

/-- In front of the first empty line a text has a piece without one. -/
theorem exists_firstGap {t : Text} (h : ['\n', '\n'] <:+: t) :
    ∃ piece rest, t = piece ++ '\n' :: '\n' :: rest ∧ ¬ ['\n', '\n'] <:+: piece ++ ['\n'] := by
  induction t with
  | nil => exact absurd h.length_le (by decide)
  | cons c cs ih =>
    by_cases hhere : ['\n', '\n'] <+: c :: cs
    · obtain ⟨rest, hrest⟩ := hhere
      exact ⟨[], rest, hrest.symm, fun hi => absurd hi.length_le (by decide)⟩
    · obtain ⟨piece, rest, rfl, hpiece⟩ :=
        ih ((List.infix_cons_iff.mp h).resolve_left hhere)
      refine ⟨c :: piece, rest, rfl, ?_⟩
      intro hi
      rcases List.infix_cons_iff.mp hi with hp | hi
      · -- the two line feeds would stand at the start of the whole text
        refine hhere (hp.trans ?_)
        rw [List.prefix_cons_inj]
        exact ⟨'\n' :: rest, by simp⟩
      · exact hpiece hi

theorem exists_newlines (t : Text) :
    ∃ n rest, t = List.replicate n '\n' ++ rest ∧ rest.head? ≠ some '\n' := by
  induction t with
  | nil => exact ⟨0, [], rfl, by simp⟩
  | cons c cs ih =>
    by_cases hc : c = '\n'
    · obtain ⟨n, rest, rfl, hrest⟩ := ih
      exact ⟨n + 1, rest, by rw [hc]; rfl, hrest⟩
    · exact ⟨0, c :: cs, rfl, by simpa using hc⟩

/-- **Every text can be cut at its gaps.** -/
theorem exists_cutAtGaps (t : Text) : ∃ pieces, CutAtGaps t pieces := by
  induction hn : t.length using Nat.strong_induction_on generalizing t with
  | _ n ih =>
    by_cases hgap : ['\n', '\n'] <:+: t
    · obtain ⟨piece, behind, rfl, hpiece⟩ := exists_firstGap hgap
      obtain ⟨hpiece, hend⟩ := not_infix_newline_iff.mp hpiece
      obtain ⟨k, rest, rfl, hrest⟩ := exists_newlines behind
      have hlt : rest.length < n := by
        rw [← hn]
        simp only [List.length_append, List.length_cons]
        omega
      obtain ⟨pieces, hpieces⟩ := ih _ hlt rest rfl
      exact ⟨piece :: pieces, .gap (n := k) hpiece hend hrest hpieces⟩
    · exact ⟨[t], .last hgap⟩

/-- The first piece between gaps is the first between empty lines, and the rest of the gap is left
to what is behind. -/
theorem cutAtEmptyLines_gap {piece : Text} (hpiece : ¬ ['\n', '\n'] <:+: piece)
    (hend : piece.getLast? ≠ some '\n') (n : Nat) (rest : Text) :
    cutAtEmptyLines (piece ++ (List.replicate (n + 2) '\n' ++ rest)) =
      piece :: cutAtEmptyLines (List.replicate n '\n' ++ rest) :=
  cutAtEmptyLines_append (not_infix_newline_iff.mpr ⟨hpiece, hend⟩) _

theorem newlines_inj {n k : Nat} {rest rest' : Text} (h : rest.head? ≠ some '\n')
    (h' : rest'.head? ≠ some '\n')
    (heq : List.replicate n '\n' ++ rest = List.replicate k '\n' ++ rest') : rest = rest' := by
  have hdrop : ∀ {m : Nat} {r : Text}, r.head? ≠ some '\n' →
      (List.replicate m '\n' ++ r).dropWhile (· = '\n') = r := by
    intro m r hr
    have hhead : ∀ c, r.head? = some c → decide (c = '\n') = false := by
      intro c hc
      rw [decide_eq_false_iff_not]
      rintro rfl
      exact hr hc
    rw [dropWhile_append_of_head hhead, List.dropWhile_replicate, if_pos (by decide),
      List.nil_append]
  rw [← hdrop h, heq, hdrop h']

theorem gap_isInfix (piece rest : Text) (n : Nat) :
    ['\n', '\n'] <:+: piece ++ (List.replicate (n + 2) '\n' ++ rest) :=
  ⟨piece, List.replicate n '\n' ++ rest, by simp [List.replicate_succ]⟩

/-- **A text is cut at its gaps in one way only.** -/
theorem CutAtGaps.unique {t : Text} {ps qs : List Text} (hp : CutAtGaps t ps)
    (hq : CutAtGaps t qs) : ps = qs := by
  induction hp generalizing qs with
  | last ht =>
    cases hq with
    | last _ => rfl
    | gap => exact absurd (gap_isInfix _ _ _) ht
  | @gap piece rest pieces n hpiece hend hrest _ ih =>
    generalize hs : piece ++ (List.replicate (n + 2) '\n' ++ rest) = s at hq
    cases hq with
    | last ht => exact absurd (hs ▸ gap_isInfix piece rest n) ht
    | @gap piece' rest' pieces' n' hpiece' hend' hrest' h' =>
      have hcut := cutAtEmptyLines_gap hpiece hend n rest
      rw [hs, cutAtEmptyLines_gap hpiece' hend'] at hcut
      obtain ⟨rfl, -⟩ := List.cons.inj hcut
      obtain rfl := newlines_inj hrest hrest' (List.append_cancel_left hs)
      rw [ih h']

theorem CutAtGaps.gapless {t : Text} {ps : List Text} (h : CutAtGaps t ps) :
    ∀ p ∈ ps, ¬ ['\n', '\n'] <:+: p := by
  induction h with
  | last ht =>
    intro p hp
    rwa [List.mem_singleton.mp hp]
  | gap hpiece _ _ _ ih =>
    intro p hp
    rcases List.mem_cons.mp hp with rfl | hp
    · exact hpiece
    · exact ih p hp

theorem CutAtGaps.isInfix {t : Text} {ps : List Text} (h : CutAtGaps t ps) :
    ∀ p ∈ ps, p <:+: t := by
  induction h with
  | last _ =>
    intro p hp
    obtain rfl := List.mem_singleton.mp hp
    exact List.infix_refl _
  | @gap piece rest pieces n _ _ _ _ ih =>
    intro p hp
    rcases List.mem_cons.mp hp with rfl | hp
    · exact (List.prefix_append _ _).isInfix
    · refine (ih p hp).trans (List.IsSuffix.isInfix ?_)
      rw [← List.append_assoc]
      exact List.suffix_append _ _

/-! ### What is kept of the pieces -/

/-- The sections that come of the pieces of a text: they are trimmed, and an empty one is
dropped. -/
def kept (pieces : List Text) : List Text := (pieces.map trim).filter fun s => !s.isEmpty

theorem sections_eq {t : Text} (h : '\r' ∉ t) : sections t = .ok (kept (cutAtEmptyLines t)) := by
  rw [sections, if_neg (by simpa using h), kept]

theorem mem_kept {s : Text} {pieces : List Text} :
    s ∈ kept pieces ↔ s ≠ [] ∧ ∃ p ∈ pieces, trim p = s := by
  rw [kept, List.mem_filter, List.mem_map, and_comm]
  simp

theorem kept_nil_cons (pieces : List Text) : kept ([] :: pieces) = kept pieces := rfl

theorem kept_cons_congr {p : Text} {ps qs : List Text} (h : kept ps = kept qs) :
    kept (p :: ps) = kept (p :: qs) := by
  unfold kept at h ⊢
  rw [List.map_cons, List.map_cons, List.filter_cons, List.filter_cons, h]

/-- A blank in front of the first piece is trimmed away. -/
theorem kept_modifyHead {c : Char} (hc : isBlank c = true) (pieces : List Text) :
    kept (pieces.modifyHead (c :: ·)) = kept pieces := by
  cases pieces with
  | nil => rfl
  | cons p ps =>
    rw [List.modifyHead_cons, kept, List.map_cons, trim_cons_of_blank hc, ← List.map_cons, ← kept]

/-- **A line feed in front of a text changes none of its sections.**  The induction is along the
line feeds that follow it: two of them cut off an empty piece, and a single one is a blank in front
of the first. -/
theorem kept_cutAtEmptyLines_newline (t : Text) :
    kept (cutAtEmptyLines ('\n' :: t)) = kept (cutAtEmptyLines t) := by
  induction t with
  | nil => rfl
  | cons c cs ih =>
    by_cases hc : c = '\n'
    · rw [hc, cutAtEmptyLines, kept_nil_cons, ih]
    · have hsingle : ¬ ['\n', '\n'] <+: '\n' :: c :: cs := by
        rintro ⟨rest, hrest⟩
        simp only [List.cons_append, List.cons.injEq] at hrest
        exact hc hrest.2.1.symm
      rw [cutAtEmptyLines_cons hsingle, kept_modifyHead (by decide)]

theorem kept_cutAtEmptyLines_newlines (n : Nat) (t : Text) :
    kept (cutAtEmptyLines (List.replicate n '\n' ++ t)) = kept (cutAtEmptyLines t) := by
  induction n with
  | zero => rfl
  | succ n ih => rw [List.replicate_succ, List.cons_append, kept_cutAtEmptyLines_newline, ih]

/-- **Both cuts give the same sections.** -/
theorem CutAtGaps.kept_eq {t : Text} {ps : List Text} (h : CutAtGaps t ps) :
    kept (cutAtEmptyLines t) = kept ps := by
  induction h with
  | last ht =>
    have hone := cutAtEmptyLines_of_not_infix ht
    rw [hone]
  | gap hpiece hend _ _ ih =>
    rw [cutAtEmptyLines_gap hpiece hend]
    refine kept_cons_congr ?_
    rw [kept_cutAtEmptyLines_newlines, ih]

/-! ### Sections joined again -/

/-- What a section is: a text that is not empty, without blanks at its ends and without a gap. -/
structure IsSection (s : Text) : Prop where
  ne_nil : s ≠ []
  trimmed : trim s = s
  no_gap : ¬ ['\n', '\n'] <:+: s

theorem IsSection.head?_ne {s : Text} (h : IsSection s) : s.head? ≠ some '\n' := by
  intro hhead
  rw [← h.trimmed] at hhead
  exact absurd (isBlank_of_head?_trim hhead) (by decide)

theorem IsSection.getLast?_ne {s : Text} (h : IsSection s) : s.getLast? ≠ some '\n' := by
  intro hlast
  rw [← h.trimmed] at hlast
  exact absurd (isBlank_of_getLast?_trim hlast) (by decide)

theorem CutAtGaps.isSection {t : Text} {ps : List Text} (h : CutAtGaps t ps) :
    ∀ s ∈ kept ps, IsSection s := by
  intro s hs
  obtain ⟨hne, p, hp, rfl⟩ := mem_kept.mp hs
  exact ⟨hne, trim_trim p, fun hi => h.gapless p hp (hi.trans (isInfix_trim p))⟩

theorem kept_eq_self {ss : List Text} (h : ∀ s ∈ ss, IsSection s) : kept ss = ss := by
  have hmap : ss.map trim = ss := by
    rw [List.map_congr_left fun s hs => (h s hs).trimmed, List.map_id']
  rw [kept, hmap, List.filter_eq_self]
  intro s hs
  simpa using (h s hs).ne_nil

theorem head?_intercalate {s : Text} (hne : s ≠ []) (sep : Text) (ss : List Text) :
    (List.intercalate sep (s :: ss)).head? = s.head? := by
  cases ss with
  | nil => rw [List.intercalate_singleton]
  | cons s' ss =>
    rw [List.intercalate_cons_cons, List.append_assoc, List.head?_append_of_ne_nil _ hne]

theorem notMem_intercalate {c : Char} {sep : Text} {ss : List Text} (hsep : c ∉ sep)
    (h : ∀ s ∈ ss, c ∉ s) : c ∉ List.intercalate sep ss := by
  induction ss with
  | nil => exact List.not_mem_nil
  | cons s ss ih =>
    obtain ⟨hs, hss⟩ := List.forall_mem_cons.mp h
    cases ss with
    | nil => rwa [List.intercalate_singleton]
    | cons s' ss =>
      rw [List.intercalate_cons_cons, List.mem_append, List.mem_append]
      rintro ((hc | hc) | hc)
      · exact hs hc
      · exact hsep hc
      · exact ih hss hc

/-- **Joined sections are cut where they were joined.** -/
theorem cutAtGaps_intercalate {ss : List Text} (hne : ss ≠ []) (h : ∀ s ∈ ss, IsSection s) :
    CutAtGaps (List.intercalate ['\n', '\n'] ss) ss := by
  induction ss with
  | nil => exact absurd rfl hne
  | cons s ss ih =>
    obtain ⟨hs, hss⟩ := List.forall_mem_cons.mp h
    cases ss with
    | nil =>
      rw [List.intercalate_singleton]
      exact .last hs.no_gap
    | cons s' ss =>
      have hs' := hss s' List.mem_cons_self
      rw [List.intercalate_cons_cons, List.append_assoc]
      refine .gap (n := 0) hs.no_gap hs.getLast?_ne ?_ (ih (by simp) hss)
      rw [head?_intercalate hs'.ne_nil]
      exact hs'.head?_ne

theorem sections_intercalate {ss : List Text} (hreturn : ∀ s ∈ ss, '\r' ∉ s)
    (h : ∀ s ∈ ss, IsSection s) : sections (List.intercalate ['\n', '\n'] ss) = .ok ss := by
  rw [sections_eq (notMem_intercalate (by decide) hreturn)]
  by_cases hne : ss = []
  · rw [hne]
    rfl
  · rw [(cutAtGaps_intercalate hne h).kept_eq, kept_eq_self h]

/-- **The sections of a text are what stands between its gaps.**  The text can be cut at its gaps in
one way, and the pieces, trimmed and without the empty ones, are its sections.  No section has a gap
in it, and the sections, joined by gaps of two line feeds, are the sections of the joined text. -/
theorem sections_at_gaps {t : Text} (h : '\r' ∉ t) :
    ∃ pieces, (∀ other, CutAtGaps t other ↔ other = pieces) ∧
      sections t = .ok (kept pieces) ∧
      (∀ s ∈ kept pieces, ¬ ['\n', '\n'] <:+: s) ∧
      sections (List.intercalate ['\n', '\n'] (kept pieces)) = .ok (kept pieces) := by
  obtain ⟨pieces, hpieces⟩ := exists_cutAtGaps t
  refine ⟨pieces, ?_, ?_, fun s hs => (hpieces.isSection s hs).no_gap, ?_⟩
  · intro other
    constructor
    · intro hother
      exact hother.unique hpieces
    · rintro rfl
      exact hpieces
  · rw [sections_eq h, hpieces.kept_eq]
  · refine sections_intercalate ?_ hpieces.isSection
    intro s hs hreturn
    obtain ⟨-, p, hp, rfl⟩ := mem_kept.mp hs
    exact h ((hpieces.isInfix p hp).subset ((isInfix_trim p).subset hreturn))

/-- Gaps of three, two and five line feeds, the first at the start, and only blanks between the
last two. -/
def gapped : Text := "\n\n\n a\nb \n\n\t \n\n\n\n\nc".toList

theorem sections_at_gaps_gapped : '\r' ∉ gapped ∧
    ∃ pieces, (∀ other, CutAtGaps gapped other ↔ other = pieces) ∧
      kept pieces = ["a\nb".toList, "c".toList] ∧
      (∀ s ∈ kept pieces, ¬ ['\n', '\n'] <:+: s) ∧
      sections "a\nb\n\nc".toList = .ok (kept pieces) := by
  have h : '\r' ∉ gapped := by decide
  obtain ⟨pieces, hpieces, hsections, hgap, hjoined⟩ := sections_at_gaps h
  have hkept : kept pieces = ["a\nb".toList, "c".toList] := by
    have hread : sections gapped = .ok ["a\nb".toList, "c".toList] := rfl
    exact Except.ok.inj (hsections.symm.trans hread)
  refine ⟨h, pieces, hpieces, hkept, hgap, ?_⟩
  have hjoin : List.intercalate ['\n', '\n'] (kept pieces) = "a\nb\n\nc".toList := by
    rw [hkept]
    rfl
  rwa [hjoin] at hjoined

end ScriptDocs.Comment
