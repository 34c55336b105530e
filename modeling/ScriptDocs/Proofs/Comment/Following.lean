import ScriptDocs.Proofs.Source

/-!
# Targets and the comments that follow

The search for a target begins where its comment ends and knows nothing of the comments that come
later.  So a target stands where the first character stands that can begin one
(`start_lt_iff_offers`), and that may be in front of the next comment, inside it, or behind it.
Since comments begin and end with a slash, and no target has one in it, a target never reaches
across an end of a comment.

* `stop_le_start_iff`, `inside_iff`, `stop_le_iff`: the three places, each by what stands between
  the comments and in the second of them.
* `eq_iff_stop_le`: two comments share a target exactly if the first has its target behind the
  second.
* `pairwise_target_places`: all comments of a script.
* `target_inside_comment`: a target need not stand in front of the next comment.
-/

namespace ScriptDocs.Target

/-- Whether a target can begin somewhere in the text. -/
def Offers (t : Text) : Prop := ∃ c ∈ t, isStart c = true

instance (t : Text) : Decidable (Offers t) :=
  decidable_of_iff (t.any isStart = true) (by simp [Offers])

/-! ### Where a target begins -/

theorem start_lt_stop_of_find? {script : Text} {pos : Nat} {t : Span}
    (h : find? script pos = some t) : t.start < t.stop := by
  obtain ⟨gap, c, cs, -, -, -, rfl⟩ := find?_eq_some_iff.mp h
  unfold spanAt
  split
  · show pos + gap.length < pos + gap.length + 1
    omega
  · show pos + gap.length < pos + gap.length + 1 + chainLength false cs
    omega

/-- **A target begins in front of a position** exactly if something up to there can begin one. -/
theorem start_lt_iff_offers {script : Text} {pos : Nat} {t : Span}
    (h : find? script pos = some t) (n : Nat) :
    t.start < n ↔ Offers (Span.text script ⟨pos, n⟩) := by
  obtain ⟨gap, c, cs, hdrop, hgap, hc, rfl⟩ := find?_eq_some_iff.mp h
  have htext : Span.text script ⟨pos, n⟩ = (gap ++ c :: cs).take (n - pos) := by
    rw [← hdrop]
    rfl
  rw [spanAt_start, htext]
  constructor
  · intro hlt
    refine ⟨c, ?_, hc⟩
    obtain ⟨k, hk⟩ : ∃ k, n - pos = gap.length + (k + 1) := ⟨n - pos - gap.length - 1, by omega⟩
    rw [hk, List.take_length_add_append]
    simp
  · rintro ⟨d, hd, hstart⟩
    by_contra hge
    -- the text ends in front of the target, where nothing can begin one
    rw [List.take_append_of_le_length (by omega)] at hd
    rw [hgap d (List.mem_of_mem_take hd)] at hstart
    exact absurd hstart (by simp)

theorem offers_append {a b : Text} : Offers (a ++ b) ↔ Offers a ∨ Offers b := by
  simp only [Offers, List.mem_append, or_and_right, exists_or]

/-! ### The next comment -/

section

variable {script : Text} {pos : Nat} {b t : Span}

theorem stop_le_start_iff (hb : Comment.IsComment script b) (h : find? script pos = some t) :
    t.stop ≤ b.start ↔ Offers (Span.text script ⟨pos, b.start⟩) := by
  have hlt := start_lt_stop_of_find? h
  rw [← start_lt_iff_offers h]
  constructor
  · intro hle
    omega
  · intro hle
    exact stop_le_of_slash h hb.getElem?_start (by omega)

theorem stop_le_iff (hb : Comment.IsComment script b) (hpos : pos ≤ b.start)
    (h : find? script pos = some t) :
    b.stop ≤ t.start ↔
      ¬ Offers (Span.text script ⟨pos, b.start⟩) ∧ ¬ Offers (b.text script) := by
  have hlong := hb.long
  have hsplit : Span.text script ⟨pos, b.stop⟩ =
      Span.text script ⟨pos, b.start⟩ ++ b.text script :=
    Span.text_split script hpos (by omega)
  rw [← not_or, ← offers_append, ← hsplit, ← start_lt_iff_offers h]
  omega

theorem inside_iff (hb : Comment.IsComment script b) (hpos : pos ≤ b.start)
    (h : find? script pos = some t) :
    (b.start < t.start ∧ t.stop < b.stop) ↔
      ¬ Offers (Span.text script ⟨pos, b.start⟩) ∧ Offers (b.text script) := by
  have hlong := hb.long
  have hlt := start_lt_stop_of_find? h
  have hfront := stop_le_start_iff hb h
  have hbehind := stop_le_iff hb hpos h
  constructor
  · rintro ⟨hstart, hstop⟩
    have hno : ¬ Offers (Span.text script ⟨pos, b.start⟩) := by
      intro ho
      have := hfront.mpr ho
      omega
    refine ⟨hno, ?_⟩
    by_contra hnone
    have := hbehind.mpr ⟨hno, hnone⟩
    omega
  · rintro ⟨hno, ho⟩
    have hstart : ¬ b.stop ≤ t.start := fun hle => (hbehind.mp hle).2 ho
    have hstop : t.stop ≤ b.stop - 1 := stop_le_of_slash h hb.getElem?_stop (by omega)
    -- a target at the first slash of the comment, or in front of it, would end there
    have hnot : ¬ t.start ≤ b.start :=
      fun hle => hno (hfront.mp (stop_le_of_slash h hb.getElem?_start hle))
    omega

theorem eq_iff_stop_le {t' : Span} (hb : Comment.IsComment script b) (hpos : pos ≤ b.start)
    (h : find? script pos = some t) (h' : find? script b.stop = some t') :
    t = t' ↔ b.stop ≤ t.start := by
  have hlong := hb.long
  constructor
  · rintro rfl
    exact start_le_of_find? h'
  · intro hstart
    have hsame := find?_of_le h (by omega) hstart
    rw [h'] at hsame
    exact (Option.some.inj hsame).symm

end

/-! ### All comments of a script -/

/-- **Where targets stand.**  A target stands behind its own comment.  With regard to a comment that
comes later it stands in front of it exactly if a target can begin between the two, inside it if
nothing between the two but something in the comment can begin one, and behind it otherwise.  In
this last case, and in no other, the two comments share the target. -/
theorem pairwise_target_places (script : Text) :
    (pairs script).items.Pairwise fun x y => ∀ t, x.2 = some t →
      x.1.stop ≤ t.start ∧
      (t.stop ≤ y.1.start ↔ Offers (Span.text script ⟨x.1.stop, y.1.start⟩)) ∧
      ((y.1.start < t.start ∧ t.stop < y.1.stop) ↔
        ¬ Offers (Span.text script ⟨x.1.stop, y.1.start⟩) ∧ Offers (y.1.text script)) ∧
      (y.1.stop ≤ t.start ↔
        ¬ Offers (Span.text script ⟨x.1.stop, y.1.start⟩) ∧ ¬ Offers (y.1.text script)) ∧
      ∀ t', y.2 = some t' → (t = t' ↔ y.1.stop ≤ t.start) := by
  refine (pairwise_pairs script).imp_of_mem ?_
  rintro ⟨c, t?⟩ ⟨c', t'?⟩ hx hy ⟨hle, -⟩ t rfl
  have hfind := find?_of_mem_pairsOf hx
  have hcomment := Comment.isComment_of_mem_spans (mem_spans_of_mem_pairs hy)
  refine ⟨start_le_of_find? hfind, stop_le_start_iff hcomment hfind,
    inside_iff hcomment hle hfind, stop_le_iff hcomment hle hfind, ?_⟩
  rintro t' rfl
  exact eq_iff_stop_le hcomment hle hfind (find?_of_mem_pairsOf hy)

/-- Of two comments with nothing between them, the first has its target in the text of the second,
or shares the second one's target. -/
theorem target_inside_comment :
    (∃ c t c' t', (pairs "/** a */ /** b */ x".toList).items = [(c, some t), (c', some t')] ∧
      ¬ t.stop ≤ c'.start ∧ c'.start < t.start ∧ t.stop < c'.stop) ∧
    ∃ c t c', (pairs "/** */ /** */ x".toList).items = [(c, some t), (c', some t)] ∧
      ¬ t.stop ≤ c'.start := by
  exact ⟨⟨⟨0, 8⟩, ⟨13, 14⟩, ⟨9, 17⟩, ⟨18, 19⟩, by decide⟩,
    ⟨⟨0, 6⟩, ⟨14, 15⟩, ⟨7, 13⟩, by decide⟩⟩

end ScriptDocs.Target
