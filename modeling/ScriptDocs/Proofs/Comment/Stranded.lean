import ScriptDocs.Proofs.Source.FileComment

/-!
# Comments without a target

Looking for targets stops at the first comment that is not about its file and has nothing behind it
that can be a target.  Such a comment is stranded.  A script whose text behind a comment offers no
target has no word there either, and so no flag of a file: from the first stranded comment on all
are stranded, and the last one decides.

* `Stranded`, `Paired`: the two things that can become of a comment.
* `pairsOf_upToStranded`: the comments are taken one by one, up to the first that is stranded.
* `Stranded.later`: comments behind a stranded one are stranded.
* `pairs_stop_iff_last`: when looking for targets stops, and what was found up to there.
-/

namespace ScriptDocs.Target

open Text

variable {script : Text}

/-! ### One comment -/

/-- A comment that is not about its file, and behind which nothing can begin a target. -/
structure Stranded (script : Text) (c : Span) : Prop where
  own : ¬ StandsIn "@fileoverview".toList (c.text script)
  alone : ∀ d ∈ script.drop c.stop, isStart d = false

/-- A comment with the target behind it, or, if it is about its file, without one. -/
structure Paired (script : Text) (x : Span × Option Span) : Prop where
  none_iff : x.2 = none ↔ StandsIn "@fileoverview".toList (x.1.text script)
  find : ∀ t, x.2 = some t → find? script x.1.stop = some t

theorem stranded_iff {c : Span} :
    Stranded script c ↔ isFileComment (c.text script) = false ∧ find? script c.stop = none := by
  rw [find?_eq_none_iff, ← Bool.not_eq_true, isFileComment_iff]
  constructor
  · rintro ⟨hown, halone⟩
    exact ⟨hown, halone⟩
  · rintro ⟨hown, halone⟩
    exact ⟨hown, halone⟩

theorem paired_of_pairAt {c : Span} {x : Span × Option Span} (h : pairAt script c = .ok x) :
    Paired script x := by
  obtain ⟨rfl, hnone, hfind⟩ := pairAt_eq_ok h
  exact ⟨hnone.trans isFileComment_iff, hfind⟩

/-- **A comment is stranded exactly if it becomes a fault.** -/
theorem stranded_iff_pairAt {c : Span} :
    Stranded script c ↔ pairAt script c = .error (.noTarget (c.text script)) := by
  rw [stranded_iff]
  constructor
  · rintro ⟨hown, hfind⟩
    simp [pairAt, hown, hfind]
  · intro h
    obtain ⟨hown, hfind, -⟩ := pairAt_eq_error h
    exact ⟨hown, hfind⟩

/-! ### One comment after the other -/

/-- **The pairs are those of the comments in front of the first stranded one.** -/
theorem pairsOf_upToStranded (script : Text) (cs : List Span) :
    ∃ front rest, cs = front ++ rest ∧ (pairsOf script cs).items.map Prod.fst = front ∧
      (∀ a ∈ front, ¬ Stranded script a) ∧
      ((rest = [] ∧ (pairsOf script cs).fault? = none) ∨
        ∃ c behind, rest = c :: behind ∧ Stranded script c ∧
          (pairsOf script cs).fault? = some (.noTarget (c.text script))) := by
  have hup := upToFault_pairsOf script cs
  generalize pairsOf script cs = p at hup ⊢
  obtain ⟨front, rest, hcs, hfront, hrest⟩ := hup
  refine ⟨front, rest, hcs, ?_, ?_, ?_⟩
  · rw [Produced.map_eq_of_map_ok (fun _ _ hok => (pairAt_eq_ok hok).1) hfront, List.map_id']
  · intro a ha hstranded
    have hmem : pairAt script a ∈ p.items.map Except.ok := hfront ▸ List.mem_map_of_mem ha
    obtain ⟨x, -, hok⟩ := List.mem_map.mp hmem
    rw [stranded_iff_pairAt.mp hstranded] at hok
    cases hok
  · rcases hrest with hdone | ⟨c, behind, f, hrest, herror, hfault⟩
    · exact Or.inl hdone
    · obtain ⟨-, -, rfl⟩ := pairAt_eq_error herror
      exact Or.inr ⟨c, behind, hrest, stranded_iff_pairAt.mpr herror, hfault⟩

/-! ### All comments of a script -/

/-- **Comments behind a stranded one are stranded.**  The flag of a file is a word, and where a
stranded comment ends there are no words left. -/
theorem Stranded.later {b c : Span} (h : Stranded script c) (hb : Comment.IsComment script b)
    (hle : c.stop ≤ b.start) : Stranded script b := by
  have hlong := hb.long
  have hnone : ∀ n, c.stop ≤ n → ∀ d ∈ script.drop n, isStart d = false := by
    intro n hn d hd
    rw [← Nat.add_sub_cancel' hn, ← List.drop_drop] at hd
    exact h.alone d (List.mem_of_mem_drop hd)
  refine ⟨?_, hnone b.stop (by omega)⟩
  rintro ⟨front, behind, htext, -⟩
  have hmem : 'f' ∈ b.text script := by
    rw [htext]
    simp
  have hstart := hnone b.start hle 'f' (List.mem_of_mem_take hmem)
  exact absurd hstart (by decide)

theorem Stranded.of_spans {front behind : List Span} {c : Span} (h : Stranded script c)
    (hspans : Comment.spans script = front ++ c :: behind) : ∀ b ∈ behind, Stranded script b := by
  intro b hb
  have hpairwise := Comment.pairwise_spans script
  rw [hspans, List.pairwise_append, List.pairwise_cons] at hpairwise
  refine h.later (Comment.isComment_of_mem_spans ?_) (hpairwise.2.1.1 b hb)
  rw [hspans]
  simp [hb]

/-- **The last comment decides.**  Looking for targets stops exactly if the last comment of the
script is stranded.  Then the pairs are those of the comments in front of the first stranded one,
and all behind it are stranded, too, so none of them is about its file.  Otherwise every comment is
in a pair.  The comments in pairs without a target are those about their file. -/
theorem pairs_stop_iff_last (script : Text) :
    ((∃ comment, (pairs script).fault? = some (.noTarget comment)) ↔
      ∃ c, (Comment.spans script).getLast? = some c ∧ Stranded script c) ∧
    (∀ f, (pairs script).fault? = some f → ∃ front c behind,
      Comment.spans script = front ++ c :: behind ∧ (∀ a ∈ front, ¬ Stranded script a) ∧
      Stranded script c ∧ f = .noTarget (c.text script) ∧
      (pairs script).items.map Prod.fst = front ∧ ∀ b ∈ behind, Stranded script b) ∧
    ((pairs script).fault? = none →
      (pairs script).items.map Prod.fst = Comment.spans script) ∧
    ∀ x ∈ (pairs script).items, Paired script x := by
  have hpaired : ∀ x ∈ (pairs script).items, Paired script x :=
    fun _ hx => paired_of_pairAt (pairAt_of_mem_pairsOf hx)
  obtain ⟨front, rest, hspans, hfst, hfront, hrest⟩ :=
    pairsOf_upToStranded script (Comment.spans script)
  rw [← pairs] at hfst hrest
  rcases hrest with ⟨rfl, hfault⟩ | ⟨c, behind, rfl, hstranded, hfault⟩
  · rw [List.append_nil] at hspans
    rw [hfault, hspans]
    refine ⟨iff_of_false (by simp) ?_, by simp, fun _ => hfst, hpaired⟩
    rintro ⟨c, hlast, hstranded⟩
    exact hfront c (List.mem_of_getLast? hlast) hstranded
  · have hbehind := hstranded.of_spans hspans
    refine ⟨iff_of_true ⟨_, hfault⟩ ?_, ?_, by simp [hfault], hpaired⟩
    · obtain ⟨last, hlast⟩ : ∃ last, (c :: behind).getLast? = some last :=
        ⟨_, List.getLast?_eq_some_getLast (List.cons_ne_nil c behind)⟩
      refine ⟨last, ?_, ?_⟩
      · rw [hspans, List.getLast?_append, hlast]
        rfl
      · rcases List.mem_cons.mp (List.mem_of_getLast? hlast) with rfl | hmem
        · exact hstranded
        · exact hbehind last hmem
    · intro f hf
      obtain rfl := Option.some.inj (hfault.symm.trans hf)
      exact ⟨front, c, behind, hspans, hfront, hstranded, rfl, hfst, hbehind⟩

example : ((pairs "/** F. */ f /** G. */ /***/".toList).items.map Prod.fst,
    (pairs "/** F. */ f /** G. */ /***/".toList).fault?) =
      ([⟨0, 9⟩], some (.noTarget "/** G. */".toList)) := by decide

end ScriptDocs.Target
