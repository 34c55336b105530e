import ScriptDocs.Proofs.Comment.Standing
import ScriptDocs.Proofs.Source

/-!
# Comments about files

Two readers look for the flag of a file.  `Target.isFileComment` searches the comment as it stands
in the script, and sets it aside; `Comment.partsOf` finds flags in the text inside, for the symbol
that the comment documents.  The first finds whatever the second does (`isFileComment_of_flag`), so
no symbol ever has the flag (`fileFlag_set_aside`).
-/

namespace ScriptDocs

/-! ### The search in a comment -/

namespace Target

theorem isFileComment_iff {t : Text} :
    isFileComment t = true ↔ Text.StandsIn "@fileoverview".toList t := by
  induction t with
  | nil =>
    rw [isFileComment]
    constructor
    · intro h
      cases h
    · rintro ⟨front, behind, h, -⟩
      exact absurd (List.append_eq_nil_iff.mp h.symm).2 (by simp)
  | cons c cs ih =>
    rw [isFileComment, Bool.or_eq_true, ih, Text.standsIn_cons_iff]
    apply or_congr_left
    simp only [eq_comm (a := c :: cs), ← List.isPrefixOf?_eq_some_iff_append_eq]
    generalize "@fileoverview".toList.isPrefixOf? (c :: cs) = rest?
    rcases rest? with _ | _ | ⟨d, ds⟩
    · simp
    · simp
    · simp

/-- A comment that has a target is not about its file. -/
theorem isFileComment_of_mem_pairsOf {script : Text} {cs : List Span} {c t : Span}
    (h : (c, some t) ∈ (pairsOf script cs).items) : isFileComment (c.text script) = false := by
  have hnone := (pairAt_eq_ok (pairAt_of_mem_pairsOf h)).2.1
  rw [← Bool.not_eq_true, ← hnone]
  simp

end Target

/-! ### The two readers -/

namespace Comment

/-- **The search in the comment finds whatever the reader of flags does.** -/
theorem isFileComment_of_flag {comment text : Text} {parts : Parts} {f : Flag}
    (htext : interior comment = .ok text) (hparts : partsOf text = .ok parts)
    (hf : f ∈ parts.flags) (hname : f.name = "@fileoverview".toList) :
    Target.isFileComment comment = true := by
  have hblank : ∀ c ∈ "@fileoverview".toList, isBlank c = false := by
    intro c hc
    have hall := List.all_eq_true.mp (show "@fileoverview".toList.all (!isBlank ·) = true by decide)
    simpa using hall c hc
  have hstands := standsIn_of_mem_flags hparts hf
  rw [hname] at hstands
  exact Target.isFileComment_iff.mpr (standsIn_of_interior hblank htext hstands)

theorem flags_of_ofText {text : Text} {start stop : Int} {c : Comment}
    (h : ofText text start stop = .ok c) :
    ∃ parts, partsOf text = .ok parts ∧ ∀ f ∈ c.flags, f ∈ parts.flags := by
  obtain ⟨parts, hparts, h⟩ := bind_eq_ok_iff.mp h
  obtain ⟨flags, hflags, h⟩ := bind_eq_ok_iff.mp h
  obtain rfl := Except.ok.inj h
  refine ⟨parts, hparts, ?_⟩
  intro f hf
  obtain ⟨g, hg, hchecked⟩ := (mem_of_mapM hflags).mp hf
  unfold Flag.checked at hchecked
  split at hchecked
  · rwa [← Except.ok.inj hchecked]
  · cases hchecked

end Comment

namespace Source

/-- **A comment with the flag of a file is set aside** before any symbol is made of it.  Whatever
flags a comment's text has, if one of them is that of a file, the search in the comment has found
it; then the comment has no target, and the comments of symbols do not have the flag. -/
theorem fileFlag_set_aside (script : Text) (provided : List Text) :
    (∀ comment text parts, Comment.interior comment = .ok text → Comment.partsOf text = .ok parts →
      (∃ f ∈ parts.flags, f.name = "@fileoverview".toList) →
        Target.isFileComment comment = true) ∧
    (∀ span target?, (span, target?) ∈ (Target.pairs script).items →
      Target.isFileComment (span.text script) = true → target? = none) ∧
    ∀ s ∈ foundSymbols script provided, ∀ c, s.comment? = some c →
      c.has "@fileoverview".toList = false := by
  refine ⟨?_, ?_, ?_⟩
  · rintro comment text parts htext hparts ⟨f, hf, hname⟩
    exact Comment.isFileComment_of_flag htext hparts hf hname
  · intro span target? hpair hfile
    cases target? with
    | none => rfl
    | some target =>
      rw [Target.isFileComment_of_mem_pairsOf hpair] at hfile
      cases hfile
  · intro s hs c hc
    obtain ⟨xs, hpre, he⟩ := exists_prefix_foundSymbols script provided
    rw [he] at hs
    obtain ⟨⟨span, target?⟩, hx, hsymbol⟩ := List.mem_filterMap.mp hs
    obtain ⟨target, text, comment, rfl, htext, hcomment, -, -, -, hdoc⟩ :=
      finding_eq_documented (symbolAt?_eq_some hsymbol)
    obtain ⟨owner, -, rfl⟩ := document_eq_ok hdoc
    obtain rfl : comment = c := Option.some.inj hc
    obtain ⟨parts, hparts, hflags⟩ := Comment.flags_of_ofText hcomment
    rw [Comment.has, List.any_eq_false]
    intro f hf hname
    have hfile := Comment.isFileComment_of_flag htext hparts (hflags f hf) (of_decide_eq_true hname)
    rw [Target.isFileComment_of_mem_pairsOf (hpre.subset hx)] at hfile
    cases hfile

example : ((Target.pairs "/** @fileoverview F. */ /** @private */ a.b".toList).items.map fun p =>
    p.2.isSome) = [false, true] := by decide

end Source

end ScriptDocs
