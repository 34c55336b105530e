import ScriptDocs.Proofs.Comment.Longest
import ScriptDocs.Proofs.Flag.Described

/-!
# Names of parameters

The identifiers of a script are made of word characters and dollar signs, and so the search for
targets takes them.  The reader of a parameter knows word characters only.  An identifier with a
dollar sign further on is therefore cut in front of it, and what is cut off goes to the text.  One
that begins with a dollar sign is no name at all: the brace in front of it does not end the type,
and the parameter is read from a later brace, if there is one that has a name behind it.

* `Target.find?_identifier`: an identifier is found whole as a target.
* `splitAtBrace?_append`: a type does not end where no brace can end it.
* `Parameter.read_wordFirst`, `Parameter.read_dollarFirst_iff`: the two kinds of identifiers.
* `Parameter.read_identifier_iff`: the identifiers that are read whole are those without dollar
  signs.
-/

namespace ScriptDocs

open Text

/-! ### Identifiers -/

namespace Target

theorem chainLength_identifier {cs : Text} (h : ∀ c ∈ cs, isIdentifierChar c = true) :
    chainLength false cs = cs.length := by
  induction cs with
  | nil => rfl
  | cons c cs ih =>
    obtain ⟨hc, hcs⟩ := List.forall_mem_cons.mp h
    rw [chainLength, if_pos hc, ih hcs, List.length_cons]

theorem find?_identifier {n : Text} (hn : IsIdentifier n) : find? n 0 = some ⟨0, n.length⟩ := by
  obtain ⟨c, cs, rfl, hc, hcs⟩ := hn.exists_cons
  have hparen : c ≠ '(' := by
    rintro rfl
    revert hc
    decide
  refine find?_eq_some_iff.mpr ⟨[], c, cs, rfl, by simp, by simp [isStart, hc], ?_⟩
  rw [spanAt, if_neg hparen, chainLength_identifier hcs, List.length_cons, List.length_nil,
    Nat.add_comm 1]

theorem isWord_of_isIdentifierChar {c : Char} (h : isIdentifierChar c = true) (hc : c ≠ '$') :
    isWord c = true := by
  simpa [isIdentifierChar, hc] using h

theorem IsIdentifier.brace_notMem {n : Text} (h : IsIdentifier n) : '}' ∉ n := by
  intro hmem
  have hchar := h.2 '}' hmem
  revert hchar
  decide

end Target

/-! ### Where a type does not end -/

theorem splitAtBrace?_eq_some_iff {accepts : Text → Bool} {t a b : Text} :
    splitAtBrace? accepts t = some (a, b) ↔ t = a ++ '}' :: b ∧ ClosesAt accepts a b := by
  constructor
  · intro h
    exact closesAt_of_splitAtBrace? h
  · intro h
    rw [h.1]
    exact splitAtBrace?_of_closesAt h.2

/-- **A type goes on past the braces where it cannot end.** -/
theorem splitAtBrace?_append {accepts : Text → Bool} {front rest : Text}
    (h : ∀ u v, front = u ++ '}' :: v → accepts (v ++ rest) = false) :
    splitAtBrace? accepts (front ++ rest) =
      (splitAtBrace? accepts rest).map fun p => (front ++ p.1, p.2) := by
  induction front with
  | nil => simp
  | cons c front ih =>
    have hhere : ¬ (c = '}' && accepts (front ++ rest)) = true := by
      intro hc
      obtain ⟨hbrace, haccepts⟩ := Bool.and_eq_true_iff.mp hc
      rw [h [] front (by rw [of_decide_eq_true hbrace]; rfl)] at haccepts
      cases haccepts
    have hrest : ∀ u v, front = u ++ '}' :: v → accepts (v ++ rest) = false := by
      intro u v huv
      exact h (c :: u) v (by rw [huv]; rfl)
    rw [List.cons_append, splitAtBrace?, if_neg hhere, ih hrest, Option.map_map]
    rfl

/-- A text with one closing brace, cut at a closing brace. -/
theorem eq_of_append_brace {a b u v : Text} (ha : '}' ∉ a) (hb : '}' ∉ b)
    (h : a ++ '}' :: b = u ++ '}' :: v) : v = b := by
  rcases List.append_eq_append_iff.mp h with ⟨x, hu, hx⟩ | ⟨x, hu, hx⟩
  · cases x with
    | nil => exact (List.cons.inj hx).2.symm
    | cons c x =>
      obtain ⟨-, hx⟩ := List.cons.inj hx
      exact absurd (by rw [hx]; simp) hb
  · cases x with
    | nil => exact (List.cons.inj hx).2
    | cons c x =>
      obtain ⟨hc, -⟩ := List.cons.inj hx
      exact absurd (by rw [hu, ← hc]; simp) ha

theorem behindBrace?_braced (t rest : Text) :
    behindBrace? (braced t rest) = some (t ++ '}' :: ' ' :: rest) := by
  rw [behindBrace?, trimStart_braced]
  rfl

/-! ### The two kinds of identifiers -/

namespace Parameter

open Target

theorem trimStart_identifier {n : Text} (hn : IsIdentifier n) (rest : Text) :
    trimStart (n ++ rest) = n ++ rest := by
  apply trimStart_eq_self
  intro c hc
  rw [List.head?_append_of_ne_nil _ hn.1] at hc
  exact isBlank_of_isIdentifierChar (hn.2 c (List.mem_of_mem_head? hc))

/-- **A name is cut in front of its first dollar sign.** -/
theorem read_wordFirst {t n : Text} (d : Text) (ht : '}' ∉ t) (hn : IsIdentifier n)
    (hfirst : n.head? ≠ some '$') :
    Parameter.read (braced t (n ++ ' ' :: d)) =
      .ok ⟨n.takeWhile isWord, trim t, trim (n.dropWhile isWord ++ ' ' :: d)⟩ := by
  obtain ⟨c, cs, rfl, hc, -⟩ := hn.exists_cons
  have hword : isWord c = true := isWord_of_isIdentifierChar hc fun h => hfirst (by rw [h]; rfl)
  have hcloses : ClosesAt beginsName t (' ' :: ((c :: cs) ++ ' ' :: d)) := by
    refine ⟨beginsName_iff.mpr ⟨[' '], c, cs ++ ' ' :: d, rfl, by simp, ?_, hword⟩, ?_⟩
    · intro b hb
      rw [List.mem_singleton.mp hb]
      decide
    · intro u v huv
      exact absurd (by simp [huv]) ht
  have hspace : ∀ x, (' ' :: d).head? = some x → isWord x = false := by
    intro x hx
    rw [← Option.some.inj hx]
    decide
  refine read_eq_ok_iff.mpr ⟨t, _, trimStart_braced t _, hcloses, ?_⟩
  rw [trimStart_space, trimStart_identifier hn, takeWhile_append_of_head hspace,
    dropWhile_append_of_head hspace]

/-- **Behind a dollar sign there is no name**, and the type goes on into the text. -/
theorem read_dollarFirst_iff {t n : Text} (d : Text) (ht : '}' ∉ t) (hn : IsIdentifier n)
    (hfirst : n.head? = some '$') {p : Parameter} :
    Parameter.read (braced t (n ++ ' ' :: d)) = .ok p ↔
      ∃ u v, d = u ++ '}' :: v ∧ ClosesAt beginsName u v ∧
        p = ⟨(trimStart v).takeWhile isWord, trim (t ++ '}' :: ' ' :: (n ++ ' ' :: u)),
          trim ((trimStart v).dropWhile isWord)⟩ := by
  have hnone : beginsName (' ' :: (n ++ ' ' :: d)) = false := by
    obtain ⟨c, cs, rfl, -, -⟩ := hn.exists_cons
    obtain rfl := Option.some.inj hfirst
    have hdollar : isWord '$' = false := by decide
    rw [beginsName, trimStart_identifier hn, List.cons_append, List.head?_cons, Option.any_some,
      hdollar, Bool.and_false]
  -- the one brace in front of the text is the one behind which the dollar sign stands
  have hfront : ∀ u v, t ++ '}' :: (' ' :: (n ++ [' '])) = u ++ '}' :: v →
      beginsName (v ++ d) = false := by
    intro u v huv
    have hbrace : '}' ∉ ' ' :: (n ++ [' ']) := by
      simp [hn.brace_notMem]
    rw [eq_of_append_brace ht hbrace huv]
    simpa using hnone
  have hsplit : splitAtBrace? beginsName (t ++ '}' :: ' ' :: (n ++ ' ' :: d)) =
      (splitAtBrace? beginsName d).map fun p => (t ++ '}' :: ' ' :: (n ++ ' ' :: p.1), p.2) := by
    have happend := splitAtBrace?_append hfront
    simpa using happend
  rw [Parameter.read, behindBrace?_braced, Option.bind_some, hsplit]
  simp only [← and_assoc, ← splitAtBrace?_eq_some_iff]
  cases hd : splitAtBrace? beginsName d with
  | none => simp
  | some uv => simp [Prod.ext_iff, eq_comm]

theorem isWord_of_read {x : Text} {p : Parameter} (h : Parameter.read x = .ok p) :
    ∀ c ∈ p.name, isWord c = true := by
  obtain ⟨l, -, rfl⟩ := exists_layout h
  exact l.name_word

/-- **Identifiers without dollar signs are names.**  Every identifier is found whole as a target.
The reader of a parameter finds it exactly if no dollar sign is in it.  If it begins with another
character, its front is the name and the rest goes to the text.  If it begins with a dollar sign,
the parameter is read from the first brace in the text with a name behind it, with all in front of
that as its type, and cannot be read if there is none. -/
theorem read_identifier_iff {t n : Text} (d : Text) (ht : '}' ∉ t) (hn : IsIdentifier n) :
    find? n 0 = some ⟨0, n.length⟩ ∧
    (Parameter.read (braced t (n ++ ' ' :: d)) = .ok ⟨n, trim t, trim d⟩ ↔ '$' ∉ n) ∧
    (n.head? ≠ some '$' → Parameter.read (braced t (n ++ ' ' :: d)) =
      .ok ⟨n.takeWhile isWord, trim t, trim (n.dropWhile isWord ++ ' ' :: d)⟩) ∧
    (n.head? = some '$' → ∀ p, Parameter.read (braced t (n ++ ' ' :: d)) = .ok p ↔
      ∃ u v, d = u ++ '}' :: v ∧ ClosesAt beginsName u v ∧
        p = ⟨(trimStart v).takeWhile isWord, trim (t ++ '}' :: ' ' :: (n ++ ' ' :: u)),
          trim ((trimStart v).dropWhile isWord)⟩) := by
  refine ⟨find?_identifier hn, ?_, read_wordFirst d ht hn,
    fun hfirst p => read_dollarFirst_iff d ht hn hfirst⟩
  constructor
  · intro hread hmem
    have hdollar := isWord_of_read hread '$' hmem
    revert hdollar
    decide
  · intro hnone
    have hword : ∀ c ∈ n, isWord c = true := by
      intro c hc
      exact isWord_of_isIdentifierChar (hn.2 c hc) fun h => hnone (h ▸ hc)
    have hfirst : n.head? ≠ some '$' := fun h => hnone (List.mem_of_mem_head? h)
    rw [read_wordFirst d ht hn hfirst, List.takeWhile_eq_self_iff.mpr hword,
      List.dropWhile_eq_nil_iff.mpr hword, List.nil_append, trim_space]

theorem read_identifier_iff_dollars :
    '}' ∉ "Element".toList ∧ IsIdentifier "el$".toList ∧ IsIdentifier "$el".toList ∧
    Parameter.read (braced "Element".toList ("el$".toList ++ ' ' :: "It.".toList)) =
      .ok ⟨"el".toList, "Element".toList, "$ It.".toList⟩ ∧
    ∀ p, Parameter.read (braced "Element".toList ("$el".toList ++ ' ' :: "It.".toList)) ≠
      .ok p := by
  have htype : '}' ∉ "Element".toList := by decide
  have hback : IsIdentifier "el$".toList := ⟨by decide, List.all_eq_true.mp (by decide)⟩
  have hfront : IsIdentifier "$el".toList := ⟨by decide, List.all_eq_true.mp (by decide)⟩
  refine ⟨htype, hback, hfront, ?_, ?_⟩
  · rw [(read_identifier_iff "It.".toList htype hback).2.2.1 (by decide)]
    decide
  · intro p hread
    obtain ⟨u, v, htext, -⟩ :=
      ((read_identifier_iff "It.".toList htype hfront).2.2.2 (by decide) p).mp hread
    have hbrace : '}' ∈ "It.".toList := by
      rw [htext]
      simp
    revert hbrace
    decide

/-- **A dollar sign makes a name unreadable**, or cuts it.  The same identifiers are found whole as
targets. -/
theorem dollar_name_unread :
    find? "$el".toList 0 = some ⟨0, 3⟩ ∧ find? "a$b".toList 0 = some ⟨0, 3⟩ ∧
    Parameter.read (braced "Element".toList "$el The element.".toList) =
      .error (.unreadableFlag (braced "Element".toList "$el The element.".toList)) ∧
    Parameter.read (braced "Element".toList "a$b The element.".toList) =
      .ok ⟨"a".toList, "Element".toList, "$b The element.".toList⟩ := by
  exact ⟨by decide, by decide, by decide, by decide⟩

end Parameter

end ScriptDocs
