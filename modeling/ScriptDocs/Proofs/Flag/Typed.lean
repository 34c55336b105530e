import Mathlib.Data.List.Infix
import ScriptDocs.Flag.Typed
import ScriptDocs.Proofs.Text

/-!
# Where a type ends

A type stands in braces, and may have braces of its own.  But none of its readers counts braces:
that of a parameter ends the type at the first closing brace with a name behind it, those of a
return value and of other flags at the first closing brace.  So a type that has braces is cut short
by the last two, and by the first only if one of its own braces has a name behind it.

* `ClosesAt`: the first closing brace where a type can end (`typeIn_eq_some_iff`).
* `Parameter.read_eq_ok_iff`, `Returned.read_eq_ok_iff`, `type?_eq_some_iff`: what the readers
  accept, and what they make of it.
* `Balanced`: braces that are closed in order.
* `type_read_whole_iff`: the balanced types that are read whole, for all three readers.
* `record_type_cut`: a record type, which two of them cut short.
-/

namespace ScriptDocs

open Text

/-! ### The closing brace -/

/-- Of the closing braces in `a ++ '}' :: b`, the one behind `a` is the first where a type can
end. -/
structure ClosesAt (accepts : Text → Bool) (a b : Text) : Prop where
  accepted : accepts b = true
  first : ∀ u v, a = u ++ '}' :: v → accepts (v ++ '}' :: b) = false

theorem closesAt_nil_iff {accepts : Text → Bool} {b : Text} :
    ClosesAt accepts [] b ↔ accepts b = true := by
  refine ⟨fun h => h.accepted, fun h => ⟨h, ?_⟩⟩
  intro u v huv
  exact absurd huv.symm (by simp)

theorem closesAt_cons_iff {accepts : Text → Bool} {c : Char} {a b : Text} :
    ClosesAt accepts (c :: a) b ↔
      ¬ (c = '}' ∧ accepts (a ++ '}' :: b) = true) ∧ ClosesAt accepts a b := by
  constructor
  · intro h
    refine ⟨?_, h.accepted, ?_⟩
    · intro ⟨hc, haccepts⟩
      rw [h.first [] a (by rw [hc]; rfl)] at haccepts
      cases haccepts
    · intro u v huv
      exact h.first (c :: u) v (by rw [huv]; rfl)
  · intro ⟨hhere, h⟩
    refine ⟨h.accepted, ?_⟩
    intro u v huv
    cases u with
    | nil =>
      obtain ⟨rfl, rfl⟩ := List.cons.inj huv
      simpa using hhere
    | cons x u => exact h.first u v (List.cons.inj huv).2

theorem closesAt_of_splitAtBrace? {accepts : Text → Bool} {t a b : Text}
    (h : splitAtBrace? accepts t = some (a, b)) : t = a ++ '}' :: b ∧ ClosesAt accepts a b := by
  induction t generalizing a with
  | nil => cases h
  | cons c t ih =>
    rw [splitAtBrace?] at h
    by_cases hhere : (c = '}' && accepts t) = true
    · rw [if_pos hhere] at h
      obtain ⟨rfl, rfl⟩ := Prod.mk.inj (Option.some.inj h)
      simp only [Bool.and_eq_true, decide_eq_true_eq] at hhere
      exact ⟨by rw [hhere.1]; rfl, closesAt_nil_iff.mpr hhere.2⟩
    · rw [if_neg hhere] at h
      obtain ⟨⟨a', b'⟩, hsplit, heq⟩ := Option.map_eq_some_iff.mp h
      obtain ⟨rfl, rfl⟩ := Prod.mk.inj heq
      obtain ⟨rfl, hcloses⟩ := ih hsplit
      exact ⟨rfl, closesAt_cons_iff.mpr ⟨by simpa using hhere, hcloses⟩⟩

theorem splitAtBrace?_of_closesAt {accepts : Text → Bool} {a b : Text}
    (h : ClosesAt accepts a b) : splitAtBrace? accepts (a ++ '}' :: b) = some (a, b) := by
  induction a with
  | nil => rw [List.nil_append, splitAtBrace?, if_pos (by simp [h.accepted])]
  | cons c a ih =>
    obtain ⟨hhere, hcloses⟩ := closesAt_cons_iff.mp h
    rw [List.cons_append, splitAtBrace?, if_neg (by simpa using hhere), ih hcloses]
    rfl

/-- **A type is opened by the first character that is not blank, and closed by the first brace where
it can end.** -/
theorem typeIn_eq_some_iff {accepts : Text → Bool} {x a b : Text} :
    (behindBrace? x).bind (splitAtBrace? accepts) = some (a, b) ↔
      trimStart x = '{' :: (a ++ '}' :: b) ∧ ClosesAt accepts a b := by
  constructor
  · intro h
    obtain ⟨cs, hcs, hsplit⟩ := Option.bind_eq_some_iff.mp h
    obtain ⟨rfl, hcloses⟩ := closesAt_of_splitAtBrace? hsplit
    unfold behindBrace? at hcs
    split at hcs
    · rename_i hx
      rw [hx, Option.some.inj hcs]
      exact ⟨rfl, hcloses⟩
    · cases hcs
  · intro ⟨hx, hcloses⟩
    rw [behindBrace?, hx]
    exact splitAtBrace?_of_closesAt hcloses

/-- A type that ends at any closing brace has none. -/
theorem closesAt_any_iff {a b : Text} : ClosesAt (fun _ => true) a b ↔ '}' ∉ a := by
  constructor
  · intro h hmem
    obtain ⟨u, v, huv⟩ := List.append_of_mem hmem
    cases h.first u v huv
  · intro h
    refine ⟨rfl, ?_⟩
    intro u v huv
    exact absurd (by simp [huv]) h

theorem typeIn_any_eq_some_iff {x a b : Text} :
    (behindBrace? x).bind (splitAtBrace? fun _ => true) = some (a, b) ↔
      trimStart x = '{' :: (a ++ '}' :: b) ∧ '}' ∉ a := by
  rw [typeIn_eq_some_iff, closesAt_any_iff]

/-! ### The readers -/

theorem Parameter.read_eq_ok_iff {x : Text} {p : Parameter} :
    Parameter.read x = .ok p ↔ ∃ a b, trimStart x = '{' :: (a ++ '}' :: b) ∧
      ClosesAt beginsName a b ∧
      p = ⟨(trimStart b).takeWhile isWord, trim a, trim ((trimStart b).dropWhile isWord)⟩ := by
  simp only [← and_assoc, ← typeIn_eq_some_iff]
  cases hsplit : (behindBrace? x).bind (splitAtBrace? beginsName) with
  | none => simp [Parameter.read, hsplit]
  | some ab => simp [Parameter.read, hsplit, Prod.ext_iff, eq_comm]

theorem Returned.read_eq_ok_iff {x : Text} {r : Returned} :
    Returned.read x = .ok r ↔ ∃ a b, trimStart x = '{' :: (a ++ '}' :: b) ∧ '}' ∉ a ∧
      r = ⟨trim a, trim b⟩ := by
  simp only [← and_assoc, ← typeIn_any_eq_some_iff]
  cases hsplit : (behindBrace? x).bind (splitAtBrace? fun _ => true) with
  | none => simp [Returned.read, hsplit]
  | some ab => simp [Returned.read, hsplit, Prod.ext_iff, eq_comm]

theorem type?_eq_some_iff {x a : Text} :
    type? x = some a ↔ ∃ b, trimStart x = '{' :: (a ++ '}' :: b) ∧ '}' ∉ a := by
  simp only [← typeIn_any_eq_some_iff]
  cases hsplit : (behindBrace? x).bind (splitAtBrace? fun _ => true) with
  | none => simp [type?, hsplit]
  | some ab => simp [type?, hsplit, Prod.ext_iff]

/-! ### Balanced types -/

/-- Braces that are closed in order: in front of any place at least as many are opened as closed,
and in the end as many. -/
structure Balanced (t : Text) : Prop where
  opened : ∀ p, p <+: t → p.count '}' ≤ p.count '{'
  closed : t.count '{' = t.count '}'

instance (t : Text) : Decidable (Balanced t) :=
  decidable_of_iff ((∀ p ∈ t.inits, p.count '}' ≤ p.count '{') ∧ t.count '{' = t.count '}')
    ⟨fun h => ⟨fun p hp => h.1 p ((List.mem_inits p t).mpr hp), h.2⟩,
      fun h => ⟨fun p hp => h.opened p ((List.mem_inits p t).mp hp), h.closed⟩⟩

theorem Balanced.brace_mem_iff {t : Text} (h : Balanced t) : '}' ∈ t ↔ '{' ∈ t := by
  rw [← List.count_pos_iff, ← List.count_pos_iff, h.closed]

/-- In front of a closing brace, an opening one is left open. -/
theorem Balanced.count_lt {a v : Text} (h : Balanced (a ++ '}' :: v)) :
    a.count '}' < a.count '{' := by
  have hle := h.opened (a ++ ['}']) ⟨v, by simp⟩
  rw [List.count_append, List.count_append] at hle
  have hclose : ['}'].count '}' = 1 := by decide
  have hopen : ['}'].count '{' = 0 := by decide
  omega

/-- **A brace where a type can end is found, or one in front of it.** -/
theorem exists_closesAt {accepts : Text → Bool} {rest : Text} (hrest : accepts rest = true)
    (t : Text) :
    ∃ a b, t ++ '}' :: rest = a ++ '}' :: b ∧ ClosesAt accepts a b ∧
      (a = t ∨ ∃ v, t = a ++ '}' :: v) := by
  induction t with
  | nil => exact ⟨[], rest, rfl, closesAt_nil_iff.mpr hrest, Or.inl rfl⟩
  | cons c t ih =>
    obtain ⟨a, b, heq, hcloses, hcut⟩ := ih
    by_cases hhere : c = '}' ∧ accepts (t ++ '}' :: rest) = true
    · refine ⟨[], t ++ '}' :: rest, ?_, closesAt_nil_iff.mpr hhere.2, Or.inr ⟨t, ?_⟩⟩
      · rw [hhere.1]
        rfl
      · rw [hhere.1]
        rfl
    · refine ⟨c :: a, b, ?_, closesAt_cons_iff.mpr ⟨by rwa [← heq], hcloses⟩, ?_⟩
      · rw [List.cons_append, heq]
        rfl
      · rcases hcut with rfl | ⟨v, rfl⟩
        · exact Or.inl rfl
        · exact Or.inr ⟨v, rfl⟩

theorem ClosesAt.unique {accepts : Text → Bool} {a b a' b' : Text} (h : ClosesAt accepts a b)
    (h' : ClosesAt accepts a' b') (heq : a ++ '}' :: b = a' ++ '}' :: b') : a = a' ∧ b = b' := by
  have hsplit := splitAtBrace?_of_closesAt h
  rw [heq, splitAtBrace?_of_closesAt h'] at hsplit
  obtain ⟨rfl, rfl⟩ := Prod.mk.inj (Option.some.inj hsplit)
  exact ⟨rfl, rfl⟩

/-- What is read of a balanced type: all of it, or a part that leaves a brace open. -/
inductive FrontOf (t : Text) : Text → Prop
  | whole : FrontOf t t
  | short {a : Text} (hlength : a.length < t.length) (hopen : a.count '}' < a.count '{') :
      FrontOf t a

/-- A balanced type ends somewhere, and in the right place if no brace in it could end it. -/
theorem exists_typeEnd (accepts : Text → Bool) {t : Text} (rest : Text)
    (hrest : accepts rest = true) (hbalanced : Balanced t) :
    ∃ a b, t ++ '}' :: rest = a ++ '}' :: b ∧ ClosesAt accepts a b ∧ (a = t → b = rest) ∧
      FrontOf t a ∧
      (a = t ↔ ∀ u v, t = u ++ '}' :: v → accepts (v ++ '}' :: rest) = false) := by
  obtain ⟨a, b, heq, hcloses, hcut⟩ := exists_closesAt hrest t
  have hsame : a = t → b = rest := by
    intro ha
    rw [ha] at heq
    exact (List.cons.inj (List.append_cancel_left heq)).2.symm
  refine ⟨a, b, heq, hcloses, hsame, ?_, ?_⟩
  · rcases hcut with rfl | ⟨v, rfl⟩
    · exact .whole
    · refine .short ?_ hbalanced.count_lt
      rw [List.length_append, List.length_cons]
      omega
  · constructor
    · intro ha
      rw [← ha, ← hsame ha]
      exact hcloses.first
    · intro hfirst
      exact (hcloses.unique ⟨hrest, hfirst⟩ heq.symm).1

/-- If a type can end at any brace, it is read whole if it has none. -/
theorem exists_firstBrace {t : Text} (rest : Text) (hbalanced : Balanced t) :
    ∃ a b, t ++ '}' :: rest = a ++ '}' :: b ∧ '}' ∉ a ∧ (a = t → b = rest) ∧
      FrontOf t a ∧ (a = t ↔ '{' ∉ t) := by
  obtain ⟨a, b, heq, hcloses, hsame, hfront, hwhole⟩ :=
    exists_typeEnd (fun _ => true) rest rfl hbalanced
  refine ⟨a, b, heq, closesAt_any_iff.mp hcloses, hsame, hfront, ?_⟩
  rw [hwhole, ← hbalanced.brace_mem_iff, ← closesAt_any_iff (b := rest)]
  exact ⟨fun h => ⟨rfl, h⟩, fun h => h.first⟩

/-- Nothing but the whole of a balanced type is balanced, with or without blanks at the ends. -/
theorem FrontOf.whole_iff_balanced {a t : Text} (h : FrontOf t a) (ht : trim t = t)
    (hbalanced : Balanced t) :
    (trim a = t ↔ a = t) ∧ (Balanced (trim a) ↔ a = t) ∧ (Balanced a ↔ a = t) := by
  cases h with
  | whole =>
    rw [ht]
    exact ⟨Iff.rfl, iff_of_true hbalanced rfl, iff_of_true hbalanced rfl⟩
  | short hlength hopen =>
    have hne : a ≠ t := by
      rintro rfl
      omega
    refine ⟨iff_of_false ?_ hne, iff_of_false ?_ hne, iff_of_false ?_ hne⟩
    · intro h
      have hle := trim_length_le a
      rw [h] at hle
      omega
    · intro h
      have hclosed := h.closed
      rw [count_trim (by decide), count_trim (by decide)] at hclosed
      omega
    · intro h
      have hclosed := h.closed
      omega

/-! ### Types that are read whole -/

/-- A type in braces, and a text behind it. -/
def braced (t rest : Text) : Text := '{' :: (t ++ '}' :: ' ' :: rest)

theorem trimStart_braced (t rest : Text) : trimStart (braced t rest) = braced t rest :=
  trimStart_eq_self fun c hc => by cases hc; decide

/-- A closing brace is neither blank nor part of a name, so what stands behind it does not
matter. -/
theorem beginsName_append_brace (t rest : Text) :
    beginsName (t ++ '}' :: rest) = beginsName t := by
  cases t with
  | nil => rfl
  | cons c cs =>
    have hbrace : ('}' :: rest).find? (fun c => !isBlank c) = some '}' := rfl
    have hhead : (trimStart (cs ++ '}' :: rest)).head?.any isWord =
        (trimStart cs).head?.any isWord := by
      rw [← find?_eq_head?_trimStart, ← find?_eq_head?_trimStart, List.find?_append, hbrace]
      cases cs.find? (fun c => !isBlank c) with
      | none => decide
      | some d => rfl
    rw [List.cons_append, beginsName, beginsName, hhead]

theorem trimStart_name {n : Text} (hne : n ≠ []) (hn : ∀ c ∈ n, isWord c = true) (rest : Text) :
    trimStart (n ++ rest) = n ++ rest := by
  apply trimStart_eq_self
  intro c hc
  rw [List.head?_append_of_ne_nil _ hne] at hc
  exact isBlank_of_isWord (hn c (List.mem_of_mem_head? hc))

theorem beginsName_name {n : Text} (hne : n ≠ []) (hn : ∀ c ∈ n, isWord c = true) (rest : Text) :
    beginsName (' ' :: (n ++ rest)) = true := by
  show (isBlank ' ' && (trimStart (n ++ rest)).head?.any isWord) = true
  rw [trimStart_name hne hn]
  obtain ⟨c, cs, rfl⟩ := List.exists_cons_of_ne_nil hne
  exact hn c List.mem_cons_self

/-- What is read behind a type: the name, and the text behind it. -/
theorem split_name {n : Text} (hne : n ≠ []) (hn : ∀ c ∈ n, isWord c = true) (d : Text) :
    (trimStart (' ' :: (n ++ ' ' :: d))).takeWhile isWord = n ∧
      (trimStart (' ' :: (n ++ ' ' :: d))).dropWhile isWord = ' ' :: d := by
  have hspace : ¬ isWord ' ' = true := by decide
  rw [trimStart_space, trimStart_name hne hn, List.takeWhile_append_of_pos hn,
    List.dropWhile_append_of_pos hn, List.takeWhile_cons_of_neg hspace,
    List.dropWhile_cons_of_neg hspace, List.append_nil]
  exact ⟨rfl, rfl⟩

theorem exists_parameter_of_braced {t n : Text} (d : Text) (ht : trim t = t)
    (hbalanced : Balanced t) (hne : n ≠ []) (hn : ∀ c ∈ n, isWord c = true) :
    ∃ p, Parameter.read (braced t (n ++ ' ' :: d)) = .ok p ∧
      (p = ⟨n, t, trim d⟩ ↔ ∀ u v, t = u ++ '}' :: v → beginsName v = false) ∧
      (p = ⟨n, t, trim d⟩ ↔ Balanced p.type) := by
  obtain ⟨a, b, heq, hcloses, hsame, hfront, hwhole⟩ :=
    exists_typeEnd beginsName _ (beginsName_name hne hn (' ' :: d)) hbalanced
  simp only [beginsName_append_brace] at hwhole
  obtain ⟨htrim, hbalance, -⟩ := hfront.whole_iff_balanced ht hbalanced
  refine ⟨⟨(trimStart b).takeWhile isWord, trim a, trim ((trimStart b).dropWhile isWord)⟩, ?_, ?_⟩
  · refine Parameter.read_eq_ok_iff.mpr ⟨a, b, ?_, hcloses, rfl⟩
    rw [trimStart_braced, braced, heq]
  · rw [← hwhole, hbalance]
    have hread : (⟨(trimStart b).takeWhile isWord, trim a,
        trim ((trimStart b).dropWhile isWord)⟩ : Parameter) = ⟨n, t, trim d⟩ ↔ a = t := by
      constructor
      · intro h
        exact htrim.mp (congrArg Parameter.type h)
      · intro ha
        obtain ⟨htake, hdrop⟩ := split_name hne hn d
        rw [hsame ha, htake, hdrop, htrim.mpr ha, trim_space]
    exact ⟨hread, hread⟩

theorem exists_returned_of_braced {t : Text} (d : Text) (ht : trim t = t)
    (hbalanced : Balanced t) :
    ∃ r, Returned.read (braced t d) = .ok r ∧
      (r = ⟨t, trim d⟩ ↔ '{' ∉ t) ∧ (r = ⟨t, trim d⟩ ↔ Balanced r.type) := by
  obtain ⟨a, b, heq, hnone, hsame, hfront, hwhole⟩ := exists_firstBrace (' ' :: d) hbalanced
  obtain ⟨htrim, hbalance, -⟩ := hfront.whole_iff_balanced ht hbalanced
  refine ⟨⟨trim a, trim b⟩, ?_, ?_⟩
  · refine Returned.read_eq_ok_iff.mpr ⟨a, b, ?_, hnone, rfl⟩
    rw [trimStart_braced, braced, heq]
  · rw [← hwhole, hbalance]
    have hread : (⟨trim a, trim b⟩ : Returned) = ⟨t, trim d⟩ ↔ a = t := by
      constructor
      · intro h
        exact htrim.mp (congrArg Returned.type h)
      · intro ha
        rw [hsame ha, htrim.mpr ha, trim_space]
    exact ⟨hread, hread⟩

theorem exists_type_of_braced {t : Text} (d : Text) (ht : trim t = t) (hbalanced : Balanced t) :
    ∃ a, type? (braced t d) = some a ∧ (a = t ↔ '{' ∉ t) ∧ (a = t ↔ Balanced a) := by
  obtain ⟨a, b, heq, hnone, -, hfront, hwhole⟩ := exists_firstBrace (' ' :: d) hbalanced
  obtain ⟨-, -, hbalance⟩ := hfront.whole_iff_balanced ht hbalanced
  refine ⟨a, type?_eq_some_iff.mpr ⟨b, ?_, hnone⟩, hwhole, hbalance.symm⟩
  rw [trimStart_braced, braced, heq]

/-- **The balanced types that are read whole.**  All three readers find an end of the type.  That
of a parameter finds the right one exactly if no closing brace in the type has a name behind it,
the others exactly if the type has no braces.  What they read otherwise is not balanced. -/
theorem type_read_whole_iff {t n : Text} (d : Text) (ht : trim t = t) (hbalanced : Balanced t)
    (hne : n ≠ []) (hn : ∀ c ∈ n, isWord c = true) :
    (∃ p, Parameter.read (braced t (n ++ ' ' :: d)) = .ok p ∧
      (p = ⟨n, t, trim d⟩ ↔ ∀ u v, t = u ++ '}' :: v → beginsName v = false) ∧
      (p = ⟨n, t, trim d⟩ ↔ Balanced p.type)) ∧
    (∃ r, Returned.read (braced t d) = .ok r ∧
      (r = ⟨t, trim d⟩ ↔ '{' ∉ t) ∧ (r = ⟨t, trim d⟩ ↔ Balanced r.type)) ∧
    ∃ a, type? (braced t d) = some a ∧ (a = t ↔ '{' ∉ t) ∧ (a = t ↔ Balanced a) :=
  ⟨exists_parameter_of_braced d ht hbalanced hne hn, exists_returned_of_braced d ht hbalanced,
    exists_type_of_braced d ht hbalanced⟩

/-- The record type `{a: b}`. -/
def recordType : Text := '{' :: "a: b".toList ++ ['}']

theorem type_read_whole_iff_record : trim recordType = recordType ∧ Balanced recordType ∧
    (∃ p, Parameter.read (braced recordType ("x".toList ++ ' ' :: "c".toList)) = .ok p ∧
      p = ⟨"x".toList, recordType, "c".toList⟩ ∧ Balanced p.type) ∧
    (∃ r, Returned.read (braced recordType "c".toList) = .ok r ∧ ¬ Balanced r.type) ∧
    ∃ a, type? (braced recordType "c".toList) = some a ∧ ¬ Balanced a := by
  have ht : trim recordType = recordType := by decide
  have hbalanced : Balanced recordType := by decide
  have hbrace : ¬ '{' ∉ recordType := by decide
  obtain ⟨⟨p, hp, -, hparameter⟩, ⟨r, hr, hwhole, hreturned⟩, a, ha, hwhole', htype⟩ :=
    type_read_whole_iff (n := "x".toList) "c".toList ht hbalanced (by decide)
      (List.all_eq_true.mp (by decide))
  have hread : p = ⟨"x".toList, recordType, "c".toList⟩ := by
    refine Except.ok.inj (hp.symm.trans ?_)
    decide
  refine ⟨ht, hbalanced, ⟨p, hp, hread, hparameter.mp hread⟩, ⟨r, hr, ?_⟩, a, ha, ?_⟩
  · exact fun h => hbrace (hwhole.mp (hreturned.mpr h))
  · exact fun h => hbrace (hwhole'.mp (htype.mpr h))

/-- **A balanced type can be cut short.**  Of a record type, a return value and other flags get the
part in front of its own closing brace, and only a parameter gets it whole.  A parameter does not,
either, if a name follows the brace in the type. -/
theorem record_type_cut :
    trim recordType = recordType ∧ Balanced recordType ∧
    Parameter.read (braced recordType "x c".toList) = .ok ⟨"x".toList, recordType, "c".toList⟩ ∧
    Returned.read (braced recordType "c".toList) = .ok ⟨'{' :: "a: b".toList, '}' :: " c".toList⟩ ∧
    type? (braced recordType "c".toList) = some ('{' :: "a: b".toList) ∧
    trim (recordType ++ " d".toList) = recordType ++ " d".toList ∧
    Balanced (recordType ++ " d".toList) ∧
    Parameter.read (braced (recordType ++ " d".toList) "x c".toList) =
      .ok ⟨"d".toList, '{' :: "a: b".toList, '}' :: " x c".toList⟩ := by
  exact ⟨by decide, by decide, by decide, by decide, by decide, by decide, by decide, by decide⟩

end ScriptDocs
