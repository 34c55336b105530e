import ScriptDocs.Proofs.Comment.Section

/-!
# Where the flags of a text stand

A flag stands where an at sign has a word behind it and nothing, or a blank, in front.  `flagMarks`
looks at every position for itself.  `FlagScan` reads from left to right instead: it looks for the
first place where the form of a flag begins, the blank in front being part of the form, and goes on
behind it.  A mark ends with a word, so it never takes the blank that the next flag needs, and the
scan finds the flags at all places.

* `FlagStands`, `MarksFlag`: the place of a flag and its mark, by the characters around them.
* `forall₂_flagMarks`: the marks are those of the places, one for each and in their order.
* `MarksFlag.stop_le`: a mark ends in front of the blank before the next flag.
* `flagScan_iff`: the scan gives the marks.
* `flagMarks_places`: both together.
-/

namespace ScriptDocs.Comment

variable {t : Text}

/-! ### Words -/

/-- A word that goes as far as it can: it has word characters only, at least one, and there is none
behind it. -/
structure IsWholeWord (word behind : Text) : Prop where
  ne_nil : word ≠ []
  all : ∀ c ∈ word, isWord c = true
  ends : ∀ c, behind.head? = some c → isWord c = false

theorem isWholeWord_takeWhile {cs : Text} (h : cs.takeWhile isWord ≠ []) :
    IsWholeWord (cs.takeWhile isWord) (cs.dropWhile isWord) := by
  refine ⟨h, ?_, ?_⟩
  · intro c hc
    exact List.mem_takeWhile_imp hc
  · intro c hc
    exact eq_false_of_head?_dropWhile hc

theorem IsWholeWord.takeWhile_eq {word behind : Text} (h : IsWholeWord word behind) :
    (word ++ behind).takeWhile isWord = word := by
  rw [takeWhile_append_of_head h.ends, List.takeWhile_eq_self_iff]
  exact h.all

/-! ### Places and their marks -/

/-- A flag may stand at the position: it is the start of the text, or a blank is in front. -/
def FreeAt (t : Text) (i : Nat) : Prop := i = 0 ∨ t[i - 1]?.any isBlank = true

instance (t : Text) (i : Nat) : Decidable (FreeAt t i) :=
  inferInstanceAs (Decidable (_ ∨ _))

/-- A flag stands at the position: an at sign where a flag may stand, with a word character behind
it. -/
structure FlagStands (t : Text) (i : Nat) : Prop where
  sign : t[i]? = some '@'
  word : t[i + 1]?.any isWord = true
  free : FreeAt t i

instance (t : Text) (i : Nat) : Decidable (FlagStands t i) :=
  decidable_of_iff (t[i]? = some '@' ∧ t[i + 1]?.any isWord = true ∧ FreeAt t i)
    ⟨fun h => ⟨h.1, h.2.1, h.2.2⟩, fun h => ⟨h.sign, h.word, h.free⟩⟩

/-- The positions of a text at which flags stand, from left to right. -/
def flagPlaces (t : Text) : List Nat := (List.range t.length).filter fun i => FlagStands t i

/-- The mark of the flag at position `i`.  It begins one character in front of the at sign, or with
the text, and ends where no more word characters follow; the name goes from the at sign to the same
end. -/
structure MarksFlag (t : Text) (i : Nat) (m : FlagMark) : Prop where
  start_eq : m.span.start = i - 1
  lt_stop : i + 1 < m.span.stop
  word : ∀ k, i < k → k < m.span.stop → t[k]?.any isWord = true
  ends : t[m.span.stop]?.any isWord = false
  name_eq : m.name = Span.text t ⟨i, m.span.stop⟩

theorem mem_flagPlaces {i : Nat} : i ∈ flagPlaces t ↔ FlagStands t i := by
  rw [flagPlaces, List.mem_filter, decide_eq_true_eq, List.mem_range, and_iff_right_iff_imp]
  intro h
  exact (List.getElem?_eq_some_iff.mp h.sign).1

theorem pairwise_flagPlaces (t : Text) : (flagPlaces t).Pairwise (· < ·) :=
  List.pairwise_lt_range.filter _

/-- A place has only one mark. -/
theorem MarksFlag.unique {i : Nat} {m m' : FlagMark} (h : MarksFlag t i m)
    (h' : MarksFlag t i m') : m = m' := by
  have hle : ∀ {a b : FlagMark}, MarksFlag t i a → MarksFlag t i b →
      a.span.stop ≤ b.span.stop := by
    intro a b ha hb
    apply Nat.le_of_not_lt
    intro hlt
    -- the word of `a` would go on where that of `b` has ended
    have hlong := hb.lt_stop
    have hword := ha.word b.span.stop (by omega) hlt
    rw [hb.ends] at hword
    cases hword
  have hstop : m.span.stop = m'.span.stop := Nat.le_antisymm (hle h h') (hle h' h)
  have hstart : m.span.start = m'.span.start := h.start_eq.trans h'.start_eq.symm
  have hname : m.name = m'.name := by rw [h.name_eq, h'.name_eq, hstop]
  obtain ⟨⟨start, stop⟩, name⟩ := m
  obtain ⟨⟨start', stop'⟩, name'⟩ := m'
  simp only at hstop hstart hname
  rw [hstop, hstart, hname]

section

variable {pos : Nat} {c : Char} {cs : Text}

theorem getElem?_behind (ht : t.drop pos = c :: cs) (j : Nat) : t[pos + 1 + j]? = cs[j]? := by
  rw [Nat.add_assoc, ← List.getElem?_drop, ht, Nat.add_comm 1 j, List.getElem?_cons_succ]

theorem getElem?_here (ht : t.drop pos = c :: cs) : t[pos]? = some c := by
  rw [← Nat.add_zero pos, ← List.getElem?_drop, ht, List.getElem?_cons_zero]

theorem freeAt_succ (ht : t.drop pos = c :: cs) : FreeAt t (pos + 1) ↔ isBlank c = true := by
  simp [FreeAt, getElem?_here ht]

theorem flagStands_iff (ht : t.drop pos = c :: cs) :
    FlagStands t pos ↔ FreeAt t pos ∧ c = '@' ∧ cs.takeWhile isWord ≠ [] := by
  have hsign : t[pos]? = some '@' ↔ c = '@' := by rw [getElem?_here ht, Option.some.injEq]
  have hword : t[pos + 1]?.any isWord = true ↔ cs.takeWhile isWord ≠ [] := by
    rw [← Nat.add_zero (pos + 1), getElem?_behind ht]
    cases cs with
    | nil => simp
    | cons d ds => simp [List.takeWhile_cons]
  rw [← hsign, ← hword]
  exact ⟨fun h => ⟨h.free, h.sign, h.word⟩, fun h => ⟨h.2.1, h.2.2, h.1⟩⟩

/-- The mark takes in the whole word behind the at sign. -/
theorem marksFlag_markAt {word behind : Text} (ht : t.drop pos = '@' :: (word ++ behind))
    (h : IsWholeWord word behind) : MarksFlag t pos (markAt pos ('@' :: word)) := by
  have hlen : 0 < word.length := List.length_pos_of_ne_nil h.ne_nil
  have hstop : (markAt pos ('@' :: word)).span.stop = pos + 1 + word.length := by
    show pos + ('@' :: word).length = pos + 1 + word.length
    rw [List.length_cons]
    omega
  refine ⟨rfl, by omega, ?_, ?_, ?_⟩
  · intro k hk hlt
    obtain ⟨j, rfl⟩ := Nat.exists_eq_add_of_le (show pos + 1 ≤ k by omega)
    have hj : j < word.length := by omega
    rw [getElem?_behind ht, List.getElem?_append_left hj, List.getElem?_eq_getElem hj]
    exact h.all _ (List.getElem_mem hj)
  · rw [hstop, getElem?_behind ht, List.getElem?_append_right (Nat.le_refl _), Nat.sub_self,
      ← List.head?_eq_getElem?]
    cases hhead : behind.head? with
    | none => rfl
    | some d => exact h.ends d hhead
  · show '@' :: word = Span.text t ⟨pos, (markAt pos ('@' :: word)).span.stop⟩
    rw [hstop, Span.text, ht, show pos + 1 + word.length - pos = word.length + 1 by omega,
      List.take_succ_cons, List.take_left]

end

/-! ### All places -/

/-- **Every flag has its mark.**  The induction is along the text behind `pos`; of the text in front
only the last character matters. -/
theorem forall₂_flagMarksFrom {free : Bool} {pos : Nat} {cs : Text} (ht : t.drop pos = cs)
    (hfree : free = true ↔ FreeAt t pos) :
    List.Forall₂ (MarksFlag t) ((List.range' pos cs.length).filter fun i => FlagStands t i)
      (flagMarksFrom free pos cs) := by
  induction cs generalizing free pos with
  | nil => exact .nil
  | cons c cs ih =>
    have hlater : List.Forall₂ (MarksFlag t)
        ((List.range' (pos + 1) cs.length).filter fun i => FlagStands t i)
        (flagMarksFrom (isBlank c) (pos + 1) cs) :=
      ih (by rw [← List.drop_drop, ht]; rfl) (freeAt_succ ht).symm
    have hflag : (free && c = '@' && !(cs.takeWhile isWord).isEmpty) = true ↔
        FlagStands t pos := by
      rw [flagStands_iff ht, ← hfree]
      simp [and_assoc]
    rw [List.length_cons, List.range'_succ, flagMarksFrom]
    by_cases hstands : FlagStands t pos
    · obtain ⟨-, rfl, hne⟩ := (flagStands_iff ht).mp hstands
      rw [List.filter_cons_of_pos (by simpa using hstands), if_pos (hflag.mpr hstands)]
      refine .cons ?_ hlater
      have hsplit : t.drop pos = '@' :: (cs.takeWhile isWord ++ cs.dropWhile isWord) := by
        rw [ht, List.takeWhile_append_dropWhile]
      have hmark := marksFlag_markAt hsplit (isWholeWord_takeWhile hne)
      rwa [markAt, List.length_cons, Nat.add_comm _ 1, ← Nat.add_assoc] at hmark
    · rw [List.filter_cons_of_neg (by simpa using hstands), if_neg (mt hflag.mp hstands)]
      exact hlater

theorem forall₂_flagMarks (t : Text) : List.Forall₂ (MarksFlag t) (flagPlaces t) (flagMarks t) := by
  rw [flagPlaces, List.range_eq_range']
  exact forall₂_flagMarksFrom (List.drop_zero ..) (by simp [FreeAt])

/-! ### The form of a flag -/

/-- The form of a flag stands in a text at the span of the mark: an at sign and a whole word, with a
blank in front of them or at the start of the text.  The name is the form without the blank. -/
inductive FlagMatch (t : Text) : FlagMark → Prop
  | behindBlank {front word behind : Text} {b : Char}
      (ht : t = front ++ b :: '@' :: (word ++ behind)) (hb : isBlank b = true)
      (hword : IsWholeWord word behind) :
      FlagMatch t ⟨⟨front.length, front.length + (b :: '@' :: word).length⟩, '@' :: word⟩
  | atStart {word behind : Text} (ht : t = '@' :: (word ++ behind))
      (hword : IsWholeWord word behind) : FlagMatch t ⟨⟨0, ('@' :: word).length⟩, '@' :: word⟩

theorem flagStands_of_word {i : Nat} {word behind : Text}
    (ht : t.drop i = '@' :: (word ++ behind)) (hword : IsWholeWord word behind)
    (hfree : FreeAt t i) : FlagStands t i := by
  refine (flagStands_iff ht).mpr ⟨hfree, rfl, ?_⟩
  rw [hword.takeWhile_eq]
  exact hword.ne_nil

theorem FlagStands.exists_word {i : Nat} (h : FlagStands t i) :
    ∃ word behind, t.drop i = '@' :: (word ++ behind) ∧ IsWholeWord word behind := by
  obtain ⟨hlt, hsign⟩ := List.getElem?_eq_some_iff.mp h.sign
  have ht : t.drop i = '@' :: t.drop (i + 1) := by rw [List.drop_eq_getElem_cons hlt, hsign]
  obtain ⟨-, -, hne⟩ := (flagStands_iff ht).mp h
  refine ⟨_, _, ?_, isWholeWord_takeWhile hne⟩
  rw [ht, List.takeWhile_append_dropWhile]

/-- **The form of a flag stands where the flags do.** -/
theorem flagMatch_iff {m : FlagMark} :
    FlagMatch t m ↔ ∃ i, FlagStands t i ∧ MarksFlag t i m := by
  constructor
  · intro h
    cases h with
    | @behindBlank front word behind b ht hb hword =>
      have hdrop : t.drop (front.length + 1) = '@' :: (word ++ behind) := by
        rw [ht, ← List.drop_drop, List.drop_left]
        rfl
      have hfree : FreeAt t (front.length + 1) := by
        rw [ht, freeAt_succ (List.drop_left ..)]
        exact hb
      refine ⟨_, flagStands_of_word hdrop hword hfree, ?_⟩
      have hmark := marksFlag_markAt hdrop hword
      rwa [markAt, Nat.add_sub_cancel, Nat.add_assoc, Nat.add_comm 1] at hmark
    | @atStart word behind ht hword =>
      have hdrop : t.drop 0 = '@' :: (word ++ behind) := ht
      refine ⟨0, flagStands_of_word hdrop hword (Or.inl rfl), ?_⟩
      have hmark := marksFlag_markAt hdrop hword
      rwa [markAt, Nat.zero_add] at hmark
  · rintro ⟨i, hstands, hmark⟩
    obtain ⟨word, behind, ht, hword⟩ := hstands.exists_word
    obtain rfl := hmark.unique (marksFlag_markAt ht hword)
    cases i with
    | zero =>
      rw [markAt, Nat.zero_add]
      exact .atStart ht hword
    | succ j =>
      have hj : j < t.length := by
        have hlt := (List.getElem?_eq_some_iff.mp hstands.sign).1
        omega
      have hdrop : t.drop j = t[j] :: '@' :: (word ++ behind) := by
        rw [List.drop_eq_getElem_cons hj, ht]
      have hsplit : t = t.take j ++ t[j] :: '@' :: (word ++ behind) := by
        rw [← hdrop, List.take_append_drop]
      have hform := FlagMatch.behindBlank hsplit ((freeAt_succ hdrop).mp hstands.free) hword
      rw [List.length_take, Nat.min_eq_left (by omega)] at hform
      rw [markAt, Nat.add_sub_cancel, Nat.add_assoc, Nat.add_comm 1]
      exact hform

/-! ### The scan -/

/-- The flags that are found from position `n` on.  Of all places where the form stands the first is
taken, and the search goes on behind the form. -/
inductive FlagScan (t : Text) : Nat → List FlagMark → Prop
  | done {n : Nat} (hnone : ∀ m, FlagMatch t m → m.span.start < n) : FlagScan t n []
  | found {n : Nat} {m : FlagMark} {ms : List FlagMark} (hle : n ≤ m.span.start)
      (hmatch : FlagMatch t m)
      (hfirst : ∀ m', FlagMatch t m' → n ≤ m'.span.start → m.span.start ≤ m'.span.start)
      (hrest : FlagScan t m.span.stop ms) : FlagScan t n (m :: ms)

/-- **A mark does not take the blank in front of a later flag.**  It has the at sign and the word of
its own flag, and neither is blank. -/
theorem MarksFlag.stop_le {i j : Nat} {m : FlagMark} (hm : MarksFlag t i m) (hi : FlagStands t i)
    (hj : FlagStands t j) (hlt : i < j) : m.span.stop ≤ j - 1 := by
  have hblank : t[j - 1]?.any isBlank = true := hj.free.resolve_left (by omega)
  apply Nat.le_of_not_lt
  intro hcovered
  rcases Nat.eq_or_lt_of_le (show i ≤ j - 1 by omega) with heq | hbehind
  · rw [← heq, hi.sign] at hblank
    exact absurd hblank (by decide)
  · have hword := hm.word (j - 1) hbehind hcovered
    cases hc : t[j - 1]? with
    | none => rw [hc] at hword; cases hword
    | some c =>
      rw [hc] at hword hblank
      rw [Option.any_some, isBlank_of_isWord hword] at hblank
      cases hblank

/-- At one place the form stands in one way only. -/
theorem FlagMatch.unique {m m' : FlagMark} (h : FlagMatch t m) (h' : FlagMatch t m')
    (hstart : m.span.start = m'.span.start) : m = m' := by
  obtain ⟨i, hi, hm⟩ := flagMatch_iff.mp h
  obtain ⟨j, hj, hm'⟩ := flagMatch_iff.mp h'
  rw [hm.start_eq, hm'.start_eq] at hstart
  have hnot : ∀ {a b : Nat} {n : FlagMark}, FlagStands t a → FlagStands t b → MarksFlag t a n →
      a - 1 = b - 1 → ¬ a < b := by
    intro a b n ha hb hn heq hlt
    have hle := hn.stop_le ha hb hlt
    have hlong := hn.lt_stop
    omega
  have hij : i = j := by
    have hle := hnot hi hj hm hstart
    have hge := hnot hj hi hm' hstart.symm
    omega
  rw [← hij] at hm'
  exact hm.unique hm'

/-- **The scan finds every flag.**  Behind the first mark stand all flags but the first, for the
mark ends in front of their blanks. -/
theorem flagScan_of_places {is : List Nat} {ms : List FlagMark} {n : Nat}
    (h : List.Forall₂ (MarksFlag t) is ms) (hsorted : is.Pairwise (· < ·))
    (hmem : ∀ i, i ∈ is ↔ FlagStands t i ∧ n ≤ i - 1) : FlagScan t n ms := by
  induction h generalizing n with
  | nil =>
    refine .done ?_
    intro m hmatch
    obtain ⟨i, hi, hm⟩ := flagMatch_iff.mp hmatch
    rw [hm.start_eq]
    apply Nat.lt_of_not_le
    intro hle
    exact absurd ((hmem i).mpr ⟨hi, hle⟩) List.not_mem_nil
  | @cons i m is ms hm _ ih =>
    obtain ⟨hbefore, hsorted⟩ := List.pairwise_cons.mp hsorted
    obtain ⟨hi, hle⟩ := (hmem i).mp List.mem_cons_self
    have hstart := hm.start_eq
    have hlong := hm.lt_stop
    refine .found (by omega) (flagMatch_iff.mpr ⟨i, hi, hm⟩) ?_ (ih hsorted ?_)
    · intro m' hmatch hn
      obtain ⟨j, hj, hm'⟩ := flagMatch_iff.mp hmatch
      have hstart' := hm'.start_eq
      rcases List.mem_cons.mp ((hmem j).mpr ⟨hj, by omega⟩) with rfl | hmem'
      · omega
      · have hlt := hbefore j hmem'
        omega
    · intro j
      constructor
      · intro hj
        have hstands := ((hmem j).mp (List.mem_cons_of_mem i hj)).1
        exact ⟨hstands, hm.stop_le hi hstands (hbefore j hj)⟩
      · rintro ⟨hj, hstop⟩
        rcases List.mem_cons.mp ((hmem j).mpr ⟨hj, by omega⟩) with rfl | hmem'
        · omega
        · exact hmem'

theorem FlagScan.unique {n : Nat} {ms ms' : List FlagMark} (h : FlagScan t n ms)
    (h' : FlagScan t n ms') : ms = ms' := by
  induction h generalizing ms' with
  | done hnone =>
    cases h' with
    | done _ => rfl
    | @found _ m' _ hle hmatch _ _ =>
      have hlt := hnone m' hmatch
      omega
  | @found n m ms hle hmatch hfirst _ ih =>
    cases h' with
    | done hnone =>
      have hlt := hnone m hmatch
      omega
    | @found _ m' ms' hle' hmatch' hfirst' hrest' =>
      obtain rfl := hmatch.unique hmatch'
        (Nat.le_antisymm (hfirst m' hmatch' hle') (hfirst' m hmatch hle))
      rw [ih hrest']

/-- **The scan gives the marks.** -/
theorem flagScan_iff {ms : List FlagMark} : FlagScan t 0 ms ↔ ms = flagMarks t := by
  have hscan : FlagScan t 0 (flagMarks t) := by
    refine flagScan_of_places (forall₂_flagMarks t) (pairwise_flagPlaces t) ?_
    intro i
    rw [mem_flagPlaces]
    exact ⟨fun h => ⟨h, Nat.zero_le _⟩, fun h => h.1⟩
  constructor
  · intro h
    exact h.unique hscan
  · rintro rfl
    exact hscan

/-- What is found behind a mark is what a search from its end finds. -/
theorem FlagScan.behind {n : Nat} {ms : List FlagMark} (h : FlagScan t n ms) :
    ∀ {front : List FlagMark} {m : FlagMark} {behind : List FlagMark}, ms = front ++ m :: behind →
      FlagScan t m.span.stop behind := by
  induction h with
  | done => intro front m behind heq; simp at heq
  | found _ _ _ hrest ih =>
    intro front m behind heq
    cases front with
    | nil =>
      obtain ⟨rfl, rfl⟩ := List.cons.inj heq
      exact hrest
    | cons m' front => exact ih (List.cons.inj heq).2

/-- A flag whose blank stands where the search begins is found first. -/
theorem FlagScan.exists_first {n : Nat} {ms : List FlagMark} (h : FlagScan t n ms)
    (hstands : FlagStands t (n + 1)) : ∃ m rest, ms = m :: rest ∧ MarksFlag t (n + 1) m := by
  obtain ⟨word, behind, ht, hword⟩ := hstands.exists_word
  have hmark := marksFlag_markAt ht hword
  have hmatch := flagMatch_iff.mpr ⟨_, hstands, hmark⟩
  have hstart := hmark.start_eq
  cases h with
  | done hnone =>
    have hlt := hnone _ hmatch
    omega
  | @found _ m rest hle hfound hfirst _ =>
    have hle' := hfirst _ hmatch (by omega)
    obtain rfl := hfound.unique hmatch (by omega)
    exact ⟨_, rest, rfl, hmark⟩

/-- **The flags of a text are those at its places.**  There is a mark for each place, in their
order, and the marks are what a scan from left to right finds.  A flag with only one blank between
itself and the flag before it is found, too; its mark begins where the other ends. -/
theorem flagMarks_places (t : Text) :
    List.Forall₂ (MarksFlag t) (flagPlaces t) (flagMarks t) ∧
    (∀ ms, FlagScan t 0 ms ↔ ms = flagMarks t) ∧
    ∀ front m behind, flagMarks t = front ++ m :: behind → FlagStands t (m.span.stop + 1) →
      ∃ m' rest, behind = m' :: rest ∧ MarksFlag t (m.span.stop + 1) m' ∧
        m'.span.start = m.span.stop := by
  refine ⟨forall₂_flagMarks t, fun ms => flagScan_iff, ?_⟩
  intro front m behind heq hstands
  have hscan := (flagScan_iff.mpr rfl).behind heq
  obtain ⟨m', rest, hbehind, hmark⟩ := hscan.exists_first hstands
  exact ⟨m', rest, hbehind, hmark, hmark.start_eq⟩

/-- Two flags with one wide space between them, then an at sign without a word, and a flag with an
at sign right behind its word. -/
def rowed : Text := "@a\u3000@b_1 @ @c@d".toList

theorem flagMarks_places_rowed :
    flagMarks rowed = [] ++ ⟨⟨0, 2⟩, "@a".toList⟩ ::
        [⟨⟨2, 7⟩, "@b_1".toList⟩, ⟨⟨9, 12⟩, "@c".toList⟩] ∧
      FlagStands rowed 3 ∧
      ∃ m' rest, [⟨⟨2, 7⟩, "@b_1".toList⟩, ⟨⟨9, 12⟩, "@c".toList⟩] = m' :: rest ∧
        MarksFlag rowed 3 m' ∧ m'.span.start = 2 := by
  have hmarks : flagMarks rowed = [] ++ ⟨⟨0, 2⟩, "@a".toList⟩ ::
      [⟨⟨2, 7⟩, "@b_1".toList⟩, ⟨⟨9, 12⟩, "@c".toList⟩] := by decide +kernel
  have hstands : FlagStands rowed 3 := by decide
  exact ⟨hmarks, hstands, (flagMarks_places rowed).2.2 [] _ _ hmarks hstands⟩

end ScriptDocs.Comment
