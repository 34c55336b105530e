import ScriptDocs.Comment.Section
import ScriptDocs.Proofs.Text

/-!
# Flags and sections of a text

`flagMarksFrom` looks at one character after the other, and all it knows of the text in front is
whether the last character was blank.  So the flags of two texts laid end to end are those of
both, as long as the second does not go on with a word (`flagMarksFrom_append`).  Cutting at empty
lines is local in the same way (`cutAtEmptyLines_append`).

The marks of flags stand one behind the other (`laid_flagMarks`).  So when the flags are taken off
from the last to the first, each gets the text up to the next mark (`Section.ofText_eq`).
-/

namespace ScriptDocs.Comment

/-! ### Flags of joined texts -/

/-- Whether a flag may stand behind a text, if `free` tells it for the place where the text
begins. -/
def freeBehind (free : Bool) : Text → Bool
  | [] => free
  | c :: cs => freeBehind (isBlank c) cs

theorem freeBehind_of_isWord {free : Bool} (hfree : free = false) {word : Text}
    (h : ∀ c ∈ word, isWord c = true) : freeBehind free word = false := by
  induction word generalizing free with
  | nil => exact hfree
  | cons c cs ih => exact ih (isBlank_of_isWord (h c (by simp))) fun x hx => h x (by simp [hx])

/-- **The flags of two texts laid end to end.** -/
theorem flagMarksFrom_append {b : Text} (hb : ∀ c, b.head? = some c → isWord c = false) (a : Text)
    (free : Bool) (pos : Nat) :
    flagMarksFrom free pos (a ++ b) =
      flagMarksFrom free pos a ++ flagMarksFrom (freeBehind free a) (pos + a.length) b := by
  induction a generalizing free pos with
  | nil => simp [flagMarksFrom, freeBehind]
  | cons c cs ih =>
    have hpos : pos + (c :: cs).length = pos + 1 + cs.length := by
      rw [List.length_cons]
      omega
    rw [List.cons_append, flagMarksFrom, flagMarksFrom, takeWhile_append_of_head hb, ih, hpos,
      freeBehind]
    split
    · rfl
    · rfl

/-- A text without an at sign has no flags. -/
theorem flagMarksFrom_eq_nil_of_notMem {t : Text} (ht : '@' ∉ t) (free : Bool) (pos : Nat) :
    flagMarksFrom free pos t = [] := by
  induction t generalizing free pos with
  | nil => rfl
  | cons c cs ih =>
    have hc : c ≠ '@' := fun h => ht (by simp [h])
    rw [flagMarksFrom, ih fun h => ht (by simp [h])]
    simp [hc]

/-- A character that is no at sign only tells whether a flag may stand behind it. -/
theorem flagMarksFrom_cons {c : Char} (hc : c ≠ '@') (free : Bool) (pos : Nat) (cs : Text) :
    flagMarksFrom free pos (c :: cs) = flagMarksFrom (isBlank c) (pos + 1) cs := by
  rw [flagMarksFrom]
  simp [hc]

/-- Whether a text has flags does not depend on where it stands. -/
theorem flagMarksFrom_eq_nil_at {t : Text} {free : Bool} {pos : Nat}
    (h : flagMarksFrom free pos t = []) (pos' : Nat) : flagMarksFrom free pos' t = [] := by
  induction t generalizing free pos pos' with
  | nil => rfl
  | cons c cs ih =>
    rw [flagMarksFrom] at h ⊢
    split at h
    · exact absurd h (by simp)
    · rename_i hfree
      rw [if_neg hfree]
      exact ih h (pos' + 1)

/-- The mark of a flag with the name `'@' :: word` at a position. -/
def markAt (pos : Nat) (name : Text) : FlagMark := ⟨⟨pos - 1, pos + name.length⟩, name⟩

/-- **A flag at the place where a flag may stand**, with a text behind its name that has none. -/
theorem flagMarksFrom_flag {word behind : Text} (hne : word ≠ [])
    (hword : ∀ c ∈ word, isWord c = true)
    (hbehind : ∀ c, behind.head? = some c → isWord c = false)
    (hnone : ∀ pos, flagMarksFrom false pos behind = []) (pos : Nat) :
    flagMarksFrom true pos ('@' :: word ++ behind) = [markAt pos ('@' :: word)] := by
  have htake : (word ++ behind).takeWhile isWord = word := by
    rw [takeWhile_append_of_head hbehind, List.takeWhile_eq_self_iff]
    exact hword
  have hat : '@' ∉ word := by
    intro hmem
    have := hword '@' hmem
    exact absurd this (by decide)
  have hfree : freeBehind (isBlank '@') word = false := freeBehind_of_isWord (by decide) hword
  have hlater : flagMarksFrom (isBlank '@') (pos + 1) (word ++ behind) = [] := by
    rw [flagMarksFrom_append hbehind, flagMarksFrom_eq_nil_of_notMem hat, hfree, hnone]
    rfl
  rw [List.cons_append, flagMarksFrom, htake, hlater, markAt]
  have hempty : word.isEmpty = false := by simpa using hne
  simp only [hempty, Bool.not_false, decide_true, Bool.and_true, if_true,
    List.length_cons]
  congr 3
  omega

/-! ### Marks in their text -/

/-- Marks that stand in a text one behind the other, from position `n` on.  Each covers the name of
its flag, and beside it only blanks. -/
inductive Laid (t : Text) : Nat → List FlagMark → Prop
  | nil {n : Nat} (hle : n ≤ t.length) : Laid t n []
  | cons {n : Nat} {m : FlagMark} {ms : List FlagMark} (hle : n ≤ m.span.start)
      (hlt : m.span.start < m.span.stop) (hname : Text.squeeze (m.span.text t) = m.name)
      (h : Laid t m.span.stop ms) : Laid t n (m :: ms)

/-- Where the first of the marks begins; without marks, where the text ends. -/
def nextStart (t : Text) : List FlagMark → Nat
  | [] => t.length
  | m :: _ => m.span.start

theorem Laid.le_nextStart {t : Text} {n : Nat} {ms : List FlagMark} (h : Laid t n ms) :
    n ≤ nextStart t ms := by
  cases h with
  | nil hle => exact hle
  | cons hle _ _ _ => exact hle

theorem Laid.nextStart_le {t : Text} {n : Nat} {ms : List FlagMark} (h : Laid t n ms) :
    nextStart t ms ≤ t.length := by
  induction h with
  | nil _ => exact Nat.le_refl _
  | @cons n m ms _ hlt _ h ih =>
    have hle := h.le_nextStart
    show m.span.start ≤ t.length
    omega

/-- A mark covers the at sign and the word, and the blank in front, if something stands there. -/
theorem squeeze_mark {front : Text} (word behind : Text) (hword : ∀ c ∈ word, isWord c = true)
    (hfront : ∀ c, front.getLast? = some c → isBlank c = true) :
    Text.squeeze (Span.text (front ++ '@' :: (word ++ behind))
      ⟨front.length - 1, front.length + 1 + word.length⟩) = '@' :: word := by
  have hname : Text.squeeze ('@' :: word) = '@' :: word := by
    apply List.filter_eq_self.mpr
    intro c hc
    rcases List.mem_cons.mp hc with rfl | hc
    · decide
    · rw [isBlank_of_isWord (hword c hc)]
      rfl
  rcases List.eq_nil_or_concat front with rfl | ⟨more, blank, rfl⟩
  · have htext := Span.text_append [] ('@' :: word) behind (s := ⟨0, 0 + 1 + word.length⟩) rfl
      (by simp only [List.length_nil, List.length_cons]; omega)
    rw [List.nil_append] at htext
    exact (congrArg Text.squeeze htext).trans hname
  · have hblank : isBlank blank = true := hfront blank (by simp)
    have hsqueeze : Text.squeeze (blank :: '@' :: word) = Text.squeeze ('@' :: word) := by
      rw [Text.squeeze, List.filter_cons_of_neg (by simp [hblank])]
      rfl
    have htext := Span.text_append more (blank :: '@' :: word) behind
      (s := ⟨(more ++ [blank]).length - 1, (more ++ [blank]).length + 1 + word.length⟩) (by simp)
      (by simp only [List.length_append, List.length_cons, List.length_nil]; omega)
    rw [List.concat_eq_append, List.append_assoc, ← hname, ← hsqueeze]
    exact congrArg Text.squeeze htext

/-- **The marks of a text stand one behind the other.**  The induction is along the text behind
`front`.  If a flag may stand right here, its mark takes in the blank in front; if not, there is
none before the word ends that stands here. -/
theorem laid_flagMarksFrom (front cs : Text) (free : Bool) {n : Nat}
    (hfront : free = true → ∀ c, front.getLast? = some c → isBlank c = true)
    (hn : n ≤ if free then front.length - 1 else front.length + (cs.takeWhile isWord).length) :
    Laid (front ++ cs) n (flagMarksFrom free front.length cs) := by
  induction cs generalizing front free n with
  | nil =>
    refine .nil ?_
    rw [List.append_nil]
    cases free with
    | false => simpa using hn
    | true =>
      rw [if_pos rfl] at hn
      omega
  | cons c cs ih =>
    have hlater : ∀ k, k ≤ (if isBlank c then front.length
        else front.length + 1 + (cs.takeWhile isWord).length) →
        Laid (front ++ c :: cs) k (flagMarksFrom (isBlank c) (front.length + 1) cs) := by
      intro k hk
      have hlaid := ih (front ++ [c]) (isBlank c) (n := k)
        (by intro hc d hd; simp at hd; rwa [← hd])
        (by simpa using hk)
      simpa using hlaid
    rw [flagMarksFrom]
    by_cases hflag : (free && c = '@' && !(cs.takeWhile isWord).isEmpty) = true
    · rw [if_pos hflag]
      simp only [Bool.and_eq_true, decide_eq_true_eq] at hflag
      obtain ⟨⟨rfl, rfl⟩, -⟩ := hflag
      rw [if_pos rfl] at hn
      refine .cons hn ?_ ?_ (hlater _ (Nat.le_refl _))
      · show front.length - 1 < front.length + 1 + _
        omega
      · have hmark := squeeze_mark (cs.takeWhile isWord) (cs.dropWhile isWord)
          (fun d hd => List.mem_takeWhile_imp hd) (hfront rfl)
        rwa [List.takeWhile_append_dropWhile] at hmark
    · rw [if_neg hflag]
      apply hlater
      cases free with
      | true =>
        rw [if_pos rfl] at hn
        split <;> omega
      | false =>
        -- inside a word nothing is blank, and outside there is no word to be left
        rw [if_neg (by simp), List.takeWhile_cons] at hn
        by_cases hc : isWord c = true
        · rw [if_pos hc, List.length_cons] at hn
          rw [isBlank_of_isWord hc, if_neg (by simp)]
          omega
        · rw [if_neg hc, List.length_nil] at hn
          split <;> omega

theorem laid_flagMarks (t : Text) : Laid t 0 (flagMarks t) :=
  laid_flagMarksFrom [] t true (fun _ _ h => by cases h) (Nat.zero_le _)

/-! ### Sections taken apart -/

/-- The flags at the given marks, each with the text up to the next mark. -/
def flagsAt (t : Text) : List FlagMark → List Flag
  | [] => []
  | m :: ms => ⟨m.name, Text.trim (Span.text t ⟨m.span.stop, nextStart t ms⟩)⟩ :: flagsAt t ms

/-- When a flag is taken off, what is left ended at the next mark and then ends at the flag's
own. -/
theorem cutAt_laid {t : Text} {n : Nat} {m : FlagMark} {ms : List FlagMark}
    (h : Laid t n (m :: ms)) :
    Section.cutAt ⟨t.take (nextStart t ms), flagsAt t ms⟩ m =
      ⟨t.take m.span.start, flagsAt t (m :: ms)⟩ := by
  cases h with
  | cons _ hlt _ h =>
    have hle := h.le_nextStart
    rw [Section.cutAt, List.take_take, List.drop_take, Nat.min_eq_left (by omega)]
    rfl

theorem foldl_cutAt_laid {t : Text} {n : Nat} {ms : List FlagMark} (h : Laid t n ms) :
    ms.reverse.foldl Section.cutAt ⟨t, []⟩ = ⟨t.take (nextStart t ms), flagsAt t ms⟩ := by
  induction h with
  | nil _ =>
    show (⟨t, []⟩ : Section) = ⟨t.take t.length, []⟩
    rw [List.take_length]
  | cons hle hlt hname h ih =>
    rw [List.reverse_cons, List.foldl_append, ih]
    exact cutAt_laid (.cons hle hlt hname h)

/-- **A section taken apart from its end** has the description in front of its first mark, and its
flags are those at the marks. -/
theorem Section.ofText_eq (t : Text) :
    Section.ofText t = ⟨t.take (nextStart t (flagMarks t)), flagsAt t (flagMarks t)⟩ :=
  foldl_cutAt_laid (laid_flagMarks t)

/-! ### Pairs of characters -/

/-- Two characters stand side by side in joined texts if they do so in one of them, or at the
joint. -/
theorem pair_infix_append {x y : Char} {a b : Text} (h : [x, y] <:+: a ++ b) :
    [x, y] <:+: a ∨ [x, y] <:+: b ∨ (a.getLast? = some x ∧ b.head? = some y) := by
  rcases List.infix_append_iff.mp h with h | h | ⟨l₁, l₂, he, ⟨a', rfl⟩, ⟨b', rfl⟩⟩
  · exact Or.inl h
  · exact Or.inr (Or.inl h)
  · rcases l₁ with _ | ⟨u, _ | ⟨v, l₁⟩⟩
    · refine Or.inr (Or.inl ?_)
      rw [List.nil_append] at he
      rw [he]
      exact (List.prefix_append l₂ b').isInfix
    · obtain ⟨rfl, rfl⟩ : x = u ∧ [y] = l₂ := by simpa using he
      exact Or.inr (Or.inr ⟨by simp, by simp⟩)
    · obtain ⟨rfl, rfl, hnil⟩ : x = u ∧ y = v ∧ [] = l₁ ++ l₂ := by simpa using he
      refine Or.inl ?_
      rw [(List.append_eq_nil_iff.mp hnil.symm).1]
      exact (List.suffix_append a' [x, y]).isInfix

theorem not_pair_infix_of_notMem {x y : Char} {a : Text} (h : x ∉ a) : ¬ [x, y] <:+: a :=
  fun hi => h (hi.subset (by simp))

/-! ### Cutting at empty lines -/

theorem cutAtEmptyLines_ne_nil (t : Text) : cutAtEmptyLines t ≠ [] := by
  fun_cases cutAtEmptyLines t <;> simp

theorem cutAtEmptyLines_cons {c : Char} {cs : Text} (h : ¬ ['\n', '\n'] <+: c :: cs) :
    cutAtEmptyLines (c :: cs) = (cutAtEmptyLines cs).modifyHead (c :: ·) := by
  rw [cutAtEmptyLines]
  · cases hcs : cutAtEmptyLines cs with
    | nil => exact absurd hcs (cutAtEmptyLines_ne_nil cs)
    | cons p ps => rfl
  · rintro cs' rfl rfl
    exact h ⟨cs', rfl⟩

/-- A text is one piece, or a piece with an empty line behind it and what comes of the rest. -/
theorem cutAtEmptyLines_cases (t : Text) :
    cutAtEmptyLines t = [t] ∨
      ∃ piece rest, t = piece ++ '\n' :: '\n' :: rest ∧
        cutAtEmptyLines t = piece :: cutAtEmptyLines rest := by
  fun_induction cutAtEmptyLines t with
  | case1 => exact Or.inl rfl
  | case2 cs _ => exact Or.inr ⟨[], cs, rfl, rfl⟩
  | case3 c cs _ hnil _ => exact absurd hnil (cutAtEmptyLines_ne_nil cs)
  | case4 c cs _ piece pieces hcs ih =>
    rcases ih with hone | ⟨piece', rest, hrest, hpieces⟩
    · obtain ⟨rfl, rfl⟩ := List.cons.inj (hcs.symm.trans hone)
      exact Or.inl rfl
    · obtain ⟨rfl, rfl⟩ := List.cons.inj (hcs.symm.trans hpieces)
      exact Or.inr ⟨c :: piece, rest, by rw [hrest]; rfl, rfl⟩

/-- A text without an empty line is one piece. -/
theorem cutAtEmptyLines_of_not_infix {t : Text} (h : ¬ ['\n', '\n'] <:+: t) :
    cutAtEmptyLines t = [t] := by
  induction t with
  | nil => rfl
  | cons c cs ih =>
    rw [cutAtEmptyLines_cons fun hp => h hp.isInfix,
      ih fun hi => h (hi.trans (List.suffix_cons c cs).isInfix)]
    rfl

/-- **Cutting is local.**  An empty line ends the piece in front of it. -/
theorem cutAtEmptyLines_append {t : Text} (h : ¬ ['\n', '\n'] <:+: t ++ ['\n']) (rest : Text) :
    cutAtEmptyLines (t ++ '\n' :: '\n' :: rest) = t :: cutAtEmptyLines rest := by
  induction t with
  | nil => rw [List.nil_append, cutAtEmptyLines]
  | cons c cs ih =>
    have hcs : ¬ ['\n', '\n'] <:+: cs ++ ['\n'] :=
      fun hi => h (hi.trans (List.suffix_cons c _).isInfix)
    have hhead : ¬ ['\n', '\n'] <+: c :: (cs ++ '\n' :: '\n' :: rest) := by
      intro hp
      apply h
      -- The two line feeds would stand in the piece, or at its end and the line feed behind it.
      cases cs with
      | nil =>
        obtain ⟨rest', hrest'⟩ := hp
        simp only [List.cons_append, List.cons.injEq] at hrest'
        obtain ⟨rfl, _⟩ := hrest'
        exact List.infix_refl _
      | cons d ds =>
        obtain ⟨rest', hrest'⟩ := hp
        simp only [List.cons_append, List.cons.injEq] at hrest'
        obtain ⟨rfl, rfl, _⟩ := hrest'
        exact List.IsPrefix.isInfix ⟨ds ++ ['\n'], rfl⟩
    rw [List.cons_append, cutAtEmptyLines_cons hhead, ih hcs]
    rfl

end ScriptDocs.Comment
