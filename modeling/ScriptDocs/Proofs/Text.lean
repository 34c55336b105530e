import Mathlib.Data.List.DropRight
import ScriptDocs.Proofs.List
import ScriptDocs.Text.Blank
import ScriptDocs.Text.Lines
import ScriptDocs.Text.Word

/-!
# Laws of texts

What the scanners rely on when they look at characters and cut texts.

* `isWord_of_isBlank`: no character is both blank and part of a word, so a name can lose its blanks
  without losing anything else.
* `Text.fields_eq_splitOn`, `Text.occurs_iff_infix`: cutting and searching, in the terms of lists.
* `Text.lines_cons`, `Text.lines_append`, `Text.induction_on_lines`: a text line by line.
* `Text.Lacks`, `Text.FirstAt`: a mark stands nowhere in a stretch, or first at a position.
* `Span.getElem?_text`: what stands in the text of a span.
-/

namespace ScriptDocs

/-! ### Classes of characters -/

def blankCodes : List Nat :=
  [9, 10, 11, 12, 13, 28, 29, 30, 31, 32, 0x85, 0xA0, 0x1680, 0x2000, 0x2001, 0x2002, 0x2003,
   0x2004, 0x2005, 0x2006, 0x2007, 0x2008, 0x2009, 0x200A, 0x2028, 0x2029, 0x202F, 0x205F, 0x3000]

theorem toNat_mem_blankCodes {c : Char} (h : isBlank c = true) : c.toNat ∈ blankCodes := by
  simp only [isBlank, Bool.or_eq_true, Bool.and_eq_true, decide_eq_true_eq, beq_iff_eq] at h
  simp only [blankCodes, List.mem_cons, List.not_mem_nil, or_false]
  omega

/-- **No blank is a word character.**  The blanks are few enough to look each up in the table. -/
theorem isWord_of_isBlank {c : Char} (h : isBlank c = true) : isWord c = false := by
  have hall : ∀ n ∈ blankCodes, isWord (Char.ofNat n) = false := by decide +kernel
  have hc := hall c.toNat (toNat_mem_blankCodes h)
  rwa [Char.ofNat_toNat] at hc

theorem isBlank_of_isWord {c : Char} (h : isWord c = true) : isBlank c = false := by
  cases hb : isBlank c with
  | false => rfl
  | true => rw [isWord_of_isBlank hb] at h; exact absurd h (by simp)

theorem isBlank_of_isLineBreak {c : Char} (h : isLineBreak c = true) : isBlank c = true := by
  simp only [isLineBreak, Bool.or_eq_true, Bool.and_eq_true, decide_eq_true_eq, beq_iff_eq] at h
  simp only [isBlank, Bool.or_eq_true, Bool.and_eq_true, decide_eq_true_eq, beq_iff_eq]
  omega

namespace Text

/-! ### Pieces -/

theorem fields_eq_splitOn (sep : Char) (t : Text) : fields sep t = t.splitOn sep := by
  induction t with
  | nil => rfl
  | cons c cs ih =>
    rw [List.splitOn_cons_eq_if_modifyHead, ← ih]
    by_cases h : c = sep
    · simp [fields, h]
    · simp only [fields, if_neg h, beq_iff_eq]
      cases hs : fields sep cs with
      | nil => exact absurd (ih.symm.trans hs) (List.splitOn_ne_nil sep cs)
      | cons p ps => rfl

theorem fields_ne_nil (sep : Char) (t : Text) : fields sep t ≠ [] := by
  rw [fields_eq_splitOn]
  exact List.splitOn_ne_nil sep t

theorem fields_append_cons (sep : Char) (a b : Text) :
    fields sep (a ++ sep :: b) = fields sep a ++ fields sep b := by
  simp only [fields_eq_splitOn]
  exact List.splitOn_append_cons_self a b

theorem fields_of_notMem {sep : Char} {t : Text} (h : sep ∉ t) : fields sep t = [t] := by
  rw [fields_eq_splitOn, List.splitOn_eq_singleton h]

theorem fields_intercalate {sep : Char} {ts : List Text} (h : ∀ t ∈ ts, sep ∉ t) (hne : ts ≠ []) :
    fields sep (List.intercalate [sep] ts) = ts := by
  rw [fields_eq_splitOn, List.splitOn_intercalate sep h hne]

/-- A text stands somewhere in another if it is an infix of it. -/
theorem occurs_iff_infix {part t : Text} : occurs part t = true ↔ part <:+: t := by
  induction t with
  | nil => simp [occurs, List.isEmpty_iff]
  | cons c cs ih =>
    rw [occurs, Bool.or_eq_true, List.isPrefixOf_iff_prefix, ih, List.infix_cons_iff]

/-! ### Order -/

theorem atMost_cons_iff {a b : Char} {as bs : Text} :
    atMost (a :: as) (b :: bs) = true ↔ a.toNat < b.toNat ∨ (a = b ∧ atMost as bs = true) := by
  simp [atMost]

theorem atMost_total (s t : Text) : (atMost s t || atMost t s) = true := by
  induction s generalizing t with
  | nil => rw [atMost, Bool.true_or]
  | cons a as ih =>
    cases t with
    | nil => rw [Bool.or_eq_true]; exact Or.inr rfl
    | cons b bs =>
      rw [Bool.or_eq_true, atMost_cons_iff, atMost_cons_iff]
      rcases Nat.lt_trichotomy a.toNat b.toNat with hlt | heq | hgt
      · exact Or.inl (Or.inl hlt)
      · have hab : a = b := Char.toNat_inj.mp heq
        rcases Bool.or_eq_true_iff.mp (ih bs) with h | h
        · exact Or.inl (Or.inr ⟨hab, h⟩)
        · exact Or.inr (Or.inr ⟨hab.symm, h⟩)
      · exact Or.inr (Or.inl hgt)

theorem atMost_trans {s t u : Text} (hst : atMost s t = true) (htu : atMost t u = true) :
    atMost s u = true := by
  induction s generalizing t u with
  | nil => rw [atMost]
  | cons a as ih =>
    cases t with
    | nil => simp [atMost] at hst
    | cons b bs =>
      cases u with
      | nil => simp [atMost] at htu
      | cons c cs =>
        rw [atMost_cons_iff] at hst htu ⊢
        rcases hst with hab | ⟨rfl, hst⟩
        · rcases htu with hbc | ⟨rfl, _⟩
          · exact Or.inl (by omega)
          · exact Or.inl hab
        · rcases htu with hbc | ⟨rfl, htu⟩
          · exact Or.inl hbc
          · exact Or.inr ⟨rfl, ih hst htu⟩

theorem atMost_antisymm {s t : Text} (hst : atMost s t = true) (hts : atMost t s = true) :
    s = t := by
  induction s generalizing t with
  | nil =>
    cases t with
    | nil => rfl
    | cons b bs => simp [atMost] at hts
  | cons a as ih =>
    cases t with
    | nil => simp [atMost] at hst
    | cons b bs =>
      rw [atMost_cons_iff] at hst hts
      rcases hst with hab | ⟨rfl, hst⟩
      · rcases hts with hba | ⟨rfl, _⟩
        · omega
        · omega
      · rcases hts with haa | ⟨_, hts⟩
        · omega
        · rw [ih hst hts]

theorem mem_sortedSet {t : Text} {ts : List Text} : t ∈ sortedSet ts ↔ t ∈ ts := by
  rw [sortedSet, List.mem_mergeSort, List.mem_eraseDups]

theorem nodup_eraseDups (ts : List Text) : ts.eraseDups.Nodup := by
  -- what is left behind the first text is shorter, as its repetitions are gone from it
  induction hn : ts.length using Nat.strongRecOn generalizing ts with
  | ind n ih =>
    cases ts with
    | nil => exact List.nodup_nil
    | cons t ts =>
      rw [List.eraseDups_cons, List.nodup_cons]
      refine ⟨by simp, ih _ ?_ _ rfl⟩
      rw [← hn, List.length_cons]
      exact Nat.lt_succ_of_le (List.length_filter_le _ _)

theorem nodup_sortedSet (ts : List Text) : (sortedSet ts).Nodup :=
  (List.mergeSort_perm _ _).nodup_iff.mpr (nodup_eraseDups ts)

/-! ### Blanks -/

/-- The first character that is not blank is where the trimmed text begins. -/
theorem find?_eq_head?_trimStart (t : Text) :
    t.find? (fun c => !isBlank c) = (trimStart t).head? := List.find?_not_eq_head?_dropWhile ..

theorem squeeze_append (a b : Text) : squeeze (a ++ b) = squeeze a ++ squeeze b :=
  List.filter_append ..

theorem squeeze_flatMap {α : Type} (f : α → Text) (as : List α) :
    squeeze (as.flatMap f) = as.flatMap fun a => squeeze (f a) := List.filter_flatMap ..

theorem squeeze_eq_nil_iff {t : Text} : squeeze t = [] ↔ ∀ c ∈ t, isBlank c = true := by
  simp [squeeze, List.filter_eq_nil_iff]

/-- Blanks that are taken off the front make no difference. -/
theorem squeeze_dropWhile {p : Char → Bool} (hp : ∀ c, p c = true → isBlank c = true) (t : Text) :
    squeeze (t.dropWhile p) = squeeze t := by
  have hfront : squeeze (t.takeWhile p) = [] :=
    squeeze_eq_nil_iff.mpr fun c hc => hp c (List.mem_takeWhile_imp hc)
  conv_rhs => rw [← List.takeWhile_append_dropWhile (p := p) (l := t), squeeze_append, hfront,
    List.nil_append]

theorem squeeze_trimStart (t : Text) : squeeze (trimStart t) = squeeze t :=
  squeeze_dropWhile (fun _ hc => hc) t

theorem squeeze_squeeze (t : Text) : squeeze (squeeze t) = squeeze t := by
  rw [squeeze, squeeze, List.filter_filter]
  simp only [Bool.and_self]

/-! ### Trimming -/

theorem trimStart_eq_self {t : Text} (h : ∀ c, t.head? = some c → isBlank c = false) :
    trimStart t = t := by
  cases t with
  | nil => rfl
  | cons c cs => rw [trimStart, List.dropWhile_cons_of_neg (by simp [h c rfl])]

theorem trimStart_append_of_blank {a b : Text} (h : ∀ c ∈ a, isBlank c = true) :
    trimStart (a ++ b) = trimStart b :=
  List.dropWhile_append_of_pos h

theorem trimStart_cons {c : Char} (hc : isBlank c = false) (cs : Text) :
    trimStart (c :: cs) = c :: cs :=
  List.dropWhile_cons_of_neg (by simp [hc])

/-- Blanks go up to the first character that is none. -/
theorem trimStart_append_cons {a : Text} (h : ∀ b ∈ a, isBlank b = true) {c : Char}
    (hc : isBlank c = false) (cs : Text) : trimStart (a ++ c :: cs) = c :: cs := by
  rw [trimStart_append_of_blank h, trimStart_cons hc]

theorem trimStart_cons_of_blank {c : Char} (hc : isBlank c = true) (t : Text) :
    trimStart (c :: t) = trimStart t :=
  List.dropWhile_cons_of_pos hc

theorem trimStart_space (t : Text) : trimStart (' ' :: t) = trimStart t :=
  trimStart_cons_of_blank rfl t

theorem trimEnd_eq_rdropWhile (t : Text) : trimEnd t = t.rdropWhile isBlank := rfl

theorem trimEnd_eq_self {t : Text} (h : ∀ c, t.getLast? = some c → isBlank c = false) :
    trimEnd t = t := by
  rw [trimEnd_eq_rdropWhile, List.rdropWhile_eq_self_iff]
  intro hne
  simp [h _ (List.getLast?_eq_some_getLast hne)]

/-- Trimming stops at the last character that is not blank, so what stands in front of a text with
such a character stays. -/
theorem trimEnd_append_of_mem {a b : Text} (h : ∃ c ∈ b, isBlank c = false) :
    trimEnd (a ++ b) = a ++ trimEnd b := by
  obtain ⟨c, hc, hblank⟩ := h
  have hne : ¬ (b.reverse.dropWhile isBlank).isEmpty = true := by
    rw [List.isEmpty_iff, List.dropWhile_eq_nil_iff]
    intro hall
    rw [hall c (List.mem_reverse.mpr hc)] at hblank
    exact absurd hblank (by simp)
  rw [trimEnd, trimEnd, List.reverse_append, List.dropWhile_append, if_neg hne]
  simp

theorem trimEnd_append_of_blank {a b : Text} (h : ∀ c ∈ b, isBlank c = true) :
    trimEnd (a ++ b) = trimEnd a := by
  rw [trimEnd, trimEnd, List.reverse_append,
    List.dropWhile_append_of_pos fun c hc => h c (List.mem_reverse.mp hc)]

theorem trimEnd_prefix_self (t : Text) : trimEnd t <+: t := List.rdropWhile_prefix ..

/-- What is taken off the end of a text is blank. -/
theorem exists_blanks_trimEnd (t : Text) :
    ∃ blanks, t = trimEnd t ++ blanks ∧ ∀ c ∈ blanks, isBlank c = true := by
  refine ⟨(t.reverse.takeWhile isBlank).reverse, ?_, ?_⟩
  · rw [trimEnd, ← List.reverse_append, List.takeWhile_append_dropWhile, List.reverse_reverse]
  · intro c hc
    exact List.mem_takeWhile_imp (List.mem_reverse.mp hc)

theorem trimEnd_ne_nil {t : Text} (h : ∃ c ∈ t, isBlank c = false) : trimEnd t ≠ [] := by
  obtain ⟨c, hc, hblank⟩ := h
  rw [trimEnd_eq_rdropWhile, ne_eq, List.rdropWhile_eq_nil_iff]
  intro hall
  rw [hall c hc] at hblank
  exact absurd hblank (by simp)

theorem head?_trimEnd {t : Text} (h : ∃ c ∈ t, isBlank c = false) :
    (trimEnd t).head? = t.head? := by
  obtain ⟨rest, hrest⟩ := trimEnd_prefix_self t
  conv_rhs => rw [← hrest, List.head?_append_of_ne_nil _ (trimEnd_ne_nil h)]

theorem trimEnd_trimEnd (t : Text) : trimEnd (trimEnd t) = trimEnd t :=
  List.rdropWhile_idempotent ..

/-- A text that does not begin with a blank is trimmed at its end only. -/
theorem trim_eq_trimEnd {t : Text} (h : ∀ c, t.head? = some c → isBlank c = false) :
    trim t = trimEnd t := by
  rw [trim, trimStart_eq_self h]

theorem squeeze_trim (t : Text) : squeeze (trim t) = squeeze t := by
  obtain ⟨blanks, hsplit, hblanks⟩ := exists_blanks_trimEnd (trimStart t)
  rw [← squeeze_trimStart t]
  conv_rhs => rw [hsplit, squeeze_append, squeeze_eq_nil_iff.mpr hblanks, List.append_nil]
  rfl

theorem count_trim {c : Char} (hc : isBlank c = false) (t : Text) :
    (trim t).count c = t.count c := by
  have hsqueeze : ∀ x : Text, (squeeze x).count c = x.count c := by
    intro x
    exact List.count_filter (by simp [hc])
  rw [← hsqueeze (trim t), squeeze_trim, hsqueeze]

theorem trim_cons_of_blank {c : Char} (hc : isBlank c = true) (t : Text) :
    trim (c :: t) = trim t := by
  rw [trim, trim, trimStart_cons_of_blank hc]

theorem trim_space (t : Text) : trim (' ' :: t) = trim t := trim_cons_of_blank rfl t

theorem trim_length_le (t : Text) : (trim t).length ≤ t.length :=
  (trimEnd_prefix_self _).length_le.trans (trimStart_length_le t)

/-- A trimmed text does not begin with a blank. -/
theorem isBlank_of_head?_trim {t : Text} {c : Char} (h : (trim t).head? = some c) :
    isBlank c = false := by
  obtain ⟨rest, hrest⟩ := trimEnd_prefix_self (trimStart t)
  have hhead : (trimStart t).head? = some c := by
    rw [← hrest, List.head?_append, ← trim, h]
    rfl
  exact eq_false_of_head?_dropWhile hhead

/-- A trimmed text does not end with a blank. -/
theorem isBlank_of_getLast?_trim {t : Text} {c : Char} (h : (trim t).getLast? = some c) :
    isBlank c = false := by
  rw [trim, trimEnd, List.getLast?_reverse] at h
  exact eq_false_of_head?_dropWhile h

/-- What is left of a text stands in it. -/
theorem isInfix_trim (t : Text) : trim t <:+: t :=
  (trimEnd_prefix_self _).isInfix.trans (List.dropWhile_suffix _).isInfix

theorem trim_trim (t : Text) : trim (trim t) = trim t := by
  rw [trim, trimStart_eq_self fun _ hc => isBlank_of_head?_trim hc,
    trimEnd_eq_self fun _ hc => isBlank_of_getLast?_trim hc]

/-! ### Lines -/

theorem lines_newline (cs : Text) : lines ('\n' :: cs) = [] :: lines cs := by
  rw [lines]
  · rfl
  · simp

theorem fullLines_newline (cs : Text) : fullLines ('\n' :: cs) = ['\n'] :: fullLines cs := by
  rw [fullLines]
  · rfl
  · simp

/-- A character that ends no line belongs to the first line of the text. -/
theorem lines_cons {c : Char} (hc : isLineBreak c = false) (cs : Text) :
    lines (c :: cs) = (c :: (lines cs).head?.getD []) :: (lines cs).tail := by
  rw [lines, if_neg (by simp [hc])]
  · cases lines cs with
    | nil => rfl
    | cons l ls => rfl
  · rintro cs' rfl _
    exact absurd hc (by decide)

theorem fullLines_cons {c : Char} (hc : isLineBreak c = false) (cs : Text) :
    fullLines (c :: cs) = (c :: (fullLines cs).head?.getD []) :: (fullLines cs).tail := by
  rw [fullLines, if_neg (by simp [hc])]
  · cases fullLines cs with
    | nil => rfl
    | cons l ls => rfl
  · rintro cs' rfl _
    exact absurd hc (by decide)

theorem lines_append_newline {l : Text} (hl : ∀ c ∈ l, isLineBreak c = false) (rest : Text) :
    lines (l ++ '\n' :: rest) = l :: lines rest := by
  induction l with
  | nil => exact lines_newline rest
  | cons c l ih =>
    rw [List.cons_append, lines_cons (hl c (by simp)), ih fun x hx => hl x (by simp [hx])]
    rfl

theorem fullLines_append_newline {l : Text} (hl : ∀ c ∈ l, isLineBreak c = false) (rest : Text) :
    fullLines (l ++ '\n' :: rest) = (l ++ ['\n']) :: fullLines rest := by
  induction l with
  | nil => exact fullLines_newline rest
  | cons c l ih =>
    rw [List.cons_append, fullLines_cons (hl c (by simp)), ih fun x hx => hl x (by simp [hx])]
    rfl

theorem lines_of_no_break {l : Text} (hne : l ≠ []) (hl : ∀ c ∈ l, isLineBreak c = false) :
    lines l = [l] := by
  induction l with
  | nil => exact absurd rfl hne
  | cons c l ih =>
    rw [lines_cons (hl c (by simp))]
    cases l with
    | nil => rfl
    | cons d l =>
      rw [ih (by simp) fun x hx => hl x (by simp [hx])]
      rfl

theorem lines_eq_nil_iff {t : Text} : lines t = [] ↔ t = [] := by
  fun_cases lines t with
  | case1 => simp
  | case2 => simp
  | case3 => simp
  | case4 => simp
  | case5 => simp

/-- A break in front of a text ends a line that is empty. -/
theorem head?_lines_of_break {t : Text} (h : ∀ c, t.head? = some c → isLineBreak c = true) :
    (lines t).head?.getD [] = [] := by
  fun_cases lines t with
  | case1 => rfl
  | case2 => rfl
  | case3 => rfl
  | case4 c _ _ hc => exact absurd (h c rfl) hc
  | case5 c _ _ hc => exact absurd (h c rfl) hc

/-- **A text that begins a line of its own has lines of its own.** -/
theorem lines_append {front t : Text}
    (hfront : ∀ c, front.getLast? = some c → isLineBreak c = true) (ht : t.head? ≠ some '\n') :
    lines (front ++ t) = lines front ++ lines t := by
  fun_induction lines front with
  | case1 => rfl
  | case2 cs ih =>
    rw [List.cons_append, List.cons_append, lines, ih, List.cons_append]
    intro c hc
    exact hfront c (by rw [List.getLast?_cons_cons, List.getLast?_cons, hc]; rfl)
  | case3 c cs hnot hc ih =>
    have hrest : lines (cs ++ t) = lines cs ++ lines t := by
      apply ih
      intro d hd
      exact hfront d (by rw [List.getLast?_cons, hd]; rfl)
    rw [List.cons_append, lines, if_pos hc, hrest, List.cons_append]
    -- a carriage return does not take a line feed with it that was not there
    intro cs' hreturn hfeed
    cases cs with
    | nil => exact ht (by rw [← List.nil_append t, hfeed]; rfl)
    | cons d cs =>
      obtain ⟨rfl, -⟩ := List.cons.inj hfeed
      exact hnot cs hreturn rfl
  | case4 c cs _ hc hnil _ =>
    rw [lines_eq_nil_iff.mp hnil] at hfront
    exact absurd (hfront c rfl) hc
  | case5 c cs _ hc l ls hlines ih =>
    have hrest : lines (cs ++ t) = lines cs ++ lines t := by
      apply ih
      intro d hd
      exact hfront d (by rw [List.getLast?_cons, hd]; rfl)
    rw [List.cons_append, lines_cons (by simpa using hc), hrest, hlines]
    rfl

/-- **A line ends where a break stands behind it.** -/
theorem lines_append_break {l behind : Text} (hne : l ≠ []) (hl : ∀ c ∈ l, isLineBreak c = false)
    (hbehind : ∀ c, behind.head? = some c → isLineBreak c = true) :
    lines (l ++ behind) = l :: (lines behind).tail := by
  induction l with
  | nil => exact absurd rfl hne
  | cons c l ih =>
    obtain ⟨hc, hl⟩ := List.forall_mem_cons.mp hl
    rw [List.cons_append, lines_cons hc]
    cases l with
    | nil => rw [List.nil_append, head?_lines_of_break hbehind]
    | cons d l =>
      rw [ih (by simp) hl]
      rfl

theorem fullLines_of_no_break {l : Text} (hne : l ≠ []) (hl : ∀ c ∈ l, isLineBreak c = false) :
    fullLines l = [l] := by
  induction l with
  | nil => exact absurd rfl hne
  | cons c l ih =>
    rw [fullLines_cons (hl c (by simp))]
    cases l with
    | nil => rfl
    | cons d l =>
      rw [ih (by simp) fun x hx => hl x (by simp [hx])]
      rfl

/-- A text that is not empty is one line, or a line with its break and the lines behind it. -/
theorem fullLines_cases (t : Text) :
    t = [] ∨ fullLines t = [t] ∨
      ∃ l c rest, isLineBreak c = true ∧ t = l ++ c :: rest ∧
        fullLines t = (l ++ [c]) :: fullLines rest := by
  fun_induction fullLines t with
  | case1 => exact Or.inl rfl
  | case2 cs _ => exact Or.inr (Or.inr ⟨['\r'], '\n', cs, by decide, rfl, rfl⟩)
  | case3 c cs _ hc _ => exact Or.inr (Or.inr ⟨[], c, cs, hc, rfl, rfl⟩)
  | case4 c cs _ _ hnil _ =>
    have hcs := flatten_fullLines cs
    rw [hnil] at hcs
    rw [← hcs]
    exact Or.inr (Or.inl rfl)
  | case5 c cs _ _ l ls hcs ih =>
    rcases ih with rfl | hone | ⟨l', d, rest, hd, hrest, hlines⟩
    · exact absurd hcs (by simp [fullLines])
    · obtain ⟨rfl, rfl⟩ := List.cons.inj (hcs.symm.trans hone)
      exact Or.inr (Or.inl rfl)
    · obtain ⟨rfl, rfl⟩ := List.cons.inj (hcs.symm.trans hlines)
      exact Or.inr (Or.inr ⟨c :: l', d, rest, hd, by rw [hrest]; rfl, rfl⟩)

/-- Induction along the lines of a text: it has no line feed, or a line in front of its first one
and a text behind it. -/
theorem induction_on_lines {motive : Text → Prop} (last : ∀ l : Text, '\n' ∉ l → motive l)
    (more : ∀ l t : Text, '\n' ∉ l → motive t → motive (l ++ '\n' :: t)) (t : Text) : motive t := by
  induction hn : t.length using Nat.strong_induction_on generalizing t with
  | _ n ih =>
    by_cases hmem : '\n' ∈ t
    · obtain ⟨l, rest, rfl, hl⟩ := List.eq_append_cons_of_mem hmem
      refine more l rest hl (ih rest.length ?_ rest rfl)
      subst hn
      rw [List.length_append, List.length_cons]
      omega
    · exact last t hmem

/-! ### First positions -/

/-- The mark stands at no position from `n` up to `pos`. -/
def Lacks (mark t : Text) (n pos : Nat) : Prop := ∀ i, n ≤ i → i < pos → ¬ mark <+: t.drop i

/-- Of the positions from `n` on, `i` is the first where the mark stands. -/
structure FirstAt (mark t : Text) (n i : Nat) : Prop where
  le : n ≤ i
  stands : mark <+: t.drop i
  lacks : Lacks mark t n i

instance (mark t : Text) (n pos : Nat) : Decidable (Lacks mark t n pos) :=
  decidable_of_iff (∀ i < pos, n ≤ i → ¬ mark <+: t.drop i)
    ⟨fun h i hle hlt => h i hlt hle, fun h i hlt hle => h i hle hlt⟩

instance (mark t : Text) (n i : Nat) : Decidable (FirstAt mark t n i) :=
  decidable_of_iff (n ≤ i ∧ mark <+: t.drop i ∧ Lacks mark t n i)
    ⟨fun h => ⟨h.1, h.2.1, h.2.2⟩, fun h => ⟨h.le, h.stands, h.lacks⟩⟩

section

variable {mark t : Text} {n pos : Nat}

theorem lacks_self (mark t : Text) (n : Nat) : Lacks mark t n n := by
  intro i hle hlt
  omega

theorem Lacks.step (h : Lacks mark t n pos) (hpos : ¬ mark <+: t.drop pos) :
    Lacks mark t n (pos + 1) := by
  intro i hle hlt
  by_cases hi : i = pos
  · rwa [hi]
  · exact h i hle (by omega)

/-- A mark that was not found up to the end of the text stands nowhere. -/
theorem Lacks.of_end (h : Lacks mark t n pos) (hne : mark ≠ []) (hend : t.drop pos = []) {i : Nat}
    (hle : n ≤ i) : ¬ mark <+: t.drop i := by
  by_cases hi : i < pos
  · exact h i hle hi
  · have hdrop : t.drop i = [] := by
      rw [show i = pos + (i - pos) by omega, ← List.drop_drop, hend, List.drop_nil]
    rw [hdrop, List.prefix_nil]
    exact hne

/-- The first position is not behind any other. -/
theorem FirstAt.le_of_stands {i j : Nat} (h : FirstAt mark t n i) (hle : n ≤ j)
    (hj : mark <+: t.drop j) : i ≤ j := by
  apply Nat.le_of_not_lt
  intro hlt
  exact h.lacks j hle hlt hj

theorem FirstAt.unique {i j : Nat} (hi : FirstAt mark t n i) (hj : FirstAt mark t n j) : i = j := by
  have hij := hi.le_of_stands hj.le hj.stands
  have hji := hj.le_of_stands hi.le hi.stands
  omega

/-- The first position is the first from any later place on that is not behind it. -/
theorem FirstAt.of_le {m i : Nat} (h : FirstAt mark t n i) (hm : n ≤ m) (hle : m ≤ i) :
    FirstAt mark t m i := by
  refine ⟨hle, h.stands, ?_⟩
  intro k hk
  exact h.lacks k (by omega)

/-- A mark does not stand across the end of the text. -/
theorem add_length_le {i : Nat} (hne : mark ≠ []) (h : mark <+: t.drop i) :
    i + mark.length ≤ t.length := by
  have hle := h.length_le
  have hpos := List.length_pos_iff.mpr hne
  rw [List.length_drop] at hle
  omega

theorem exists_firstAt {i : Nat} (hle : n ≤ i) (hi : mark <+: t.drop i) :
    ∃ j, FirstAt mark t n j := by
  induction i using Nat.strong_induction_on with
  | _ i ih =>
    by_cases hearlier : ∃ k, n ≤ k ∧ k < i ∧ mark <+: t.drop k
    · obtain ⟨k, hk, hlt, hstands⟩ := hearlier
      exact ih k hlt hk hstands
    · refine ⟨i, hle, hi, ?_⟩
      intro k hk hlt hstands
      exact hearlier ⟨k, hk, hlt, hstands⟩

end

end Text

/-! ### Spans -/

/-- The text of a span is what stands between its ends. -/
theorem Span.text_append (a b c : Text) {s : Span} (hstart : s.start = a.length)
    (hstop : s.stop = a.length + b.length) : s.text (a ++ (b ++ c)) = b := by
  rw [Span.text, hstart, hstop, List.drop_left, Nat.add_sub_cancel_left, List.take_left]

/-- What a span covers comes apart where the span does. -/
theorem Span.text_split (t : Text) {a b c : Nat} (hab : a ≤ b) (hbc : b ≤ c) :
    Span.text t ⟨a, c⟩ = Span.text t ⟨a, b⟩ ++ Span.text t ⟨b, c⟩ := by
  show (t.drop a).take (c - a) = (t.drop a).take (b - a) ++ (t.drop b).take (c - b)
  rw [show c - a = (b - a) + (c - b) by omega, List.take_add, List.drop_drop,
    show a + (b - a) = b by omega]

theorem Span.text_to_end (t : Text) (a : Nat) : Span.text t ⟨a, t.length⟩ = t.drop a := by
  show (t.drop a).take (t.length - a) = t.drop a
  rw [← List.length_drop, List.take_length]

theorem Span.getElem?_text (t : Text) (s : Span) {i : Nat} (h : i < s.stop - s.start) :
    (s.text t)[i]? = t[s.start + i]? := by
  rw [Span.text, List.getElem?_take_of_lt h, List.getElem?_drop]

end ScriptDocs
