import ScriptDocs.Comment.Interior
import ScriptDocs.Proofs.Comment.Section
import ScriptDocs.Proofs.Comment.Span

/-!
# Writing comments

A comment is written from its sections: a section is its description and its flags on lines of
their own, an empty line stands between two sections, and every line of the whole gets a star in
front.  Reading such a block gives the sections back.

The readers undo the steps one after the other, and each takes blanks away in its own manner, so
what passes through them all is a text whose ends and line beginnings no reader touches.  `Tight`
says this of a text, and joining tight texts by line feeds keeps it (`Tight.join`).

* `spans_block`: the block is one comment.
* `interior_block`: the stars come off, and the blanks at the very end with them.
* `sections_written`: empty lines cut where the sections were joined.
* `ofText_written`: a section is taken apart into what it was written from.
-/

namespace ScriptDocs

open Text

/-! ### The writer -/

def Flag.written (f : Flag) : Text := f.name ++ ' ' :: f.text

namespace Comment

/-- What a section is written from: the description, unless it is empty, and the flags. -/
def Section.pieces (s : Section) : List Text :=
  (if s.description.isEmpty then [] else [s.description]) ++ s.flags.map Flag.written

def Section.written (s : Section) : Text := List.intercalate ['\n'] s.pieces

/-- Sections as they are written, with empty lines between them. -/
def written (ss : List Section) : Text := List.intercalate ['\n', '\n'] (ss.map Section.written)

/-- The comment with the given text: each line behind a star. -/
def block (t : Text) : Text :=
  "/**\n".toList ++ (lines t).flatMap (fun l => " * ".toList ++ l ++ ['\n']) ++ " */".toList

/-- A text that fits into a comment: no empty line in it, nothing that would end the comment, no
line breaks but line feeds, and no line that begins with a space. -/
structure Plain (t : Text) : Prop where
  no_empty_line : occurs "\n\n".toList t = false
  no_close : occurs "*/".toList t = false
  breaks : ∀ c ∈ t, isLineBreak c = true → c = '\n'
  no_indent : ∀ l ∈ lines t, l.head? ≠ some ' '

theorem plain_iff {t : Text} :
    Plain t ↔ (!occurs "\n\n".toList t && !occurs "*/".toList t &&
      (t.all fun c => !isLineBreak c || c = '\n') &&
      (lines t).all fun l => l.head? ≠ some ' ') = true := by
  simp only [Bool.and_eq_true, Bool.not_eq_true', List.all_eq_true, Bool.or_eq_true,
    decide_eq_true_eq]
  constructor
  · rintro ⟨hempty, hclose, hbreaks, hindent⟩
    refine ⟨⟨⟨hempty, hclose⟩, fun c hc => ?_⟩, hindent⟩
    cases hb : isLineBreak c with
    | false => exact Or.inl rfl
    | true => exact Or.inr (hbreaks c hc hb)
  · rintro ⟨⟨⟨hempty, hclose⟩, hbreaks⟩, hindent⟩
    refine ⟨hempty, hclose, fun c hc hb => ?_, hindent⟩
    rcases hbreaks c hc with hnot | hfeed
    · rw [hb] at hnot
      exact absurd hnot (by decide)
    · exact hfeed

instance (t : Text) : Decidable (Plain t) := decidable_of_iff _ plain_iff.symm

end Comment

/-- A flag that can be written: an at sign and a word, and a text without blanks at its ends in
which no flag can be read. -/
structure Flag.Writable (f : Flag) : Prop where
  name_eq : ∃ word, word ≠ [] ∧ (∀ c ∈ word, isWord c = true) ∧ f.name = '@' :: word
  trimmed : trim f.text = f.text
  no_flag : Comment.flagMarks (' ' :: f.text) = []
  plain : Comment.Plain f.text

namespace Comment

/-- A section that can be written: not empty, with a description that neither begins nor ends with
a blank and in which no flag can be read. -/
structure Section.Writable (s : Section) : Prop where
  not_empty : s.description ≠ [] ∨ s.flags ≠ []
  begins : ∀ c, s.description.head? = some c → isBlank c = false
  ends : ∀ c, s.description.getLast? = some c → isBlank c = false
  no_flag : flagMarks s.description = []
  plain : Plain s.description
  flags : ∀ f ∈ s.flags, f.Writable

/-! ### Tight texts -/

/-- A text that no reader of a comment changes, except for spaces at its very end: it begins with
a character that is not blank, has another one with at most spaces behind it, no line break but the
line feed, no line but perhaps the first that begins with a space, and no end of a comment. -/
structure Tight (t : Text) : Prop where
  breaks : ∀ c ∈ t, isLineBreak c = true → c = '\n'
  no_close : ¬ ['*', '/'] <:+: t
  no_indent : ¬ ['\n', ' '] <:+: t
  begins : ∃ c cs, t = c :: cs ∧ isBlank c = false
  ends : ∃ a c b, t = a ++ c :: b ∧ isBlank c = false ∧ ∀ x ∈ b, x = ' '

theorem Tight.head?_ne {t : Text} (h : Tight t) {c : Char} (hc : isBlank c = true) :
    t.head? ≠ some c := by
  obtain ⟨d, cs, rfl, hd⟩ := h.begins
  rintro ⟨⟩
  rw [hc] at hd
  exact absurd hd (by simp)

theorem Tight.getLast?_ne {t : Text} (h : Tight t) : t.getLast? ≠ some '\n' := by
  obtain ⟨a, c, b, rfl, hc, hb⟩ := h.ends
  intro hlast
  rw [List.getLast?_append_of_ne_nil _ (by simp)] at hlast
  cases b with
  | nil =>
    simp only [List.getLast?_singleton, Option.some.injEq] at hlast
    rw [hlast] at hc
    exact absurd hc (by decide)
  | cons x b =>
    rw [List.getLast?_cons_cons] at hlast
    exact absurd (hb '\n' (List.mem_of_getLast? hlast)) (by decide)

/-- **Tight texts joined by line feeds are tight.** -/
theorem Tight.join {a b feeds : Text} (ha : Tight a) (hb : Tight b) (hne : feeds ≠ [])
    (hfeeds : ∀ c ∈ feeds, c = '\n') : Tight (a ++ (feeds ++ b)) := by
  have hmem : ∀ {x : Char}, x ≠ '\n' → x ∉ feeds := fun hx hm => hx (hfeeds _ hm)
  have hhead : ∀ {x : Char}, (feeds ++ b).head? = some x → x = '\n' := by
    intro x hx
    rw [List.head?_append_of_ne_nil _ hne] at hx
    exact hfeeds x (List.mem_of_head? hx)
  refine ⟨?_, ?_, ?_, ?_, ?_⟩
  · intro c hc hbreak
    rcases List.mem_append.mp hc with hc | hc
    · exact ha.breaks c hc hbreak
    · rcases List.mem_append.mp hc with hc | hc
      · exact hfeeds c hc
      · exact hb.breaks c hc hbreak
  · intro h
    rcases pair_infix_append h with h | h | ⟨_, h⟩
    · exact ha.no_close h
    · rcases pair_infix_append h with h | h | ⟨h, _⟩
      · exact not_pair_infix_of_notMem (hmem (by decide)) h
      · exact hb.no_close h
      · exact absurd (hfeeds _ (List.mem_of_getLast? h)) (by decide)
    · exact absurd (hhead h) (by decide)
  · intro h
    rcases pair_infix_append h with h | h | ⟨_, h⟩
    · exact ha.no_indent h
    · rcases pair_infix_append h with h | h | ⟨_, h⟩
      · exact absurd (hfeeds ' ' (h.subset (by simp))) (by decide)
      · exact hb.no_indent h
      · exact hb.head?_ne (by decide) h
    · exact absurd (hhead h) (by decide)
  · obtain ⟨c, cs, rfl, hc⟩ := ha.begins
    exact ⟨c, cs ++ (feeds ++ b), rfl, hc⟩
  · obtain ⟨a', c, b', rfl, hc, hb'⟩ := hb.ends
    exact ⟨a ++ (feeds ++ a'), c, b', by simp, hc, hb'⟩

theorem tight_intercalate {feeds : Text} (hne : feeds ≠ []) (hfeeds : ∀ c ∈ feeds, c = '\n')
    {ts : List Text} (hts : ts ≠ []) (h : ∀ t ∈ ts, Tight t) :
    Tight (List.intercalate feeds ts) := by
  induction ts with
  | nil => exact absurd rfl hts
  | cons t ts ih =>
    cases ts with
    | nil =>
      rw [List.intercalate_singleton]
      exact h t (by simp)
    | cons u us =>
      rw [List.intercalate_cons_cons, List.append_assoc]
      exact (h t (by simp)).join (ih (by simp) fun x hx => h x (by simp [hx])) hne hfeeds

/-- Trimming takes off the spaces at the end. -/
theorem Tight.exists_trimEnd {t : Text} (h : Tight t) :
    ∃ b, t = trimEnd t ++ b ∧ (∀ x ∈ b, x = ' ') ∧ ∃ c, (trimEnd t).getLast? = some c ∧
      isBlank c = false := by
  obtain ⟨a, c, b, rfl, hc, hb⟩ := h.ends
  have htrim : trimEnd (a ++ c :: b) = a ++ [c] := by
    rw [show a ++ c :: b = (a ++ [c]) ++ b by simp,
      trimEnd_append_of_blank (fun x hx => by rw [hb x hx]; decide), trimEnd_eq_self]
    intro d hd
    simp only [List.getLast?_append, List.getLast?_singleton, Option.some_or,
      Option.some.injEq] at hd
    rw [← hd, hc]
  refine ⟨b, by rw [htrim]; simp, hb, c, by rw [htrim]; simp, hc⟩

/-! ### What is written is tight -/

/-- A space behind a line feed begins a line, and not the first one. -/
theorem exists_indented_line {a b : Text} (ha : ∀ c ∈ a, isLineBreak c = true → c = '\n') :
    ∃ l ∈ (lines (a ++ '\n' :: ' ' :: b)).tail, l.head? = some ' ' := by
  induction a with
  | nil =>
    rw [List.nil_append, lines_newline, List.tail_cons, lines_cons (by decide)]
    exact ⟨_, List.mem_cons_self, rfl⟩
  | cons c a ih =>
    obtain ⟨l, hl, hhead⟩ := ih fun x hx => ha x (by simp [hx])
    refine ⟨l, ?_, hhead⟩
    rw [List.cons_append]
    by_cases hc : isLineBreak c = true
    · obtain rfl := ha c (by simp) hc
      rw [lines_newline, List.tail_cons]
      exact List.mem_of_mem_tail hl
    · rw [lines_cons (by simpa using hc), List.tail_cons]
      exact hl

theorem Plain.not_empty_line {t : Text} (h : Plain t) : ¬ ['\n', '\n'] <:+: t := by
  rw [← occurs_iff_infix, Bool.not_eq_true]
  exact h.no_empty_line

theorem Plain.not_close {t : Text} (h : Plain t) : ¬ ['*', '/'] <:+: t := by
  rw [← occurs_iff_infix, Bool.not_eq_true]
  exact h.no_close

theorem Plain.not_indent {t : Text} (h : Plain t) : ¬ ['\n', ' '] <:+: t := by
  rintro ⟨a, b, rfl⟩
  rw [List.append_assoc] at h
  obtain ⟨l, hl, hhead⟩ := exists_indented_line (b := b) (a := a)
    fun c hc => h.breaks c (by simp [hc])
  exact h.no_indent l (List.mem_of_mem_tail hl) hhead

/-- A plain text without blanks at its ends is tight. -/
theorem Plain.tight {t : Text} (h : Plain t) (hne : t ≠ [])
    (hbegins : ∀ c, t.head? = some c → isBlank c = false)
    (hends : ∀ c, t.getLast? = some c → isBlank c = false) : Tight t := by
  refine ⟨h.breaks, h.not_close, h.not_indent, ?_, ?_⟩
  · obtain ⟨c, cs, rfl⟩ := List.exists_cons_of_ne_nil hne
    exact ⟨c, cs, rfl, hbegins c rfl⟩
  · exact ⟨t.dropLast, t.getLast hne, [], (List.dropLast_append_getLast hne).symm,
      hends _ (List.getLast?_eq_some_getLast hne), by simp⟩

/-- A text that is tight and has no empty line in it. -/
def Gapless (t : Text) : Prop := Tight t ∧ ¬ ['\n', '\n'] <:+: t

theorem Gapless.join {a b : Text} (ha : Gapless a) (hb : Gapless b) :
    Gapless (a ++ (['\n'] ++ b)) := by
  refine ⟨ha.1.join hb.1 (by simp) (by simp), ?_⟩
  intro h
  rcases pair_infix_append h with h | h | ⟨h, _⟩
  · exact ha.2 h
  · rcases pair_infix_append h with h | h | ⟨_, h⟩
    · exact absurd h (by decide)
    · exact hb.2 h
    · exact hb.1.head?_ne (by decide) h
  · exact ha.1.getLast?_ne h

theorem gapless_intercalate {ts : List Text} (hts : ts ≠ []) (h : ∀ t ∈ ts, Gapless t) :
    Gapless (List.intercalate ['\n'] ts) := by
  induction ts with
  | nil => exact absurd rfl hts
  | cons t ts ih =>
    cases ts with
    | nil =>
      rw [List.intercalate_singleton]
      exact h t (by simp)
    | cons u us =>
      rw [List.intercalate_cons_cons, List.append_assoc]
      exact (h t (by simp)).join (ih (by simp) fun x hx => h x (by simp [hx]))

/-- No line break is part of a word. -/
theorem isLineBreak_of_isWord {c : Char} (h : isWord c = true) : isLineBreak c = false := by
  have hblank := isBlank_of_isWord h
  simp only [isBlank, isLineBreak, Bool.or_eq_false_iff, Bool.and_eq_false_iff,
    decide_eq_false_iff_not, beq_eq_false_iff_ne] at hblank ⊢
  omega

/-- **A flag is written as a tight text without empty lines.** -/
theorem gapless_flag {f : Flag} (h : f.Writable) : Gapless f.written := by
  obtain ⟨word, hne, hword, hname⟩ := h.name_eq
  have hnotMem : ∀ {x : Char}, x ≠ '@' → x ≠ ' ' → isWord x = false →
      x ∉ f.name ++ [' '] := by
    intro x hat hspace hw hmem
    rw [hname] at hmem
    have hmem : x = '@' ∨ x ∈ word ∨ x = ' ' := by simpa using hmem
    rcases hmem with hx | hx | hx
    · exact hat hx
    · rw [hword x hx] at hw
      exact absurd hw (by simp)
    · exact hspace hx
  have hsplit : f.written = (f.name ++ [' ']) ++ f.text := by simp [Flag.written]
  have hpair : ∀ {x y : Char}, x ∉ f.name ++ [' '] → ¬ [x, y] <:+: f.text →
      ¬ [x, y] <:+: f.written := by
    intro x y hx htext hi
    rw [hsplit] at hi
    rcases pair_infix_append hi with hi | hi | ⟨hi, _⟩
    · exact not_pair_infix_of_notMem hx hi
    · exact htext hi
    · exact hx (List.mem_of_getLast? hi)
  have hfeed : '\n' ∉ f.name ++ [' '] := hnotMem (by decide) (by decide) (by decide)
  have hstar : '*' ∉ f.name ++ [' '] := hnotMem (by decide) (by decide) (by decide)
  refine ⟨⟨?_, ?_, ?_, ?_, ?_⟩, ?_⟩
  · intro c hc hbreak
    rw [hsplit] at hc
    rcases List.mem_append.mp hc with hc | hc
    · have hw : isWord c = false := by
        by_contra hw
        rw [isLineBreak_of_isWord ((Bool.not_eq_false _).mp hw)] at hbreak
        exact absurd hbreak (by simp)
      have hat : c ≠ '@' := fun h => absurd (h ▸ hbreak) (by decide)
      have hspace : c ≠ ' ' := fun h => absurd (h ▸ hbreak) (by decide)
      exact absurd hc (hnotMem hat hspace hw)
    · exact h.plain.breaks c hc hbreak
  · exact hpair hstar h.plain.not_close
  · exact hpair hfeed h.plain.not_indent
  · exact ⟨'@', word ++ ' ' :: f.text, by simp [Flag.written, hname], by decide⟩
  · -- The last character that is not blank is that of the text, or else that of the name.
    by_cases htext : f.text = []
    · refine ⟨'@' :: word.dropLast, word.getLast hne, [' '], ?_, ?_, by simp⟩
      · rw [Flag.written, hname, htext]
        nth_rewrite 1 [← List.dropLast_append_getLast hne]
        simp
      · exact isBlank_of_isWord (hword _ (List.getLast_mem hne))
    · refine ⟨f.name ++ ' ' :: f.text.dropLast, f.text.getLast htext, [], ?_, ?_, by simp⟩
      · rw [Flag.written]
        nth_rewrite 1 [← List.dropLast_append_getLast htext]
        simp
      · apply isBlank_of_getLast?_trim (t := f.text)
        rw [h.trimmed, List.getLast?_eq_some_getLast htext]
  · exact hpair hfeed h.plain.not_empty_line

theorem Section.Writable.pieces_ne_nil {s : Section} (h : s.Writable) : s.pieces ≠ [] := by
  rcases h.not_empty with hd | hf
  · simp [Section.pieces, hd]
  · simp [Section.pieces, hf]

/-- **A section is written as a tight text without empty lines.** -/
theorem gapless_written {s : Section} (h : s.Writable) : Gapless s.written := by
  refine gapless_intercalate h.pieces_ne_nil ?_
  intro t ht
  rcases List.mem_append.mp ht with ht | ht
  · split at ht
    · simp at ht
    · rename_i hd
      rw [List.isEmpty_iff] at hd
      obtain rfl := List.mem_singleton.mp ht
      exact ⟨h.plain.tight hd h.begins h.ends, h.plain.not_empty_line⟩
  · obtain ⟨f, hf, rfl⟩ := List.mem_map.mp ht
    exact gapless_flag (h.flags f hf)

theorem tight_written {ss : List Section} (hne : ss ≠ []) (h : ∀ s ∈ ss, s.Writable) :
    Tight (written ss) := by
  refine tight_intercalate (by simp) (by simp) (by simpa using hne) ?_
  intro t ht
  obtain ⟨s, hs, rfl⟩ := List.mem_map.mp ht
  exact (gapless_written (h s hs)).1

/-! ### The block as one text -/

/-- A character of a comment's text as it stands in the block: a line feed takes the star of the
next line with it. -/
def starred (c : Char) : Text := if c = '\n' then "\n * ".toList else [c]

theorem starred_of_ne {c : Char} (h : c ≠ '\n') : starred c = [c] := if_neg h

theorem flatMap_starred {t : Text} (h : '\n' ∉ t) : t.flatMap starred = t := by
  induction t with
  | nil => rfl
  | cons c cs ih =>
    have hc : c ≠ '\n' := fun he => h (by simp [he])
    rw [List.flatMap_cons, starred_of_ne hc, ih fun hm => h (by simp [hm])]
    rfl

theorem flatMap_lines {t : Text} (hne : t ≠ []) (hlast : t.getLast? ≠ some '\n')
    (hbreaks : ∀ c ∈ t, isLineBreak c = true → c = '\n') :
    (lines t).flatMap (fun l => " * ".toList ++ l ++ ['\n']) =
      " * ".toList ++ t.flatMap starred ++ ['\n'] := by
  induction t using induction_on_lines with
  | last l hl =>
    have hno : ∀ c ∈ l, isLineBreak c = false := fun c hc => by
      by_contra hb
      exact hl (hbreaks c hc (by simpa using hb) ▸ hc)
    rw [lines_of_no_break hne hno, flatMap_starred hl]
    simp
  | more l t hl ih =>
    have hno : ∀ c ∈ l, isLineBreak c = false := fun c hc => by
      by_contra hb
      exact hl (hbreaks c (by simp [hc]) (by simpa using hb) ▸ hc)
    have ht : t ≠ [] := by
      rintro rfl
      simp at hlast
    have hlast' : t.getLast? ≠ some '\n' := by
      rwa [List.getLast?_append_of_ne_nil _ (by simp), List.getLast?_cons_of_ne_nil ht] at hlast
    rw [lines_append_newline hno, List.flatMap_cons,
      ih ht hlast' fun c hc => hbreaks c (by simp [hc]), List.flatMap_append, List.flatMap_cons,
      flatMap_starred hl]
    simp [starred]

def blockBody (t : Text) : Text := "\n * ".toList ++ t.flatMap starred ++ "\n ".toList

theorem block_eq {t : Text} (ht : Tight t) :
    block t = "/**".toList ++ (blockBody t ++ "*/".toList) := by
  have hne : t ≠ [] := by
    obtain ⟨c, cs, rfl, _⟩ := ht.begins
    simp
  rw [block, flatMap_lines hne ht.getLast?_ne ht.breaks, blockBody]
  simp

/-! ### The block is one comment -/

/-- Inside a comment nothing is found as long as no star has a slash behind it. -/
theorem spansFrom_starred {t rest : Text} (ht : ¬ ['*', '/'] <:+: t)
    (hlast : t.getLast? = some '*' → rest.head? ≠ some '/') (start pos : Nat) :
    spansFrom (some start) pos (t.flatMap starred ++ rest) =
      spansFrom (some start) (pos + (t.flatMap starred).length) rest := by
  induction t generalizing pos with
  | nil => rfl
  | cons c cs ih =>
    have hcs : ¬ ['*', '/'] <:+: cs := fun h => ht (h.trans (List.suffix_cons c cs).isInfix)
    have hlast' : cs.getLast? = some '*' → rest.head? ≠ some '/' := by
      intro hl
      apply hlast
      cases cs with
      | nil => simp at hl
      | cons d ds => rwa [List.getLast?_cons_cons]
    rw [List.flatMap_cons, List.append_assoc, List.length_append]
    by_cases hc : c = '\n'
    · subst hc
      show spansFrom (some start) pos
        ('\n' :: ' ' :: '*' :: ' ' :: (cs.flatMap starred ++ rest)) = _
      rw [spansFrom, spansFrom, spansFrom, spansFrom, ih hcs hlast']
      · congr 1
        show pos + 1 + 1 + 1 + 1 + _ = pos + (4 + _)
        omega
      all_goals simp
    · rw [starred_of_ne hc, List.singleton_append, spansFrom, ih hcs hlast']
      · congr 1
        show pos + 1 + _ = pos + (1 + _)
        omega
      · -- A star here has no slash behind it, neither in the text nor at its end.
        rintro cs' rfl hslash
        cases cs with
        | nil =>
          refine hlast rfl ?_
          rw [show rest = '/' :: cs' from hslash]
          rfl
        | cons d ds =>
          by_cases hd : d = '\n'
          · subst hd
            simp [starred] at hslash
          · rw [List.flatMap_cons, starred_of_ne hd] at hslash
            simp only [List.cons_append, List.cons.injEq] at hslash
            obtain ⟨rfl, _⟩ := hslash
            exact ht (List.IsPrefix.isInfix ⟨ds, rfl⟩)

/-- **The block is one comment**, from its first character to its last. -/
theorem spans_block {t : Text} (ht : Tight t) : spans (block t) = [⟨0, (block t).length⟩] := by
  have hbody : blockBody t ++ "*/".toList =
      ('\n' :: t).flatMap starred ++ ['\n', ' ', '*', '/'] := by
    simp [blockBody, starred]
  have hclose : ¬ ['*', '/'] <:+: '\n' :: t := by
    intro h
    rcases List.infix_cons_iff.mp h with h | h
    · obtain ⟨rest, hrest⟩ := h
      simp at hrest
    · exact ht.no_close h
  rw [block_eq ht, hbody]
  show spansFrom (some 0) 3 (('\n' :: t).flatMap starred ++ ['\n', ' ', '*', '/']) = _
  rw [spansFrom_starred hclose (by simp)]
  rw [spansFrom, spansFrom, spansFrom, spansFrom]
  · simp
    omega
  all_goals simp

/-! ### The stars come off -/

theorem lineText_starred {bs l : Text} (hbs : ∀ c ∈ bs, isBlank c = true)
    (hl : l.head? ≠ some ' ') : lineText (bs ++ '*' :: ' ' :: l) = l := by
  have htrim : trimStart (bs ++ '*' :: ' ' :: l) = '*' :: ' ' :: l := by
    rw [trimStart_append_of_blank hbs]
    exact trimStart_eq_self (by rintro c ⟨⟩; decide)
  have hdrop : l.dropWhile (· = ' ') = l := by
    cases l with
    | nil => rfl
    | cons c cs =>
      rw [List.dropWhile_cons_of_neg]
      simpa using hl
  rw [lineText, htrim]
  simpa using hdrop

/-- **The lines of a block carry its text.**  The first line has lost the blank in front of its
star, the others have not. -/
theorem flatMap_lineText {t : Text} (hbreaks : ∀ c ∈ t, isLineBreak c = true → c = '\n')
    (hindent : ¬ ['\n', ' '] <:+: t) (hhead : t.head? ≠ some ' ') (bs : Text)
    (hbs : ∀ c ∈ bs, isBlank c = true ∧ isLineBreak c = false) :
    (fullLines (bs ++ '*' :: ' ' :: t.flatMap starred)).flatMap lineText = t := by
  have hstar : ∀ l : Text, '\n' ∉ l → (∀ c ∈ l, isLineBreak c = true → c = '\n') →
      ∀ bs' : Text, (∀ c ∈ bs', isBlank c = true ∧ isLineBreak c = false) →
      ∀ c ∈ bs' ++ '*' :: ' ' :: l, isLineBreak c = false := by
    intro l hl hb bs' hbs' c hc
    simp only [List.mem_append, List.mem_cons] at hc
    rcases hc with hc | rfl | rfl | hc
    · exact (hbs' c hc).2
    · decide
    · decide
    · by_contra hbreak
      exact hl (hb c hc (by simpa using hbreak) ▸ hc)
  induction t using induction_on_lines generalizing bs with
  | last l hl =>
    rw [flatMap_starred hl, fullLines_of_no_break (by simp) (hstar l hl hbreaks bs hbs)]
    simpa using lineText_starred (fun c hc => (hbs c hc).1) hhead
  | more l t hl ih =>
    have hsplit : bs ++ '*' :: ' ' :: (l ++ '\n' :: t).flatMap starred =
        (bs ++ '*' :: ' ' :: l) ++ '\n' :: ([' '] ++ '*' :: ' ' :: t.flatMap starred) := by
      rw [List.flatMap_append, List.flatMap_cons, flatMap_starred hl]
      simp [starred]
    have hfirst : (l ++ ['\n']).head? ≠ some ' ' := by
      cases l with
      | nil => decide
      | cons c l => exact hhead
    have hindent' : ¬ ['\n', ' '] <:+: t := fun h =>
      hindent (h.trans ⟨l ++ ['\n'], [], by simp⟩)
    have hhead' : t.head? ≠ some ' ' := by
      intro h
      obtain ⟨rest, rfl⟩ := List.head?_eq_some_iff.mp h
      exact hindent ⟨l, rest, by simp⟩
    rw [hsplit, fullLines_append_newline
      (hstar l hl (fun c hc => hbreaks c (by simp [hc])) bs hbs), List.flatMap_cons,
      ih (fun c hc => hbreaks c (by simp [hc])) hindent' hhead' [' ']
        (by simp only [List.mem_singleton, forall_eq]; decide)]
    rw [show bs ++ '*' :: ' ' :: l ++ ['\n'] = bs ++ '*' :: ' ' :: (l ++ ['\n']) by simp,
      lineText_starred (fun c hc => (hbs c hc).1) hfirst]
    simp

/-- The blanks around the body of a block come off, and so do the spaces at the text's end. -/
theorem trim_blockBody {t : Text} (ht : Tight t) :
    trim (blockBody t) = '*' :: ' ' :: (trimEnd t).flatMap starred := by
  obtain ⟨b, he, hb, c, hlast, hc⟩ := ht.exists_trimEnd
  have hbody : blockBody t =
      ['\n', ' '] ++ (('*' :: ' ' :: (trimEnd t).flatMap starred) ++ (b ++ ['\n', ' '])) := by
    have hb' : b.flatMap starred = b :=
      flatMap_starred fun hm => absurd (hb _ hm) (by decide)
    rw [blockBody]
    nth_rewrite 1 [he]
    rw [List.flatMap_append, hb']
    simp
  have hend : ('*' :: ' ' :: (trimEnd t).flatMap starred).getLast? = some c := by
    obtain ⟨u, hu⟩ := List.getLast?_eq_some_iff.mp hlast
    have hne : c ≠ '\n' := by
      rintro rfl
      exact absurd hc (by decide)
    rw [hu, List.flatMap_append, List.flatMap_singleton, starred_of_ne hne]
    rw [← List.cons_append, ← List.cons_append, List.getLast?_append]
    rfl
  rw [trim, hbody, trimStart_append_of_blank (List.all_eq_true.mp (by decide)),
    trimStart_eq_self (by rintro d ⟨⟩; decide),
    trimEnd_append_of_blank, trimEnd_eq_self]
  · intro d hd
    rw [hend] at hd
    rw [← Option.some.inj hd, hc]
  · intro x hx
    rcases List.mem_append.mp hx with hx | hx
    · rw [hb x hx]
      decide
    · exact List.all_eq_true.mp (by decide : ['\n', ' '].all isBlank = true) x hx

theorem before?_append (a e : Text) : before? e (a ++ e) = some a := by
  have h : e.reverse.isPrefixOf? (a ++ e).reverse = some a.reverse := by
    rw [List.reverse_append, List.isPrefixOf?_eq_some_iff_append_eq]
  rw [before?, h]
  simp

/-- What is read of a comment that has both its marks. -/
theorem interior_of_trim {comment body : Text}
    (h : trim comment = "/**".toList ++ (body ++ "*/".toList)) :
    interior comment = .ok ((fullLines (trim body)).flatMap lineText) := by
  have hopen : "/**".toList.isPrefixOf? (trim comment) = some (body ++ "*/".toList) := by
    rw [List.isPrefixOf?_eq_some_iff_append_eq, h]
  rw [interior, hopen]
  simp only [before?_append]

/-- **Reading a block gives its text**, but for spaces at the very end. -/
theorem interior_block {t : Text} (ht : Tight t) : interior (block t) = .ok (trimEnd t) := by
  have htrim : trim (block t) = block t := by
    rw [block_eq ht, trim, trimStart_eq_self, trimEnd_eq_self]
    · intro c hc
      rw [← List.append_assoc, List.getLast?_append] at hc
      obtain rfl : '/' = c := Option.some.inj hc
      decide
    · rintro c ⟨⟩
      decide
  obtain ⟨b, he, _⟩ := ht.exists_trimEnd
  have hpre : trimEnd t <+: t := trimEnd_prefix_self t
  rw [interior_of_trim (htrim.trans (block_eq ht)), trim_blockBody ht]
  congr 1
  refine flatMap_lineText (fun c hc => ht.breaks c (hpre.subset hc))
    (fun h => ht.no_indent (h.trans hpre.isInfix)) ?_ [] (by simp)
  obtain ⟨c, cs, hcs, hc⟩ := ht.begins
  rw [head?_trimEnd ⟨c, by simp [hcs], hc⟩]
  exact ht.head?_ne (by decide)

/-! ### The sections come apart -/

theorem written_cons (s : Section) {ss : List Section} (hne : ss ≠ []) :
    written (s :: ss) = s.written ++ '\n' :: '\n' :: written ss := by
  rw [written, List.map_cons, List.intercalate_cons_of_ne_nil (by simpa using hne)]
  simp [written]

/-- A section's text, without the spaces that may stand at its end. -/
theorem trim_written {s : Section} (h : s.Writable) : trim s.written = trimEnd s.written := by
  obtain ⟨c, cs, hcs, hc⟩ := (gapless_written h).1.begins
  refine trim_eq_trimEnd ?_
  rw [hcs]
  rintro d ⟨⟩
  exact hc

theorem cutAtEmptyLines_written {ss : List Section} (hne : ss ≠ []) (h : ∀ s ∈ ss, s.Writable) :
    (cutAtEmptyLines (trimEnd (written ss))).map trim = ss.map fun s => trimEnd s.written := by
  induction ss with
  | nil => exact absurd rfl hne
  | cons s ss ih =>
    have hs := h s (by simp)
    have hgap := gapless_written hs
    by_cases hss : ss = []
    · subst hss
      have hwritten : written [s] = s.written := by simp [written]
      have hpre := trimEnd_prefix_self s.written
      rw [hwritten, cutAtEmptyLines_of_not_infix fun hi => hgap.2 (hi.trans hpre.isInfix)]
      have hhead : trim (trimEnd s.written) = trimEnd s.written := by
        obtain ⟨c, cs, hcs, hc⟩ := hgap.1.begins
        rw [trim_eq_trimEnd, trimEnd_trimEnd]
        rw [head?_trimEnd ⟨c, by simp [hcs], hc⟩, hcs]
        rintro d ⟨⟩
        exact hc
      simp [hhead]
    · have hrest := fun u (hu : u ∈ ss) => h u (by simp [hu])
      have hend : ¬ ['\n', '\n'] <:+: s.written ++ ['\n'] := by
        intro hi
        rcases pair_infix_append hi with hi | hi | ⟨hi, _⟩
        · exact hgap.2 hi
        · exact absurd hi (by decide)
        · exact hgap.1.getLast?_ne hi
      obtain ⟨c, cs, hcs, hc⟩ := (tight_written hss hrest).begins
      have htrim : trimEnd (written (s :: ss)) =
          s.written ++ '\n' :: '\n' :: trimEnd (written ss) := by
        rw [written_cons s hss, show s.written ++ '\n' :: '\n' :: written ss =
          (s.written ++ ['\n', '\n']) ++ written ss by simp,
          trimEnd_append_of_mem ⟨c, by simp [hcs], hc⟩]
        simp
      rw [htrim, cutAtEmptyLines_append hend, List.map_cons, List.map_cons, ih hss hrest,
        trim_written hs]

/-- **Empty lines cut where the sections were joined.** -/
theorem sections_written {ss : List Section} (hne : ss ≠ []) (h : ∀ s ∈ ss, s.Writable) :
    sections (trimEnd (written ss)) = .ok (ss.map fun s => trimEnd s.written) := by
  have hreturn : (trimEnd (written ss)).contains '\r' = false := by
    rw [Bool.eq_false_iff]
    intro hr
    have hmem := (trimEnd_prefix_self (written ss)).subset (List.contains_iff_mem.mp hr)
    exact absurd ((tight_written hne h).breaks '\r' hmem (by decide)) (by decide)
  have hfilter : (ss.map fun s => trimEnd s.written).filter (fun t => !t.isEmpty) =
      ss.map fun s => trimEnd s.written := by
    rw [List.filter_eq_self]
    intro t ht
    obtain ⟨s, hs, rfl⟩ := List.mem_map.mp ht
    obtain ⟨c, cs, hcs, hc⟩ := (gapless_written (h s hs)).1.begins
    simpa using trimEnd_ne_nil ⟨c, by simp [hcs], hc⟩
  rw [sections, hreturn, cutAtEmptyLines_written hne h, hfilter]
  rfl

/-! ### A section comes apart -/

/-- What stands behind the name of a flag: it is the flag's text, with blanks around it, and no
flag can be read in it. -/
structure Behind (f : Flag) (t : Text) : Prop where
  trimmed : trim t = f.text
  no_word : ∀ c, t.head? = some c → isWord c = false
  no_flag : ∀ pos, flagMarksFrom false pos t = []

theorem behind_text {f : Flag} (h : f.Writable) : Behind f (' ' :: f.text) := by
  refine ⟨?_, ?_, ?_⟩
  · have hblank : trimStart (' ' :: f.text) = trimStart f.text := rfl
    rw [trim, hblank]
    exact h.trimmed
  · rintro c ⟨⟩
    decide
  · intro pos
    have hnone := h.no_flag
    rw [flagMarks, flagMarksFrom_cons (by decide)] at hnone
    rw [flagMarksFrom_cons (by decide)]
    exact flagMarksFrom_eq_nil_at hnone (pos + 1)

/-- At the end of a section a flag may have lost the space behind its name. -/
theorem exists_behind_trimEnd {f : Flag} (h : f.Writable) :
    ∃ t, trimEnd f.written = f.name ++ t ∧ Behind f t := by
  by_cases htext : f.text = []
  · refine ⟨[], ?_, by simp [htext, trim, trimStart, trimEnd], by simp, fun pos => rfl⟩
    obtain ⟨word, hne, hword, hname⟩ := h.name_eq
    rw [Flag.written, htext, trimEnd_append_of_blank (List.all_eq_true.mp (by decide)),
      trimEnd_eq_self, List.append_nil]
    intro c hc
    rw [hname, List.getLast?_cons_of_ne_nil hne] at hc
    exact isBlank_of_isWord (hword c (List.mem_of_getLast? hc))
  · refine ⟨' ' :: f.text, ?_, behind_text h⟩
    rw [Flag.written, trimEnd_eq_self]
    intro c hc
    rw [List.getLast?_append_of_ne_nil _ (by simp), List.getLast?_cons_of_ne_nil htext] at hc
    rw [← h.trimmed] at hc
    exact isBlank_of_getLast?_trim hc

theorem flagMarksFrom_behind {f : Flag} (h : f.Writable) {t : Text} (ht : Behind f t) (pos : Nat) :
    flagMarksFrom true pos (f.name ++ t) = [markAt pos f.name] := by
  obtain ⟨word, hne, hword, hname⟩ := h.name_eq
  rw [hname]
  exact flagMarksFrom_flag hne hword ht.no_word ht.no_flag pos

def flagLines (fs : List Flag) : Text := List.intercalate ['\n'] (fs.map Flag.written)

theorem tight_flagLines {fs : List Flag} (hne : fs ≠ []) (h : ∀ f ∈ fs, f.Writable) :
    Tight (flagLines fs) := by
  refine tight_intercalate (by simp) (by simp) (by simpa using hne) ?_
  intro t ht
  obtain ⟨f, hf, rfl⟩ := List.mem_map.mp ht
  exact (gapless_flag (h f hf)).1

/-- What stands in front of flags stays when their end is trimmed. -/
theorem trimEnd_append_flagLines {fs : List Flag} (hne : fs ≠ []) (h : ∀ f ∈ fs, f.Writable)
    (before : Text) : trimEnd (before ++ flagLines fs) = before ++ trimEnd (flagLines fs) := by
  obtain ⟨c, cs, hcs, hc⟩ := (tight_flagLines hne h).begins
  exact trimEnd_append_of_mem ⟨c, by simp [hcs], hc⟩

theorem flagLines_cons (f : Flag) {fs : List Flag} (hne : fs ≠ []) :
    flagLines (f :: fs) = (f.written ++ ['\n']) ++ flagLines fs := by
  rw [flagLines, List.map_cons, List.intercalate_cons_of_ne_nil (by simpa using hne)]
  rfl

/-- **Flags on lines of their own are read back.**  The text in front, `before`, is arbitrary; the
induction moves each flag that has been read into it. -/
theorem flagsAt_flagLines {fs : List Flag} (hne : fs ≠ []) (h : ∀ f ∈ fs, f.Writable)
    (before : Text) :
    ∃ m ms, flagMarksFrom true before.length (trimEnd (flagLines fs)) = m :: ms ∧
      m.span.start = before.length - 1 ∧
      flagsAt (before ++ trimEnd (flagLines fs)) (m :: ms) = fs := by
  induction fs generalizing before with
  | nil => exact absurd rfl hne
  | cons f fs ih =>
    have hf := h f (by simp)
    by_cases hfs : fs = []
    · subst hfs
      obtain ⟨t, htrim, ht⟩ := exists_behind_trimEnd hf
      have hlines : flagLines [f] = f.written := by simp [flagLines]
      refine ⟨markAt before.length f.name, [], ?_, rfl, ?_⟩
      · rw [hlines, htrim, flagMarksFrom_behind hf ht]
      · have htext : Span.text (before ++ (f.name ++ t))
            ⟨before.length + f.name.length, (before ++ (f.name ++ t)).length⟩ = t := by
          have hmid := Span.text_append (before ++ f.name) t []
            (s := ⟨before.length + f.name.length, (before ++ (f.name ++ t)).length⟩)
            (by simp) (by simp [Nat.add_assoc])
          simpa using hmid
        rw [hlines, htrim]
        simp only [flagsAt, nextStart, markAt, htext, ht.trimmed]
    · have hrest := fun u (hu : u ∈ fs) => h u (by simp [hu])
      obtain ⟨m, ms, hmarks, hstart, hflags⟩ := ih hfs hrest (before ++ (f.written ++ ['\n']))
      have hsplit : trimEnd (flagLines (f :: fs)) =
          (f.written ++ ['\n']) ++ trimEnd (flagLines fs) := by
        rw [flagLines_cons f hfs, trimEnd_append_flagLines hfs hrest]
      have hlength : before.length + f.written.length + 1 =
          (before ++ (f.written ++ ['\n'])).length := by
        simp [Nat.add_assoc]
      refine ⟨markAt before.length f.name, m :: ms, ?_, rfl, ?_⟩
      · have hmark : flagMarksFrom true before.length f.written = [markAt before.length f.name] :=
          flagMarksFrom_behind hf (behind_text hf) before.length
        rw [hsplit, List.append_assoc, List.singleton_append,
          flagMarksFrom_append (by rintro d ⟨⟩; decide), flagMarksFrom_cons (by decide), hmark,
          hlength, show isBlank '\n' = true by decide, hmarks]
        rfl
      · -- The text of this flag ends where the mark of the next one begins.
        have htext : Span.text (before ++ ((f.written ++ ['\n']) ++ trimEnd (flagLines fs)))
            ⟨before.length + f.name.length, m.span.start⟩ = ' ' :: f.text := by
          have hmid := Span.text_append (before ++ f.name) (' ' :: f.text)
            ('\n' :: trimEnd (flagLines fs))
            (s := ⟨before.length + f.name.length, m.span.start⟩) (by simp)
            (by rw [hstart]; simp [Flag.written]; omega)
          simpa [Flag.written] using hmid
        rw [hsplit, flagsAt]
        simp only [markAt, nextStart, htext, (behind_text hf).trimmed]
        rw [← List.append_assoc, hflags]

/-- **A section that was written is read back.** -/
theorem ofText_written {s : Section} (h : s.Writable) :
    Section.ofText (trimEnd s.written) = s := by
  obtain ⟨d, fs⟩ := s
  by_cases hfs : fs = []
  · -- Only a description, in which no flag can be read.
    subst hfs
    have hd : d ≠ [] := by
      rcases h.not_empty with hd | hf
      · exact hd
      · exact absurd rfl hf
    have hwritten : trimEnd (Section.written ⟨d, []⟩) = d := by
      simp only [Section.written, Section.pieces, List.isEmpty_iff, if_neg hd, List.map_nil,
        List.append_nil, List.intercalate_singleton]
      exact trimEnd_eq_self h.ends
    have hnone : flagMarks d = [] := h.no_flag
    rw [hwritten, Section.ofText_eq, hnone]
    simp [flagsAt, nextStart]
  · by_cases hd : d = []
    · -- Only flags: the first one stands at the start, and nothing in front of it describes.
      subst hd
      obtain ⟨m, ms, hmarks, hstart, hflags⟩ := flagsAt_flagLines hfs h.flags []
      have hwritten : Section.written ⟨[], fs⟩ = flagLines fs := rfl
      have hflagMarks : flagMarks (trimEnd (flagLines fs)) = m :: ms := hmarks
      rw [hwritten, Section.ofText_eq, hflagMarks]
      simp only [nextStart, hstart]
      rw [show trimEnd (flagLines fs) = [] ++ trimEnd (flagLines fs) from rfl, hflags]
      rfl
    · obtain ⟨m, ms, hmarks, hstart, hflags⟩ := flagsAt_flagLines hfs h.flags (d ++ ['\n'])
      have hwritten : trimEnd (Section.written ⟨d, fs⟩) =
          (d ++ ['\n']) ++ trimEnd (flagLines fs) := by
        rw [← trimEnd_append_flagLines hfs h.flags, Section.written, Section.pieces]
        simp only [List.isEmpty_iff, if_neg hd, List.singleton_append]
        rw [List.intercalate_cons_of_ne_nil (by simpa using hfs)]
        rfl
      have hflagMarks : flagMarks ((d ++ ['\n']) ++ trimEnd (flagLines fs)) = m :: ms := by
        have hnone : flagMarksFrom true 0 d = [] := h.no_flag
        have hlength : 0 + d.length + 1 = (d ++ ['\n']).length := by simp
        rw [flagMarks, List.append_assoc, List.singleton_append,
          flagMarksFrom_append (by rintro c ⟨⟩; decide), flagMarksFrom_cons (by decide), hnone,
          hlength, show isBlank '\n' = true by decide, hmarks]
        rfl
      rw [hwritten, Section.ofText_eq, hflagMarks, hflags]
      simp only [nextStart, hstart]
      simp

/-! ### The round trip -/

/-- **Reading a written comment gives back what it was written from.**  The block is one comment,
its descriptions are those of the sections that have one, and its flags are those of all sections,
in order. -/
theorem partsOf_block (ss : List Section) (h : ∀ s ∈ ss, s.Writable) :
    spans (block (written ss)) = [⟨0, (block (written ss)).length⟩] ∧
      (interior (block (written ss))).bind partsOf =
        .ok { descriptions := (ss.map (·.description)).filter fun d => !d.isEmpty
              flags := ss.flatMap (·.flags) } := by
  by_cases hne : ss = []
  · subst hne
    exact ⟨by decide, by decide⟩
  · have ht := tight_written hne h
    refine ⟨spans_block ht, ?_⟩
    have htaken : (ss.map fun s => trimEnd s.written).map Section.ofText = ss := by
      rw [List.map_map]
      conv_rhs => rw [← List.map_id ss]
      exact List.map_congr_left fun s hs => ofText_written (h s hs)
    rw [interior_block ht]
    show partsOf (trimEnd (written ss)) = _
    rw [partsOf, sections_written hne h]
    simp only [Except.map, htaken]

/-- A description that goes on behind a tab, a flag on two lines, a flag without a text, and a
section without a description. -/
def twoSections : List Section :=
  [⟨"Draws it.\n\tSoon.".toList,
    [⟨"@param".toList, "x How far.\n*Very*".toList⟩, ⟨"@private".toList, []⟩]⟩,
   ⟨[], [⟨"@see".toList, "a@b /* c".toList⟩]⟩]

theorem writable_twoSections : ∀ s ∈ twoSections, s.Writable := by
  have hparam : (⟨"@param".toList, "x How far.\n*Very*".toList⟩ : Flag).Writable :=
    ⟨⟨"param".toList, by decide, List.all_eq_true.mp (by decide), rfl⟩, by decide, by decide,
      by decide⟩
  have hprivate : (⟨"@private".toList, []⟩ : Flag).Writable :=
    ⟨⟨"private".toList, by decide, List.all_eq_true.mp (by decide), rfl⟩, by decide, by decide,
      by decide⟩
  have hsee : (⟨"@see".toList, "a@b /* c".toList⟩ : Flag).Writable :=
    ⟨⟨"see".toList, by decide, List.all_eq_true.mp (by decide), rfl⟩, by decide, by decide,
      by decide⟩
  intro s hs
  rcases List.mem_cons.mp hs with rfl | hs
  · refine ⟨by decide, ?_, ?_, by decide, by decide, ?_⟩
    · rintro c ⟨⟩
      decide
    · rintro c ⟨⟩
      decide
    · intro f hf
      rcases List.mem_cons.mp hf with rfl | hf
      · exact hparam
      · obtain rfl := List.mem_singleton.mp hf
        exact hprivate
  · obtain rfl := List.mem_singleton.mp hs
    refine ⟨by decide, by simp, by simp, by decide, by decide, ?_⟩
    intro f hf
    obtain rfl := List.mem_singleton.mp hf
    exact hsee

theorem partsOf_block_twoSections : (∀ s ∈ twoSections, s.Writable) ∧
    (interior (block (written twoSections))).bind partsOf =
      .ok { descriptions := ["Draws it.\n\tSoon.".toList]
            flags := [⟨"@param".toList, "x How far.\n*Very*".toList⟩, ⟨"@private".toList, []⟩,
              ⟨"@see".toList, "a@b /* c".toList⟩] } :=
  ⟨writable_twoSections, (partsOf_block twoSections writable_twoSections).2⟩

end Comment

end ScriptDocs
