import ScriptDocs.Comment.Interior
import ScriptDocs.Proofs.Comment.Section

/-!
# Names that stand in a comment

A flag is read from a text that has been taken out of its comment line by line, joined again, cut
into sections and trimmed.  On all that way nothing is put together: a name that stands in the end
result, with no word going on behind it, stands so in the comment.

* `Text.StandsIn`: a name in a text, up to the end of the word.
* `Text.StandsIn.of_append_cons`: a character that is not in the name keeps it on one side.
* `standsIn_of_lines`, `standsIn_of_interior`: from the lines back to the comment.
* `standsIn_of_mem_flags`: from a flag back to the text.
-/

namespace ScriptDocs

namespace Text

/-! ### Names in a text -/

/-- A name stands in a text, and no word goes on behind it. -/
def StandsIn (name t : Text) : Prop :=
  ∃ front behind, t = front ++ (name ++ behind) ∧ ∀ c, behind.head? = some c → isWord c = false

section

variable {name t a b : Text}

theorem StandsIn.behind (h : StandsIn name t) (a : Text) : StandsIn name (a ++ t) := by
  obtain ⟨front, behind, rfl, hbehind⟩ := h
  exact ⟨a ++ front, behind, by rw [List.append_assoc], hbehind⟩

theorem standsIn_cons_iff {c : Char} :
    StandsIn name (c :: t) ↔
      (∃ behind, c :: t = name ++ behind ∧ ∀ d, behind.head? = some d → isWord d = false) ∨
        StandsIn name t := by
  constructor
  · rintro ⟨front, behind, h, hbehind⟩
    cases front with
    | nil => exact Or.inl ⟨behind, h, hbehind⟩
    | cons d front =>
      obtain ⟨rfl, rfl⟩ := List.cons.inj h
      exact Or.inr ⟨front, behind, rfl, hbehind⟩
  · rintro (⟨behind, h, hbehind⟩ | h)
    · exact ⟨[], behind, h, hbehind⟩
    · exact h.behind [c]

theorem StandsIn.before (h : StandsIn name t) (hb : ∀ c, b.head? = some c → isWord c = false) :
    StandsIn name (t ++ b) := by
  obtain ⟨front, behind, rfl, hbehind⟩ := h
  refine ⟨front, behind ++ b, by simp, ?_⟩
  cases behind with
  | nil => exact hb
  | cons d ds => exact hbehind

theorem StandsIn.before_blank (h : StandsIn name t) (hb : ∀ c ∈ b, isBlank c = true) :
    StandsIn name (t ++ b) :=
  h.before fun c hc => isWord_of_isBlank (hb c (List.mem_of_head? hc))

/-- **A character that the name does not have keeps it on one side.** -/
theorem StandsIn.of_append_cons {c : Char} (hc : c ∉ name) (h : StandsIn name (a ++ c :: b)) :
    StandsIn name a ∨ StandsIn name b := by
  obtain ⟨front, behind, heq, hbehind⟩ := h
  rcases List.append_eq_append_iff.mp heq with ⟨mid, hfront, hmid⟩ | ⟨mid, ha, hmid⟩
  · cases mid with
    | cons d mid =>
      obtain ⟨rfl, rfl⟩ := List.cons.inj hmid
      exact Or.inr ⟨mid, behind, rfl, hbehind⟩
    | nil =>
      -- the name would have to begin with the character
      cases name with
      | nil => exact Or.inl ⟨a, [], by simp, by simp⟩
      | cons d name =>
        obtain ⟨rfl, -⟩ := List.cons.inj hmid
        exact absurd List.mem_cons_self hc
  · rcases List.append_eq_append_iff.mp hmid with ⟨rest, hrest, hmid⟩ | ⟨rest, hrest, hmid⟩
    · refine Or.inl ⟨front, rest, by rw [ha, hrest], ?_⟩
      intro d hd
      refine hbehind d ?_
      rw [hmid, List.head?_append, hd]
      rfl
    · cases rest with
      | nil => exact Or.inl ⟨front, [], by rw [ha, hrest]; simp, by simp⟩
      | cons d rest =>
        obtain ⟨rfl, -⟩ := List.cons.inj hmid
        exact absurd (by rw [hrest]; simp) hc

theorem StandsIn.of_trim (h : StandsIn name (trim t)) : StandsIn name t := by
  obtain ⟨blanks, hend, hblanks⟩ := exists_blanks_trimEnd (trimStart t)
  have hstart : StandsIn name (trimStart t) := by
    rw [hend]
    exact StandsIn.before_blank h hblanks
  obtain ⟨front, hfront⟩ : trimStart t <:+ t := List.dropWhile_suffix _
  rw [← hfront]
  exact hstart.behind front

end

end Text

namespace Comment

open Text

/-! ### Lines -/

theorem lineText_suffix (line : Text) : lineText line <:+ line := by
  have htrim : trimStart line <:+ line := List.dropWhile_suffix _
  unfold lineText
  split
  · rename_i cs hcs
    rw [hcs] at htrim
    exact (List.dropWhile_suffix _).trans ((List.suffix_cons _ _).trans htrim)
  · exact List.nil_suffix

/-- **Nothing is put together from two lines.**  Each line but the last ends with its break, also
after its star has been taken off. -/
theorem standsIn_of_lines {name : Text} (hname : ∀ c ∈ name, isBlank c = false) (t : Text)
    (h : StandsIn name ((fullLines t).flatMap lineText)) : StandsIn name t := by
  induction hn : t.length using Nat.strong_induction_on generalizing t with
  | _ n ih =>
    rcases fullLines_cases t with rfl | hone | ⟨l, c, rest, hc, rfl, hlines⟩
    · exact h
    · rw [hone, List.flatMap_singleton] at h
      obtain ⟨front, hfront⟩ := lineText_suffix t
      rw [← hfront]
      exact h.behind front
    · have hc : isBlank c = true := isBlank_of_isLineBreak hc
      have hlast : c ∉ name := fun hmem => by simp [hname c hmem] at hc
      have hrest : StandsIn name ((fullLines rest).flatMap lineText) →
          StandsIn name (l ++ c :: rest) := by
        intro h
        have hlt : rest.length < n := by
          rw [← hn, List.length_append, List.length_cons]
          omega
        exact ((ih _ hlt rest h rfl).behind [c]).behind l
      rw [hlines, List.flatMap_cons] at h
      rcases List.suffix_concat_iff.mp (lineText_suffix (l ++ [c])) with hnil | ⟨kept, hkept, hl⟩
      · rw [hnil] at h
        exact hrest h
      · rw [hkept, List.append_assoc] at h
        rcases h.of_append_cons hlast with h | h
        · obtain ⟨front, rfl⟩ := hl
          refine (h.behind front).before ?_
          rintro d ⟨⟩
          exact isWord_of_isBlank hc
        · exact hrest h

/-! ### The text of a comment -/

theorem eq_append_of_before? {e t a : Text} (h : before? e t = some a) : t = a ++ e := by
  obtain ⟨r, hr, rfl⟩ := Option.map_eq_some_iff.mp h
  have hreverse := List.isPrefixOf?_eq_some_iff_append_eq.mp hr
  rw [← List.reverse_reverse t, ← hreverse, List.reverse_append, List.reverse_reverse]

theorem interior_eq_ok {comment text : Text} (h : interior comment = .ok text) :
    ∃ body, trim comment = "/**".toList ++ (body ++ "*/".toList) ∧
      text = (fullLines (trim body)).flatMap lineText := by
  unfold interior at h
  split at h
  · cases h
  · rename_i rest hrest
    split at h
    · cases h
    · rename_i body hbody
      refine ⟨body, ?_, (Except.ok.inj h).symm⟩
      rw [← List.isPrefixOf?_eq_some_iff_append_eq.mp hrest, eq_append_of_before? hbody]

theorem standsIn_of_interior {name comment text : Text} (hname : ∀ c ∈ name, isBlank c = false)
    (h : interior comment = .ok text) (ht : StandsIn name text) : StandsIn name comment := by
  obtain ⟨body, hcomment, rfl⟩ := interior_eq_ok h
  have hbody : StandsIn name body := (standsIn_of_lines hname _ ht).of_trim
  apply StandsIn.of_trim
  rw [hcomment]
  refine (hbody.before ?_).behind _
  rintro c ⟨⟩
  decide

/-! ### Flags -/

theorem standsIn_of_mem_cutAtEmptyLines {name piece : Text} (t : Text)
    (hpiece : piece ∈ cutAtEmptyLines t) (h : StandsIn name piece) : StandsIn name t := by
  induction hn : t.length using Nat.strong_induction_on generalizing t with
  | _ n ih =>
    rcases cutAtEmptyLines_cases t with hone | ⟨first, rest, rfl, hpieces⟩
    · rw [hone, List.mem_singleton] at hpiece
      rwa [← hpiece]
    · rw [hpieces, List.mem_cons] at hpiece
      rcases hpiece with rfl | hpiece
      · refine h.before ?_
        rintro c ⟨⟩
        decide
      · have hlt : rest.length < n := by
          rw [← hn, List.length_append, List.length_cons, List.length_cons]
          omega
        exact ((ih _ hlt rest hpiece rfl).behind ['\n', '\n']).behind first

theorem standsIn_of_mem_flagMarksFrom {m : FlagMark} {free : Bool} {pos : Nat} {t : Text}
    (h : m ∈ flagMarksFrom free pos t) : StandsIn m.name t := by
  induction t generalizing free pos with
  | nil => simp [flagMarksFrom] at h
  | cons c cs ih =>
    have hlater : m ∈ flagMarksFrom (isBlank c) (pos + 1) cs → StandsIn m.name (c :: cs) :=
      fun h => (ih h).behind [c]
    rw [flagMarksFrom] at h
    split at h
    · rcases List.mem_cons.mp h with rfl | h
      · refine ⟨[], cs.dropWhile isWord, ?_, ?_⟩
        · rw [List.nil_append, List.cons_append, List.takeWhile_append_dropWhile]
        · intro d hd
          exact eq_false_of_head?_dropWhile hd
      · exact hlater h
    · exact hlater h

theorem exists_mark_of_mem_flagsAt {f : Flag} {t : Text} {ms : List FlagMark}
    (h : f ∈ flagsAt t ms) : ∃ m ∈ ms, m.name = f.name := by
  induction ms with
  | nil => simp [flagsAt] at h
  | cons m ms ih =>
    rcases List.mem_cons.mp h with rfl | h
    · exact ⟨m, List.mem_cons_self, rfl⟩
    · obtain ⟨m', hm', hname⟩ := ih h
      exact ⟨m', List.mem_cons_of_mem _ hm', hname⟩

/-- **The name of a flag stands in the text.** -/
theorem standsIn_of_mem_flags {text : Text} {parts : Parts} {f : Flag}
    (h : partsOf text = .ok parts) (hf : f ∈ parts.flags) : StandsIn f.name text := by
  unfold partsOf sections at h
  split at h
  · cases h
  · obtain rfl := Except.ok.inj h
    simp only [List.mem_flatMap, List.mem_map, List.mem_filter] at hf
    obtain ⟨_, ⟨_, ⟨⟨piece, hpiece, rfl⟩, -⟩, rfl⟩, hf⟩ := hf
    rw [Section.ofText_eq] at hf
    obtain ⟨m, hm, hname⟩ := exists_mark_of_mem_flagsAt hf
    rw [← hname]
    exact standsIn_of_mem_cutAtEmptyLines text hpiece (standsIn_of_mem_flagMarksFrom hm).of_trim

end Comment

end ScriptDocs
