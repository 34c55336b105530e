import Mathlib.Data.List.Infix
import ScriptDocs.Link
import ScriptDocs.Proofs.List

/-!
# Web links

A web address reaches from its scheme to the next blank, whatever characters stand between.

* `AddressAt`: a stretch of a text that is made a link.
* `webLinks_append_blank`, `webLinks_unbroken`: links are put in word by word.
* `webLinks_of_addressAt`: a link changes nothing before and behind it.
* `exists_addressAt`: where an address begins, the stretch up to the next blank is linked.
* `webLinks_anchors`: the links as markup.

The address becomes the value of an attribute between quotes, and the text of the link.  Both end
where the address ends exactly if it has neither `"` nor `<` in it.
-/

namespace ScriptDocs.Link

/-! ### Words -/

def Unbroken (t : Text) : Prop := ∀ c ∈ t, isBlank c = false

theorem Unbroken.append {a b : Text} (ha : Unbroken a) (hb : Unbroken b) : Unbroken (a ++ b) := by
  intro c hc
  rcases List.mem_append.mp hc with hc | hc
  · exact ha c hc
  · exact hb c hc

theorem Unbroken.of_subset {a b : Text} (hb : Unbroken b) (h : a ⊆ b) : Unbroken a :=
  fun c hc => hb c (h hc)

theorem onWords_append_blank (f : Text → Text) (word a : Text) {c : Char} (hc : isBlank c = true)
    (b : Text) : onWords f word (a ++ c :: b) = onWords f word a ++ c :: onWords f [] b := by
  induction a generalizing word with
  | nil => simp [onWords, hc]
  | cons d ds ih =>
    simp only [List.cons_append, onWords]
    split
    · rw [ih, List.append_assoc, List.cons_append]
    · exact ih (d :: word)

theorem onWords_unbroken (f : Text → Text) (word : Text) {t : Text} (ht : Unbroken t) :
    onWords f word t = f (word.reverse ++ t) := by
  induction t generalizing word with
  | nil => rw [onWords, List.append_nil]
  | cons c cs ih =>
    rw [onWords, if_neg (by simp [ht c (by simp)]), ih (c :: word) fun x hx => ht x (by simp [hx])]
    simp

/-- A blank separates a text. -/
theorem webLinks_append_blank (a : Text) {c : Char} (hc : isBlank c = true) (b : Text) :
    webLinks (a ++ c :: b) = webLinks a ++ c :: webLinks b :=
  onWords_append_blank linkWord [] a hc b

/-- A text without blanks is one word. -/
theorem webLinks_unbroken {t : Text} (ht : Unbroken t) : webLinks t = linkWord t :=
  onWords_unbroken linkWord [] ht

theorem webLinks_append_of_head {a b : Text} (hb : ∀ c, b.head? = some c → isBlank c = true) :
    webLinks (a ++ b) = webLinks a ++ webLinks b := by
  cases b with
  | nil => simp [webLinks, onWords, linkWord]
  | cons c cs =>
    have hc := hb c rfl
    have hblank : webLinks (c :: cs) = c :: webLinks cs := webLinks_append_blank [] hc cs
    rw [webLinks_append_blank a hc, hblank]

theorem webLinks_append_of_getLast {a b : Text}
    (ha : ∀ c, a.getLast? = some c → isBlank c = true) :
    webLinks (a ++ b) = webLinks a ++ webLinks b := by
  rcases List.eq_nil_or_concat a with rfl | ⟨front, c, rfl⟩
  · rfl
  · have hc := ha c (by simp)
    rw [List.concat_eq_append, List.append_assoc, List.singleton_append,
      webLinks_append_blank front hc, webLinks_append_blank front hc]
    simp [webLinks, onWords, linkWord]

/-- The first word of a text, and what stands behind it. -/
theorem exists_firstWord (t : Text) :
    ∃ word rest, t = word ++ rest ∧ Unbroken word ∧
      ∀ c, rest.head? = some c → isBlank c = true := by
  induction t with
  | nil => exact ⟨[], [], rfl, by simp [Unbroken], by simp⟩
  | cons c cs ih =>
    cases hc : isBlank c with
    | true => exact ⟨[], c :: cs, rfl, by simp [Unbroken], by simp [hc]⟩
    | false =>
      obtain ⟨word, rest, rfl, hword, hrest⟩ := ih
      have hone : Unbroken [c] := by simp [Unbroken, hc]
      exact ⟨c :: word, rest, rfl, hone.append hword, hrest⟩

/-- The last word of a text, and what stands before it. -/
theorem exists_lastWord (t : Text) :
    ∃ lead word, t = lead ++ word ∧ Unbroken word ∧
      ∀ c, lead.getLast? = some c → isBlank c = true := by
  induction t using List.reverseRecOn with
  | nil => exact ⟨[], [], rfl, by simp [Unbroken], by simp⟩
  | append_singleton front c ih =>
    cases hc : isBlank c with
    | true => exact ⟨front ++ [c], [], by simp, by simp [Unbroken], by simp [hc]⟩
    | false =>
      obtain ⟨lead, word, rfl, hword, hlead⟩ := ih
      exact ⟨lead, word ++ [c], by simp, hword.append (by simp [Unbroken, hc]), hlead⟩

/-- An unbroken stretch at the end of a text lies in its last word. -/
theorem suffix_of_unbroken {lead word w : Text}
    (hlead : ∀ c, lead.getLast? = some c → isBlank c = true) (hw : Unbroken w)
    (hsuffix : w <:+ lead ++ word) : w <:+ word := by
  rcases List.suffix_or_suffix_of_suffix hsuffix (List.suffix_append lead word) with h | ⟨x, rfl⟩
  · exact h
  · rcases List.eq_nil_or_concat x with rfl | ⟨y, c, rfl⟩
    · exact List.suffix_refl word
    · -- `w` would reach back over the blank in front of the word
      obtain ⟨z, hz⟩ := hsuffix
      have hwhole : z ++ y ++ [c] ++ word = lead ++ word := by simpa using hz
      have hblank : isBlank c = true := by
        apply hlead
        rw [← List.append_cancel_right hwhole]
        simp
      exact absurd (hw c (by simp)) (by simp [hblank])

/-! ### Addresses -/

theorem beginsAddress_append {t : Text} (h : beginsAddress t = true) (rest : Text) :
    beginsAddress (t ++ rest) = true := by
  simp only [beginsAddress, Bool.or_eq_true, List.isPrefixOf_iff_prefix] at h ⊢
  exact h.imp (·.trans (List.prefix_append t rest)) (·.trans (List.prefix_append t rest))

/-- No address begins in `w`, when `u` follows. -/
def NoneBefore (w u : Text) : Prop :=
  ∀ s, s <:+ w → s ≠ [] → beginsAddress (s ++ u) = false

theorem NoneBefore.tail {c : Char} {w u : Text} (h : NoneBefore (c :: w) u) : NoneBefore w u :=
  fun s hs => h s (hs.trans (List.suffix_cons c w))

theorem NoneBefore.cons {c : Char} {w u : Text} (hc : beginsAddress (c :: w ++ u) = false)
    (h : NoneBefore w u) : NoneBefore (c :: w) u := by
  intro s hs hne
  rcases List.suffix_cons_iff.mp hs with rfl | hs
  · exact hc
  · exact h s hs hne

theorem linkWord_append {w u : Text} (h : NoneBefore w u) :
    linkWord (w ++ u) = w ++ linkWord u := by
  induction w with
  | nil => rfl
  | cons c cs ih =>
    have hc : beginsAddress (c :: cs ++ u) = false := h (c :: cs) (List.suffix_refl _) (by simp)
    rw [List.cons_append] at hc ⊢
    rw [linkWord, if_neg (by simp [hc]), ih h.tail, List.cons_append]

/-- A word in which no address begins is left as it is. -/
theorem webLinks_word {word : Text} (hword : Unbroken word) (hnone : NoneBefore word []) :
    webLinks word = word := by
  have hself := linkWord_append hnone
  rwa [List.append_nil, linkWord, List.append_nil, ← webLinks_unbroken hword] at hself

theorem linkWord_of_beginsAddress {u : Text} (h : beginsAddress u = true) :
    linkWord u = anchor u u := by
  cases u with
  | nil => exact absurd h (by decide)
  | cons c cs => rw [linkWord, if_pos h]

/-- The first address of a word. -/
theorem exists_firstAddress {word s : Text} (hs : s <:+ word) (hbegins : beginsAddress s = true) :
    ∃ w u, word = w ++ u ∧ beginsAddress u = true ∧ s <:+ u ∧ NoneBefore w u := by
  induction word with
  | nil =>
    rw [List.suffix_nil.mp hs] at hbegins
    exact absurd hbegins (by decide)
  | cons c cs ih =>
    cases hc : beginsAddress (c :: cs) with
    | true =>
      refine ⟨[], c :: cs, rfl, hc, hs, ?_⟩
      intro s hs hne
      exact absurd (List.suffix_nil.mp hs) hne
    | false =>
      have hs' : s <:+ cs := by
        rcases List.suffix_cons_iff.mp hs with rfl | hs
        · exact absurd hbegins (by simp [hc])
        · exact hs
      obtain ⟨w, u, rfl, hu, hsu, hw⟩ := ih hs'
      exact ⟨c :: w, u, rfl, hu, hsu, hw.cons hc⟩

/-- Between `front` and `rest` stands the address `u`: it reaches to the end of its word, and is
the first in it. -/
structure AddressAt (front u rest : Text) : Prop where
  begins : beginsAddress u = true
  unbroken : Unbroken u
  ends : ∀ c, rest.head? = some c → isBlank c = true
  first : ∀ w, w <:+ front → w ≠ [] → Unbroken w → beginsAddress (w ++ u) = false

theorem addressAt_iff {front u rest : Text} :
    AddressAt front u rest ↔
      (beginsAddress u && u.all (!isBlank ·) && rest.head?.all isBlank &&
        front.tails.all fun w => w.isEmpty || w.any isBlank || !beginsAddress (w ++ u)) = true := by
  simp only [Bool.and_eq_true, List.all_eq_true, Option.all_eq_true, List.mem_tails,
    Bool.or_eq_true, Bool.not_eq_true', List.isEmpty_iff, List.any_eq_true]
  constructor
  · rintro ⟨hbegins, hunbroken, hends, hfirst⟩
    refine ⟨⟨⟨hbegins, hunbroken⟩, hends⟩, fun w hw => ?_⟩
    by_cases hne : w = []
    · exact Or.inl (Or.inl hne)
    by_cases hblank : ∃ c ∈ w, isBlank c = true
    · exact Or.inl (Or.inr hblank)
    · exact Or.inr (hfirst w hw hne fun c hc => by simpa using fun h => hblank ⟨c, hc, h⟩)
  · rintro ⟨⟨⟨hbegins, hunbroken⟩, hends⟩, hfirst⟩
    refine ⟨hbegins, hunbroken, hends, fun w hw hne hw' => ?_⟩
    rcases hfirst w hw with (h | ⟨c, hc, hblank⟩) | h
    · exact absurd h hne
    · exact absurd (hw' c hc) (by simp [hblank])
    · exact h

instance (front u rest : Text) : Decidable (AddressAt front u rest) :=
  decidable_of_iff _ addressAt_iff.symm

/-- **A link changes nothing around it.** -/
theorem webLinks_of_addressAt {front u rest : Text} (h : AddressAt front u rest) :
    webLinks (front ++ (u ++ rest)) = webLinks front ++ (anchor u u ++ webLinks rest) := by
  obtain ⟨lead, word, rfl, hword, hlead⟩ := exists_lastWord front
  have hnone : NoneBefore word u := fun s hs hne =>
    h.first s (hs.trans (List.suffix_append lead word)) hne (hword.of_subset hs.subset)
  -- without `u` behind it the word has even less of an address
  have hnone' : NoneBefore word [] := by
    intro s hs hne
    rw [List.append_nil, Bool.eq_false_iff]
    intro hs'
    exact absurd (hnone s hs hne) (by simp [beginsAddress_append hs'])
  have hlinked : webLinks (word ++ u) = word ++ anchor u u := by
    rw [webLinks_unbroken (hword.append h.unbroken), linkWord_append hnone,
      linkWord_of_beginsAddress h.begins]
  calc webLinks (lead ++ word ++ (u ++ rest))
      = webLinks (lead ++ (word ++ u) ++ rest) := by simp
    _ = webLinks lead ++ webLinks (word ++ u) ++ webLinks rest := by
      rw [webLinks_append_of_head h.ends, webLinks_append_of_getLast hlead]
    _ = webLinks (lead ++ word) ++ (anchor u u ++ webLinks rest) := by
      rw [webLinks_append_of_getLast hlead, hlinked, webLinks_word hword hnone']
      simp

/-- **Every address is linked.**  An unbroken stretch that begins as an address lies in a link. -/
theorem exists_addressAt {t w : Text} (hw : w <:+: t) (hunbroken : Unbroken w)
    (hbegins : beginsAddress w = true) :
    ∃ front u rest, t = front ++ (u ++ rest) ∧ AddressAt front u rest ∧ w <:+: u := by
  obtain ⟨before, behind, rfl⟩ := hw
  obtain ⟨lead, head, rfl, hhead, hlead⟩ := exists_lastWord before
  obtain ⟨tail, rest, rfl, htail, hrest⟩ := exists_firstWord behind
  -- The word around `w` is `head ++ (w ++ tail)`; its first address begins no later than `w`.
  have hword : Unbroken (head ++ (w ++ tail)) := hhead.append (hunbroken.append htail)
  obtain ⟨x, u, hsplit, hu, hin, hnone⟩ := exists_firstAddress
    (List.suffix_append head (w ++ tail)) (beginsAddress_append hbegins tail)
  refine ⟨lead ++ x, u, rest, ?_, ⟨hu, ?_, hrest, ?_⟩, ?_⟩
  · calc lead ++ head ++ w ++ (tail ++ rest)
        = lead ++ (head ++ (w ++ tail)) ++ rest := by simp
      _ = lead ++ x ++ (u ++ rest) := by simp [hsplit]
  · exact hword.of_subset (by simp [hsplit])
  · intro s hs hne hs'
    exact hnone s (suffix_of_unbroken hlead hs' hs) hne
  · exact (List.prefix_append w tail).isInfix.trans hin.isInfix

/-- A text in which no address begins is left as it is. -/
theorem webLinks_eq_self {t : Text}
    (h : ∀ w, w <:+: t → Unbroken w → beginsAddress w = false) : webLinks t = t := by
  induction hn : t.length using Nat.strong_induction_on generalizing t with
  | _ n ih =>
    obtain ⟨word, rest, rfl, hword, hrest⟩ := exists_firstWord t
    have hnone : NoneBefore word [] := by
      intro s hs _
      rw [List.append_nil]
      exact h s (hs.isInfix.trans (List.prefix_append word rest).isInfix)
        (hword.of_subset hs.subset)
    have hplain := webLinks_word hword hnone
    cases rest with
    | nil => rw [List.append_nil, hplain]
    | cons c cs =>
      have hcs : webLinks cs = cs := by
        refine ih cs.length ?_ (fun w hw => h w (hw.trans ?_)) rfl
        · simp at hn; omega
        · exact ((List.suffix_cons c cs).trans (List.suffix_append word (c :: cs))).isInfix
      rw [webLinks_append_blank word (hrest c rfl), hplain, hcs]

/-! ### Links as markup -/

/-- A link at its marks. -/
theorem anchor_append (target content rest : Text) :
    anchor target content ++ rest =
      "<a href=\"".toList ++
        (target ++ ("\">".toList ++ (content ++ ("</a>".toList ++ rest)))) := by
  unfold anchor
  generalize "<a href=\"".toList = opening, "\">".toList = middle, "</a>".toList = closing
  simp only [List.append_assoc]

/-- **What becomes of web addresses.**  The links are the stretches from a scheme to the next blank,
so every character of such a stretch gets into a link, also one of markup.  What stands between the
quotes of the link's attribute is the address exactly if the address has no `"`, and what stands in
front of the next tag is exactly if it has no `<`.  An address that stood in quotes takes in the
quote behind it. -/
theorem webLinks_anchors (t : Text) :
    (∀ c, (∃ front u rest, t = front ++ (u ++ rest) ∧ AddressAt front u rest ∧ c ∈ u) ↔
      ∃ w, w <:+: t ∧ Unbroken w ∧ beginsAddress w = true ∧ c ∈ w) ∧
    ((∀ front u rest, t = front ++ (u ++ rest) → ¬ AddressAt front u rest) → webLinks t = t) ∧
    (∀ front u rest, t = front ++ (u ++ rest) → AddressAt front u rest →
      ∃ value content, webLinks t = webLinks front ++ ("<a href=\"".toList ++ value) ∧
        value = u ++ ("\">".toList ++ content) ∧
        content = u ++ ("</a>".toList ++ webLinks rest) ∧
        (value.takeWhile (· ≠ '"') = u ↔ '"' ∉ u) ∧
        (content.takeWhile (· ≠ '<') = u ↔ '<' ∉ u)) ∧
    ∀ v, Unbroken v → beginsAddress v = true → '"' :: (v ++ ['"']) <:+: t →
      ∃ front u rest, t = front ++ (u ++ rest) ∧ AddressAt front u rest ∧ v ++ ['"'] <:+: u := by
  refine ⟨fun c => ⟨?_, ?_⟩, fun hnone => ?_, ?_, ?_⟩
  · rintro ⟨front, u, rest, rfl, hu, hc⟩
    exact ⟨u, ⟨front, rest, List.append_assoc front u rest⟩, hu.unbroken, hu.begins, hc⟩
  · rintro ⟨w, hw, hunbroken, hbegins, hc⟩
    obtain ⟨front, u, rest, ht, hu, hin⟩ := exists_addressAt hw hunbroken hbegins
    exact ⟨front, u, rest, ht, hu, hin.subset hc⟩
  · refine webLinks_eq_self fun w hw hunbroken => ?_
    rw [Bool.eq_false_iff]
    intro hbegins
    obtain ⟨front, u, rest, ht, hu, _⟩ := exists_addressAt hw hunbroken hbegins
    exact hnone front u rest ht hu
  · rintro front u rest rfl hu
    have hquote : "\">".toList = ['"', '>'] := rfl
    have hangle : "</a>".toList = '<' :: "/a>".toList := rfl
    have hlinked := webLinks_of_addressAt hu
    rw [anchor_append] at hlinked
    refine ⟨_, _, hlinked, rfl, rfl, ?_, ?_⟩
    · rw [hquote]
      exact takeWhile_ne_iff
    · rw [hangle]
      exact takeWhile_ne_iff
  · intro v hv hbegins hquoted
    have hclosed : v ++ ['"'] <:+: t := (List.suffix_cons _ _).isInfix.trans hquoted
    exact exists_addressAt hclosed (hv.append (by simp [Unbroken, isBlank]))
      (beginsAddress_append hbegins _)

/-- An address with a `>`, behind a tag.  The link is read up to its end. -/
theorem webLinks_anchors_behindTag :
    AddressAt "<i>see</i> ".toList "http://a.b?c>d".toList " ok".toList ∧
      ∃ value content, webLinks "<i>see</i> http://a.b?c>d ok".toList =
          webLinks "<i>see</i> ".toList ++ ("<a href=\"".toList ++ value) ∧
        value = "http://a.b?c>d".toList ++ ("\">".toList ++ content) ∧
        content = "http://a.b?c>d".toList ++ ("</a>".toList ++ webLinks " ok".toList) ∧
        value.takeWhile (· ≠ '"') = "http://a.b?c>d".toList ∧
        content.takeWhile (· ≠ '<') = "http://a.b?c>d".toList := by
  have hu : AddressAt "<i>see</i> ".toList "http://a.b?c>d".toList " ok".toList := by decide
  obtain ⟨-, -, hlinks, -⟩ := webLinks_anchors "<i>see</i> http://a.b?c>d ok".toList
  obtain ⟨value, content, hlinked, hvalue, hcontent, hquote, hangle⟩ :=
    hlinks _ _ _ (by decide) hu
  exact ⟨hu, value, content, hlinked, hvalue, hcontent, hquote.mpr (by decide),
    hangle.mpr (by decide)⟩

/-- **An address takes in the markup behind it.**  The end of the element around the address becomes
part of the link.  So does the end of a link that is there already. -/
theorem address_takes_markup :
    AddressAt "<b>".toList "http://a.b</b>".toList " c".toList ∧
      webLinks "<b>http://a.b</b> c".toList =
        "<b><a href=\"http://a.b</b>\">http://a.b</b></a> c".toList ∧
      AddressAt "<a href=\"".toList "http://a.b\">x</a>".toList " c".toList ∧
      webLinks "<a href=\"http://a.b\">x</a> c".toList =
        "<a href=\"<a href=\"http://a.b\">x</a>\">http://a.b\">x</a></a> c".toList :=
  ⟨by decide, by decide, by decide, by decide⟩

end ScriptDocs.Link
