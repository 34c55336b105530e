import Mathlib.Data.List.TakeWhile
import ScriptDocs.Proofs.Link.Web
import ScriptDocs.Proofs.Text

/-!
# Web links from left to right

`webLinks` takes a text apart into words and looks for the first address in each.  `linkScan` knows
no words: it reads from left to right, and where an address begins it makes all up to the next blank
a link and goes on behind it.  The two agree, for the address that begins first in a word takes in
the others of the word, and none reaches over a blank.

* `webLinks_cons`, `webLinks_address`: how the links of a text begin.
* `linkScan_eq`: the scan gives the links.
* `FirstAddress`: the first address of a word and what stands before it.
* `webLinks_wordwise`: links are put in word by word.
-/

namespace ScriptDocs.Link

/-- Reads a text from left to right.  Where an address begins, all up to the next blank is made a
link, and the reading goes on behind it. -/
def linkScan : Text → Text
  | [] => []
  | c :: cs =>
    if beginsAddress (c :: cs) then
      let address := c :: cs.takeWhile (!isBlank ·)
      anchor address address ++ linkScan (cs.dropWhile (!isBlank ·))
    else c :: linkScan cs
termination_by t => t.length
decreasing_by
  · exact Nat.lt_succ_of_le (List.dropWhile_suffix _).length_le
  · exact Nat.lt_succ_self _

/-! ### How the links of a text begin -/

theorem beginsAddress_iff {t : Text} :
    beginsAddress t = true ↔ "http://".toList <+: t ∨ "https://".toList <+: t := by
  simp only [beginsAddress, Bool.or_eq_true, List.isPrefixOf_iff_prefix]

theorem unbroken_iff_all {t : Text} : Unbroken t ↔ t.all (!isBlank ·) = true := by
  simp [Unbroken]

/-- The scheme of an address has no blank in it. -/
theorem scheme_unbroken : Unbroken "http://".toList ∧ Unbroken "https://".toList :=
  ⟨unbroken_iff_all.mpr (by decide), unbroken_iff_all.mpr (by decide)⟩

/-- An address begins where its word does. -/
theorem beginsAddress_of_append {word rest : Text}
    (hrest : ∀ c, rest.head? = some c → isBlank c = true)
    (h : beginsAddress (word ++ rest) = true) : beginsAddress word = true := by
  have hscheme {scheme : Text} (hs : Unbroken scheme) (hp : scheme <+: word ++ rest) :
      scheme <+: word := by
    rcases List.prefix_or_prefix_of_prefix hp (List.prefix_append word rest) with hin | ⟨more, rfl⟩
    · exact hin
    · cases more with
      | nil => simp
      | cons c more =>
        -- the scheme would reach over the blank behind the word
        obtain ⟨behind, rfl⟩ := (List.prefix_append_right_inj word).mp hp
        exact absurd (hs c (by simp)) (by simp [hrest c rfl])
  exact beginsAddress_iff.mpr
    ((beginsAddress_iff.mp h).imp (hscheme scheme_unbroken.1) (hscheme scheme_unbroken.2))

/-- A character with which no address begins stays in front of the links of the rest. -/
theorem webLinks_cons {c : Char} {cs : Text} (h : beginsAddress (c :: cs) = false) :
    webLinks (c :: cs) = c :: webLinks cs := by
  cases hc : isBlank c with
  | true => exact webLinks_append_blank [] hc cs
  | false =>
    obtain ⟨word, rest, rfl, hword, hrest⟩ := exists_firstWord cs
    have hlong : Unbroken (c :: word) := List.forall_mem_cons.mpr ⟨hc, hword⟩
    have hbegins : beginsAddress (c :: word) = false := by
      rw [Bool.eq_false_iff]
      intro hbegins
      rw [← List.cons_append, beginsAddress_append hbegins rest] at h
      cases h
    rw [← List.cons_append, webLinks_append_of_head hrest, webLinks_append_of_head hrest,
      webLinks_unbroken hlong, webLinks_unbroken hword, linkWord, if_neg (by simp [hbegins]),
      List.cons_append]

/-- A word that begins with an address is made a link as a whole. -/
theorem webLinks_address {word rest : Text} (hword : Unbroken word)
    (hrest : ∀ c, rest.head? = some c → isBlank c = true)
    (h : beginsAddress (word ++ rest) = true) :
    webLinks (word ++ rest) = anchor word word ++ webLinks rest := by
  rw [webLinks_append_of_head hrest, webLinks_unbroken hword,
    linkWord_of_beginsAddress (beginsAddress_of_append hrest h)]

/-- **The scan gives the links.** -/
theorem linkScan_eq (t : Text) : linkScan t = webLinks t := by
  fun_induction linkScan t with
  | case1 => rfl
  | case2 c cs h address ih =>
    have hc : isBlank c = false := by
      rcases beginsAddress_iff.mp h with hp | hp
      · exact scheme_unbroken.1 c (by rw [← (List.cons_prefix_cons.mp hp).1]; decide)
      · exact scheme_unbroken.2 c (by rw [← (List.cons_prefix_cons.mp hp).1]; decide)
    have hword : Unbroken address := by
      refine List.forall_mem_cons.mpr ⟨hc, fun d hd => ?_⟩
      simpa using List.mem_takeWhile_imp hd
    have hrest : ∀ d, (cs.dropWhile (!isBlank ·)).head? = some d → isBlank d = true := by
      intro d hd
      simpa using eq_false_of_head?_dropWhile hd
    have hsplit : c :: cs = address ++ cs.dropWhile (!isBlank ·) := by
      simp [address, List.takeWhile_append_dropWhile]
    rw [ih, hsplit]
    exact (webLinks_address hword hrest (hsplit ▸ h)).symm
  | case3 c cs h ih => rw [ih, webLinks_cons (by simpa using h)]

/-! ### Word by word -/

/-- Where a word is cut in front of its first address. -/
structure FirstAddress (word before address : Text) : Prop where
  cut : word = before ++ address
  begins : "http://".toList <+: address ∨ "https://".toList <+: address
  first : ∀ front behind, word = front ++ behind →
    "http://".toList <+: behind ∨ "https://".toList <+: behind → before.length ≤ front.length

theorem firstAddress_of_noneBefore {w u : Text} (hu : beginsAddress u = true)
    (h : NoneBefore w u) : FirstAddress (w ++ u) w u := by
  refine ⟨rfl, beginsAddress_iff.mp hu, fun front behind hcut hbegins => ?_⟩
  apply Nat.le_of_not_lt
  intro hlt
  -- an earlier address would begin in `w`
  obtain ⟨s, rfl, hs⟩ : ∃ s, w = front ++ s ∧ behind = s ++ u := by
    rcases List.append_eq_append_iff.mp hcut with ⟨s, hfront, -⟩ | ⟨s, hw, hbehind⟩
    · rw [hfront, List.length_append] at hlt
      omega
    · exact ⟨s, hw, hbehind⟩
  have hne : s ≠ [] := by
    intro hnil
    rw [hnil, List.append_nil] at hlt
    exact Nat.lt_irrefl _ hlt
  have hnot := h s (List.suffix_append front s) hne
  rw [← hs, beginsAddress_iff.mpr hbegins] at hnot
  cases hnot

theorem linkWord_firstAddress {word before address : Text}
    (h : FirstAddress word before address) : linkWord word = before ++ anchor address address := by
  obtain ⟨rfl, hbegins, hfirst⟩ := h
  have hnone : NoneBefore before address := by
    intro s hs hne
    rw [Bool.eq_false_iff]
    intro hearlier
    obtain ⟨front, rfl⟩ := hs
    have hle := hfirst front (s ++ address) (List.append_assoc front s address)
      (beginsAddress_iff.mp hearlier)
    have hpos := List.length_pos_of_ne_nil hne
    rw [List.length_append] at hle
    omega
  rw [linkWord_append hnone, linkWord_of_beginsAddress (beginsAddress_iff.mpr hbegins)]

/-- Where an address stands in a word, there is a first one. -/
theorem exists_firstAddress_of_infix {word : Text}
    (h : "http://".toList <:+: word ∨ "https://".toList <:+: word) :
    ∃ before address, FirstAddress word before address := by
  obtain ⟨s, hs, hbegins⟩ : ∃ s, s <:+ word ∧ beginsAddress s = true := by
    rcases h with h | h
    · obtain ⟨s, hp, hs⟩ := List.infix_iff_prefix_suffix.mp h
      exact ⟨s, hs, beginsAddress_iff.mpr (Or.inl hp)⟩
    · obtain ⟨s, hp, hs⟩ := List.infix_iff_prefix_suffix.mp h
      exact ⟨s, hs, beginsAddress_iff.mpr (Or.inr hp)⟩
  obtain ⟨w, u, rfl, hu, -, hnone⟩ := exists_firstAddress hs hbegins
  exact ⟨w, u, firstAddress_of_noneBefore hu hnone⟩

/-- **Links are put in word by word.**  They are those that a scan from left to right puts in.  A
blank separates a text into two that are linked on their own.  A word without an address stays as it
is; of any other, the part from its first address on becomes one link. -/
theorem webLinks_wordwise :
    (∀ t, webLinks t = linkScan t) ∧
    (∀ a c b, isBlank c = true → webLinks (a ++ c :: b) = webLinks a ++ c :: webLinks b) ∧
    ∀ word, Unbroken word →
      (¬ "http://".toList <:+: word → ¬ "https://".toList <:+: word → webLinks word = word) ∧
      ("http://".toList <:+: word ∨ "https://".toList <:+: word →
        ∃ before address, FirstAddress word before address ∧
          webLinks word = before ++
            ("<a href=\"".toList ++
              (address ++ ("\">".toList ++ (address ++ "</a>".toList))))) := by
  refine ⟨fun t => (linkScan_eq t).symm, fun a c b hc => webLinks_append_blank a hc b, ?_⟩
  intro word hword
  refine ⟨fun hhttp hhttps => webLinks_eq_self fun w hw _ => ?_, fun h => ?_⟩
  · rw [Bool.eq_false_iff]
    intro hbegins
    rcases beginsAddress_iff.mp hbegins with hp | hp
    · exact hhttp (hp.isInfix.trans hw)
    · exact hhttps (hp.isInfix.trans hw)
  · obtain ⟨before, address, hfirst⟩ := exists_firstAddress_of_infix h
    refine ⟨before, address, hfirst, ?_⟩
    have hanchor := anchor_append address address []
    rw [List.append_nil, List.append_nil] at hanchor
    rw [webLinks_unbroken hword, linkWord_firstAddress hfirst, hanchor]

/-- A word with two addresses, the second inside of the first, and one that has only half a scheme,
with an ideographic space between them. -/
theorem webLinks_wordwise_nested :
    isBlank '\u3000' = true ∧ Unbroken "(http://a/?https://b".toList ∧ Unbroken "http:/c".toList ∧
      ∃ before address, FirstAddress "(http://a/?https://b".toList before address ∧
        webLinks ("(http://a/?https://b".toList ++ '\u3000' :: "http:/c".toList) =
          before ++
            ("<a href=\"".toList ++ (address ++ ("\">".toList ++ (address ++ "</a>".toList)))) ++
            '\u3000' :: "http:/c".toList := by
  have hlong : Unbroken "(http://a/?https://b".toList := unbroken_iff_all.mpr (by decide)
  have hshort : Unbroken "http:/c".toList := unbroken_iff_all.mpr (by decide)
  obtain ⟨-, hblank, hword⟩ := webLinks_wordwise
  have hsplit := hblank "(http://a/?https://b".toList '\u3000' "http:/c".toList (by decide)
  have hplain := (hword _ hshort).1 (mt Text.occurs_iff_infix.mpr (by decide))
    (mt Text.occurs_iff_infix.mpr (by decide))
  obtain ⟨before, address, hfirst, hlinked⟩ :=
    (hword _ hlong).2 (Or.inr (Text.occurs_iff_infix.mp (by decide)))
  exact ⟨by decide, hlong, hshort, before, address, hfirst, by rw [hsplit, hplain, hlinked]⟩

end ScriptDocs.Link
