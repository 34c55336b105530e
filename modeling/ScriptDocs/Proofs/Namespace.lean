import Mathlib.Order.Defs.Unbundled
import ScriptDocs.Namespace
import ScriptDocs.Proofs.Comment.Target
import ScriptDocs.Proofs.Text

/-!
# The closest namespace

A namespace holds a name when its parts are the first parts of the name.  The search for the
closest one keeps the best candidate seen so far together with its number of parts; for a
candidate that holds the name this number is simply its own length (`depth_of_holds`), so the
search is one for a longest candidate (`closest?_eq_some`).  It finds one as soon as some candidate
holds the name (`exists_closest?`).  Two namespaces with as many parts that hold one name are the
same (`eq_of_holds`), so there is no other candidate that the search could find
(`closest?_settled`).

On the texts themselves, a namespace holds what it is equal to and what goes on behind it with a dot
(`holds_iff_text`).  This is a partial order in which the namespaces of one name form a chain
(`holds_ordered`).

A namespace may be any text, but what holds a dotted name is a dotted name itself
(`isDottedName_of_holds`).
-/

namespace ScriptDocs.Namespace

/-! ### Holding a name -/

theorem holds_iff {space name : Text} : holds space name = true ↔ parts space <+: parts name := by
  rw [holds, List.isPrefixOf_iff_prefix]

theorem sharedParts_of_prefix {ps qs : List Text} (h : ps <+: qs) :
    sharedParts qs ps = ps.length := by
  induction ps generalizing qs with
  | nil => cases qs <;> rfl
  | cons p ps ih =>
    obtain ⟨rest, rfl⟩ := h
    simp only [List.cons_append, sharedParts, if_true, List.length_cons]
    rw [ih ⟨rest, rfl⟩]

theorem depth_of_holds {space name : Text} (h : holds space name = true) :
    depth (parts name) (parts space) = (parts space).length := by
  have hp := holds_iff.mp h
  have hle := hp.length_le
  rw [depth, if_neg (by omega), sharedParts_of_prefix hp]

/-! ### The search -/

/-- What a search leaves behind: the candidate it began with, if none is longer, or else a longest
one of those it went through. -/
theorem foldl_closer {name : Text} {cs : List Text} (hcs : ∀ m ∈ cs, holds m name = true)
    (best : Option Text × Nat) :
    (cs.foldl (closer name) best = best ∧ ∀ m ∈ cs, (parts m).length ≤ best.2) ∨
      ∃ space ∈ cs, cs.foldl (closer name) best = (some space, (parts space).length) ∧
        best.2 < (parts space).length ∧ ∀ m ∈ cs, (parts m).length ≤ (parts space).length := by
  induction cs generalizing best with
  | nil => exact Or.inl ⟨rfl, by simp⟩
  | cons c cs ih =>
    have hrest : ∀ m ∈ cs, holds m name = true := fun m hm => hcs m (by simp [hm])
    have hd := depth_of_holds (hcs c (by simp))
    by_cases hlt : best.2 < (parts c).length
    · have hstep : closer name best c = (some c, (parts c).length) := by
        simp only [closer, hd]
        rw [if_pos hlt]
      rw [List.foldl_cons, hstep]
      right
      rcases ih hrest (some c, (parts c).length) with ⟨he, hle⟩ | ⟨space, hmem, he, hgt, hle⟩
      · refine ⟨c, by simp, he, hlt, ?_⟩
        intro m hm
        rcases List.mem_cons.mp hm with rfl | hm
        · exact Nat.le_refl _
        · exact hle m hm
      · simp only at hgt
        refine ⟨space, by simp [hmem], he, by omega, ?_⟩
        intro m hm
        rcases List.mem_cons.mp hm with rfl | hm
        · omega
        · exact hle m hm
    · have hstep : closer name best c = best := by
        simp only [closer, hd]
        rw [if_neg hlt]
      rw [List.foldl_cons, hstep]
      rcases ih hrest best with ⟨he, hle⟩ | ⟨space, hmem, he, hgt, hle⟩
      · left
        refine ⟨he, ?_⟩
        intro m hm
        rcases List.mem_cons.mp hm with rfl | hm
        · omega
        · exact hle m hm
      · right
        refine ⟨space, by simp [hmem], he, hgt, ?_⟩
        intro m hm
        rcases List.mem_cons.mp hm with rfl | hm
        · omega
        · exact hle m hm

/-- **The closest namespace is a longest one of those that hold the name.** -/
theorem closest?_eq_some {name space : Text} {candidates : List Text}
    (h : closest? name candidates = some space) :
    space ∈ candidates ∧ holds space name = true ∧
      ∀ m ∈ candidates, holds m name = true → (parts m).length ≤ (parts space).length := by
  have hholds : ∀ m ∈ candidates.filter (holds · name), holds m name = true :=
    fun m hm => (List.mem_filter.mp hm).2
  rw [closest?] at h
  rcases foldl_closer hholds (none, 0) with ⟨he, _⟩ | ⟨best, hmem, he, _, hle⟩
  · rw [he] at h
    exact absurd h (by simp)
  · rw [he] at h
    obtain rfl := Option.some.inj h
    exact ⟨(List.mem_filter.mp hmem).1, hholds _ hmem,
      fun m hm hh => hle m (List.mem_filter.mpr ⟨hm, hh⟩)⟩

theorem parts_ne_nil (name : Text) : parts name ≠ [] := Text.fields_ne_nil '.' name

theorem exists_closest? {name : Text} {candidates : List Text}
    (h : someHolds candidates name = true) : ∃ space, closest? name candidates = some space := by
  obtain ⟨m, hm, hholds⟩ := List.any_eq_true.mp h
  have hmem : m ∈ candidates.filter (holds · name) := List.mem_filter.mpr ⟨hm, hholds⟩
  rcases foldl_closer (fun m hm => (List.mem_filter.mp hm).2) (none, 0) with
    ⟨-, hle⟩ | ⟨space, -, he, -⟩
  · -- every candidate has a part, so one that holds the name is better than none
    have hlen := hle m hmem
    have hpos := List.length_pos_iff.mpr (parts_ne_nil m)
    simp only at hlen
    omega
  · exact ⟨space, by rw [closest?, he]⟩

/-! ### One closest namespace -/

theorem intercalate_parts (name : Text) : List.intercalate ['.'] (parts name) = name := by
  rw [parts, Text.fields_eq_splitOn]
  exact List.intercalate_splitOn '.'

/-- **Namespaces with as many parts that hold one name are the same.** -/
theorem eq_of_holds {a b name : Text} (ha : holds a name = true) (hb : holds b name = true)
    (hlength : (parts a).length = (parts b).length) : a = b := by
  have hprefix : parts a <+: parts b :=
    List.prefix_of_prefix_length_le (holds_iff.mp ha) (holds_iff.mp hb) (Nat.le_of_eq hlength)
  rw [← intercalate_parts a, hprefix.eq_of_length hlength, intercalate_parts]

/-- The candidate holds the name and has more parts than any other that does. -/
structure IsClosest (name : Text) (candidates : List Text) (space : Text) : Prop where
  mem : space ∈ candidates
  holds_name : holds space name = true
  longest : ∀ c ∈ candidates, holds c name = true → c ≠ space →
    (parts c).length < (parts space).length

theorem closest?_eq_none_iff {name : Text} {candidates : List Text} :
    closest? name candidates = none ↔ ∀ c ∈ candidates, holds c name = false := by
  constructor
  · intro hnone c hc
    by_contra hholds
    have hsome : someHolds candidates name = true :=
      List.any_eq_true.mpr ⟨c, hc, (Bool.not_eq_false _).mp hholds⟩
    obtain ⟨space, hspace⟩ := exists_closest? hsome
    rw [hnone] at hspace
    cases hspace
  · intro hall
    cases hclosest : closest? name candidates with
    | none => rfl
    | some space =>
      obtain ⟨hmem, hholds, -⟩ := closest?_eq_some hclosest
      rw [hall space hmem] at hholds
      cases hholds

theorem isClosest_of_closest? {name space : Text} {candidates : List Text}
    (h : closest? name candidates = some space) : IsClosest name candidates space := by
  obtain ⟨hmem, hholds, hle⟩ := closest?_eq_some h
  refine ⟨hmem, hholds, ?_⟩
  intro c hc hcholds hne
  refine Nat.lt_of_le_of_ne (hle c hc hcholds) ?_
  intro hlength
  exact hne (eq_of_holds hcholds hholds hlength)

theorem closest?_eq_some_iff {name space : Text} {candidates : List Text} :
    closest? name candidates = some space ↔ IsClosest name candidates space := by
  refine ⟨isClosest_of_closest?, ?_⟩
  intro h
  obtain ⟨found, hfound⟩ := exists_closest? (List.any_eq_true.mpr ⟨space, h.mem, h.holds_name⟩)
  have hclosest := isClosest_of_closest? hfound
  -- two closest ones would each have more parts than the other
  by_cases hne : found = space
  · rw [hfound, hne]
  · have hlt := h.longest found hclosest.mem hclosest.holds_name hne
    have hgt := hclosest.longest space h.mem h.holds_name fun heq => hne heq.symm
    omega

/-- **The closest namespace is settled by the set of candidates.**  There is none exactly if no
candidate holds the name.  Otherwise it is the one candidate that holds the name and has more parts
than all others that do.  So neither the order of the candidates nor repeats among them matter. -/
theorem closest?_settled (name : Text) (candidates : List Text) :
    (closest? name candidates = none ↔ ∀ c ∈ candidates, holds c name = false) ∧
    (∀ space, closest? name candidates = some space ↔ IsClosest name candidates space) ∧
    ∀ others : List Text, (∀ c, c ∈ others ↔ c ∈ candidates) →
      closest? name others = closest? name candidates := by
  refine ⟨closest?_eq_none_iff, fun _ => closest?_eq_some_iff, ?_⟩
  intro others hsame
  cases hclosest : closest? name candidates with
  | none =>
    rw [closest?_eq_none_iff] at hclosest ⊢
    intro c hc
    exact hclosest c ((hsame c).mp hc)
  | some space =>
    rw [closest?_eq_some_iff] at hclosest ⊢
    refine ⟨(hsame space).mpr hclosest.mem, hclosest.holds_name, ?_⟩
    intro c hc
    exact hclosest.longest c ((hsame c).mp hc)

/-! ### The order of namespaces -/

theorem parts_append_dot (a b : Text) : parts (a ++ '.' :: b) = parts a ++ parts b :=
  Text.fields_append_cons '.' a b

theorem parts_injective {a b : Text} (h : parts a = parts b) : a = b := by
  rw [← intercalate_parts a, h, intercalate_parts]

/-- Between parts and those that follow them stands a dot. -/
theorem intercalate_append {ps rest : List Text} (hps : ps ≠ []) (hrest : rest ≠ []) :
    List.intercalate ['.'] (ps ++ rest) =
      List.intercalate ['.'] ps ++ '.' :: List.intercalate ['.'] rest := by
  induction ps with
  | nil => exact absurd rfl hps
  | cons p ps ih =>
    rw [List.cons_append, List.intercalate_cons_of_ne_nil (by simp [hrest])]
    by_cases hnil : ps = []
    · rw [hnil, List.nil_append, List.intercalate_singleton, List.append_assoc]
      rfl
    · rw [ih hnil, List.intercalate_cons_of_ne_nil hnil]
      simp only [List.append_assoc]

/-- **A namespace holds what goes on behind it with a dot**, and itself. -/
theorem holds_iff_text {space name : Text} :
    holds space name = true ↔ name = space ∨ space ++ ['.'] <+: name := by
  rw [holds_iff]
  constructor
  · intro h
    obtain ⟨rest, hrest⟩ := h
    by_cases hnil : rest = []
    · rw [hnil, List.append_nil] at hrest
      exact Or.inl (parts_injective hrest.symm)
    · refine Or.inr ⟨List.intercalate ['.'] rest, ?_⟩
      rw [← intercalate_parts name, ← hrest, intercalate_append (parts_ne_nil space) hnil,
        intercalate_parts, List.append_assoc]
      rfl
  · intro h
    rcases h with rfl | ⟨rest, rfl⟩
    · exact List.prefix_refl _
    · rw [List.append_assoc, List.singleton_append, parts_append_dot]
      exact List.prefix_append _ _

theorem holds_refl (space : Text) : holds space space = true :=
  holds_iff.mpr (List.prefix_refl _)

theorem holds_trans {a b c : Text} (hab : holds a b = true) (hbc : holds b c = true) :
    holds a c = true :=
  holds_iff.mpr ((holds_iff.mp hab).trans (holds_iff.mp hbc))

theorem holds_antisymm {a b : Text} (hab : holds a b = true) (hba : holds b a = true) : a = b := by
  have hle := (holds_iff.mp hab).length_le
  have hge := (holds_iff.mp hba).length_le
  exact parts_injective ((holds_iff.mp hab).eq_of_length (by omega))

/-- Of two namespaces that hold one name, the one with fewer parts holds the other. -/
theorem holds_or_holds {a b name : Text} (ha : holds a name = true) (hb : holds b name = true) :
    holds a b = true ∨ holds b a = true := by
  rw [holds_iff, holds_iff]
  exact List.prefix_or_prefix_of_prefix (holds_iff.mp ha) (holds_iff.mp hb)

/-- **Holding is an order by whole parts.**  A namespace holds itself and what goes on behind it
with a dot, whatever dots the two texts have.  This is a partial order of all texts, in which any
two namespaces that hold one name are comparable. -/
theorem holds_ordered :
    (∀ space name : Text,
      holds space name = true ↔ name = space ∨ space ++ ['.'] <+: name) ∧
    IsPartialOrder Text (fun space name => holds space name = true) ∧
    ∀ a b name : Text, holds a name = true → holds b name = true →
      holds a b = true ∨ holds b a = true := by
  refine ⟨fun _ _ => holds_iff_text, ?_, fun _ _ _ => holds_or_holds⟩
  exact {
    refl := holds_refl
    trans := fun _ _ _ => holds_trans
    antisymm := fun _ _ => holds_antisymm }

/-- A namespace does not end inside a part, but it may end with one that is empty. -/
theorem holds_ordered_sharedFront :
    holds "goog.string".toList "goog.stringify".toList = false ∧
    holds "goog".toList "goog.string..a".toList = true ∧
    holds "goog.string.".toList "goog.string..a".toList = true ∧
    holds "goog".toList "goog.string.".toList = true := by
  have hfirst : holds "goog".toList "goog.string..a".toList = true := by decide
  have hsecond : holds "goog.string.".toList "goog.string..a".toList = true := by decide
  have hnot : ¬ holds "goog.string.".toList "goog".toList = true := by decide
  have hchain := holds_ordered.2.2 _ _ _ hfirst hsecond
  exact ⟨by decide, hfirst, hsecond, hchain.resolve_right hnot⟩

/-! ### Dotted names -/

theorem isDottedName_iff_parts {name : Text} :
    Target.IsDottedName name ↔ ∀ p ∈ parts name, Target.IsIdentifier p := by
  rw [parts, Text.fields_eq_splitOn]
  constructor
  · rintro ⟨ps, hne, hid, rfl⟩
    rwa [List.splitOn_intercalate '.' (fun p hp => (hid p hp).dot_notMem) hne]
  · intro h
    exact ⟨name.splitOn '.', List.splitOn_ne_nil '.' name, h, (List.intercalate_splitOn '.').symm⟩

/-- **Only dotted names hold dotted names**, whatever a script passes off as a namespace. -/
theorem isDottedName_of_holds {space name : Text} (hname : Target.IsDottedName name)
    (h : holds space name = true) : Target.IsDottedName space := by
  rw [isDottedName_iff_parts] at hname ⊢
  intro p hp
  exact hname p ((holds_iff.mp h).subset hp)

theorem ne_nil_of_isDottedName {name : Text} (h : Target.IsDottedName name) : name ≠ [] := by
  rintro rfl
  exact (isDottedName_iff_parts.mp h [] List.mem_cons_self).1 rfl

/-! ### Properties of prototypes -/

/-- A name is that of a prototype's property when it has three parts or more and the last but one
is `prototype`. -/
theorem isPrototypeProperty_iff {name : Text} :
    isPrototypeProperty name = true ↔ 3 ≤ (parts name).length ∧
      (parts name)[(parts name).length - 2]? = some "prototype".toList := by
  unfold isPrototypeProperty
  generalize "prototype".toList = word
  generalize parts name = ps
  split
  · rename_i last holder front more hrev
    have hps : ps = more.reverse ++ [front, holder, last] := by
      rw [← List.reverse_reverse ps, hrev]
      simp
    have hlen : ps.length = more.length + 3 := by simp [hps]
    have hget : ps[ps.length - 2]? = some holder := by
      rw [hlen, hps, List.getElem?_append_right (by simp)]
      simp
    rw [hget]
    simp [hlen]
  · rename_i hshort
    have hlen : ps.length < 3 := by
      rw [← List.length_reverse]
      rcases hr : ps.reverse with _ | ⟨a, _ | ⟨b, _ | ⟨c, more⟩⟩⟩
      · simp
      · simp
      · simp
      · exact absurd hr (hshort a b c more)
    simp only [Bool.false_eq_true, false_iff, not_and]
    intro hge
    omega

theorem prototypeProperty_eq_ok {name : Text} (h : isPrototypeProperty name = true) :
    ∃ p, prototypeProperty name = .ok p ∧ (parts name).getLast? = some p := by
  have hne := parts_ne_nil name
  refine ⟨(parts name).getLast hne, ?_, List.getLast?_eq_some_getLast hne⟩
  rw [prototypeProperty, if_pos h, List.getLastD_eq_getLast?, List.getLast?_eq_some_getLast hne]
  rfl

end ScriptDocs.Namespace
