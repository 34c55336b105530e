import Mathlib.Data.List.Basic
import Mathlib.Data.List.TakeWhile

/-!
# Lists

Laws of lists of anything, which the theory of texts and of pages uses.
-/

namespace ScriptDocs

/-! ### Cutting -/

/-- What is read up to a stop does not depend on what follows, if that begins with a stop. -/
theorem takeWhile_append_of_head {α : Type} {p : α → Bool} {a b : List α}
    (hb : ∀ c, b.head? = some c → p c = false) : (a ++ b).takeWhile p = a.takeWhile p := by
  have hnil : b.takeWhile p = [] := by
    cases b with
    | nil => rfl
    | cons c cs => rw [List.takeWhile_cons_of_neg (by simp [hb c rfl])]
  rw [List.takeWhile_append]
  split
  · rename_i hall
    rw [hnil, List.append_nil]
    exact ((List.takeWhile_prefix p).eq_of_length hall).symm
  · rfl

theorem dropWhile_append_of_head {α : Type} {p : α → Bool} {a b : List α}
    (hb : ∀ c, b.head? = some c → p c = false) : (a ++ b).dropWhile p = a.dropWhile p ++ b := by
  have hsplit := List.takeWhile_append_dropWhile (p := p) (l := a ++ b)
  rw [takeWhile_append_of_head hb] at hsplit
  conv_rhs at hsplit => rw [← List.takeWhile_append_dropWhile (p := p) (l := a)]
  rw [List.append_assoc] at hsplit
  exact List.append_cancel_left hsplit

/-- Cutting off stops only at what is not to be cut off. -/
theorem eq_false_of_head?_dropWhile {α : Type} {p : α → Bool} {l : List α} {c : α}
    (h : (l.dropWhile p).head? = some c) : p c = false := by
  have hnot := List.head?_dropWhile_not p l
  rwa [h] at hnot

/-- What stands in front of a mark reaches up to the first one. -/
theorem takeWhile_ne_iff {α : Type} [DecidableEq α] {mark : α} {a b : List α} :
    (a ++ mark :: b).takeWhile (· ≠ mark) = a ↔ mark ∉ a := by
  rw [takeWhile_append_of_head (by simp), List.takeWhile_eq_self_iff]
  constructor
  · intro h hmem
    simpa using h mark hmem
  · intro h c hc
    have hne : c ≠ mark := fun he => h (he ▸ hc)
    simpa using hne

theorem dropWhile_ne {α : Type} [DecidableEq α] {mark : α} {a : List α} (h : mark ∉ a)
    (b : List α) : (a ++ mark :: b).dropWhile (· ≠ mark) = mark :: b := by
  have happend := List.takeWhile_append_dropWhile (p := (· ≠ mark)) (l := a ++ mark :: b)
  rw [takeWhile_ne_iff.mpr h] at happend
  exact List.append_cancel_left happend

/-! ### Sorting by keys -/

/-- A list comes apart by keys into what has each key. -/
theorem perm_flatMap_filter {α κ : Type} [DecidableEq κ] (key : α → κ) {ks : List κ}
    (hks : ks.Nodup) (l : List α) (h : ∀ a ∈ l, key a ∈ ks) :
    (ks.flatMap fun k => l.filter fun a => key a = k).Perm l := by
  induction ks generalizing l with
  | nil =>
    have hnil : l = [] := List.eq_nil_iff_forall_not_mem.mpr fun a ha => nomatch h a ha
    rw [hnil]
    rfl
  | cons k ks ih =>
    obtain ⟨hk, hks⟩ := List.nodup_cons.mp hks
    let others := l.filter fun a => !decide (key a = k)
    have hothers : ∀ a ∈ others, key a ∈ ks := by
      intro a ha
      obtain ⟨ha, hne⟩ := List.mem_filter.mp ha
      exact (List.mem_cons.mp (h a ha)).resolve_left (by simpa using hne)
    -- the other keys are found among what does not have the first one
    have hrest : (ks.flatMap fun k' => l.filter fun a => key a = k') =
        ks.flatMap fun k' => others.filter fun a => key a = k' := by
      refine List.flatMap_congr fun k' hk' => ?_
      rw [List.filter_filter]
      refine List.filter_congr fun a _ => ?_
      by_cases he : key a = k'
      · have hne : ¬ k' = k := fun hkk => hk (hkk ▸ hk')
        simp [he, hne]
      · simp [he]
    rw [List.flatMap_cons, hrest]
    exact ((ih hks others hothers).append_left _).trans (List.filter_append_perm _ l)

end ScriptDocs
