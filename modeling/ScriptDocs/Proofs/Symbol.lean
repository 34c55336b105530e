import Mathlib.Data.List.Nodup
import ScriptDocs.Proofs.Text
import ScriptDocs.Symbol.Basic

/-!
# Sorted symbols

Symbols are sorted by their identifiers, and sorting moves no two symbols with one identifier past
each other (`filter_sorted`).  So there is only one way to sort symbols with identifiers of their
own (`sorted_eq_of_perm`).
-/

namespace ScriptDocs.Symbol

theorem sorted_perm (symbols : List Symbol) : (sorted symbols).Perm symbols :=
  List.mergeSort_perm symbols _

theorem atMost_trans (a b c : Symbol) (hab : a.identifier.atMost b.identifier = true)
    (hbc : b.identifier.atMost c.identifier = true) : a.identifier.atMost c.identifier = true :=
  Text.atMost_trans hab hbc

theorem atMost_total (a b : Symbol) :
    (a.identifier.atMost b.identifier || b.identifier.atMost a.identifier) = true :=
  Text.atMost_total _ _

theorem pairwise_sorted (symbols : List Symbol) :
    (sorted symbols).Pairwise fun a b => a.identifier.atMost b.identifier = true :=
  List.pairwise_mergeSort atMost_trans atMost_total symbols

/-- **There is one way to sort** symbols with identifiers of their own. -/
theorem sorted_eq_of_perm {xs ys : List Symbol} (h : xs.Perm ys)
    (hnodup : (xs.map (·.identifier)).Nodup) : sorted xs = sorted ys := by
  have hx := sorted_perm xs
  have hy := sorted_perm ys
  refine List.Perm.eq_of_pairwise ?_ (pairwise_sorted xs) (pairwise_sorted ys)
    (hx.trans (h.trans hy.symm))
  intro a b ha hb hab hba
  have ha : a ∈ xs := hx.mem_iff.mp ha
  have hb : b ∈ xs := h.mem_iff.mpr (hy.mem_iff.mp hb)
  exact List.inj_on_of_nodup_map hnodup ha hb (Text.atMost_antisymm hab hba)

theorem atMost_of_mem_filter {symbols : List Symbol} {x : Text} {a b : Symbol}
    (ha : a ∈ symbols.filter (·.identifier = x)) (hb : b ∈ symbols.filter (·.identifier = x)) :
    a.identifier.atMost b.identifier = true := by
  have ha : a.identifier = x := of_decide_eq_true (List.mem_filter.mp ha).2
  have hb : b.identifier = x := of_decide_eq_true (List.mem_filter.mp hb).2
  have hrefl := Text.atMost_total x x
  rw [Bool.or_self] at hrefl
  rw [ha, hb, hrefl]

/-- **Symbols with one identifier stay in their order** when symbols are sorted. -/
theorem filter_sorted (symbols : List Symbol) (x : Text) :
    (sorted symbols).filter (·.identifier = x) = symbols.filter (·.identifier = x) := by
  have hequal : (symbols.filter (·.identifier = x)).Pairwise
      fun a b => a.identifier.atMost b.identifier = true :=
    List.pairwise_iff_forall_sublist.mpr fun hsub =>
      atMost_of_mem_filter (hsub.subset (by simp)) (hsub.subset (by simp))
  have hsub : (symbols.filter (·.identifier = x)).Sublist (sorted symbols) :=
    List.sublist_mergeSort atMost_trans atMost_total hequal List.filter_sublist
  -- the symbols stand in the sorted list in their order, and there are no others
  have hfilter := hsub.filter (·.identifier = x)
  rw [List.filter_filter] at hfilter
  simp only [Bool.and_self] at hfilter
  refine (hfilter.eq_of_length ?_).symm
  exact ((sorted_perm symbols).symm.filter _).length_eq

end ScriptDocs.Symbol
