import Mathlib.Data.List.Nodup
import ScriptDocs.Html.Fragment
import ScriptDocs.Proofs.Catalog
import ScriptDocs.Proofs.Produced
import ScriptDocs.Site

/-!
# One page for each group

The way of symbols into the pages, for any symbols that all have owners.  They are collected, the
survivors are grouped by their owners, and `pageTrees` makes a page of each group until one cannot
be made.

* `Catalog.collect_grouped`: the whole way.  No symbol is lost or comes twice, and the pages have
  names of their own.
* `Catalog.pageTrees_unreadable`: a group need not get its page.
-/

namespace ScriptDocs

variable {parser : Html.Parser}

theorem Group.name_of_tree {g : Group} {t : PageTree} (h : g.tree parser = .ok t) :
    t.name = g.owner ++ ".html".toList := by
  unfold Group.tree at h
  cases hd : Page.document parser g.owner g.members with
  | error f =>
    rw [hd] at h
    exact nomatch h
  | ok tree =>
    rw [hd] at h
    rw [← Except.ok.inj h]

/-! ### The pages of groups -/

theorem upToFault_pageTrees (parser : Html.Parser) (gs : List Group) :
    Produced.UpToFault (Group.tree parser) gs (pageTrees parser gs) :=
  Produced.upToFault_through (Group.tree parser) gs

/-- The pages are named after the first of the groups. -/
theorem map_name_pageTrees (gs : List Group) :
    (pageTrees parser gs).items.map (·.name) =
      (gs.take (pageTrees parser gs).items.length).map fun g => g.owner ++ ".html".toList := by
  have hup := upToFault_pageTrees parser gs
  generalize pageTrees parser gs = p at hup ⊢
  obtain ⟨front, rest, rfl, hfront, -⟩ := hup
  have hlength : front.length = p.items.length := by
    simpa using congrArg List.length hfront
  rw [← hlength, List.take_left]
  exact Produced.map_eq_of_map_ok (fun _ _ htree => Group.name_of_tree htree) hfront

/-! ### From symbols to pages -/

namespace Catalog

/-- **From symbols to pages.**  What is collected are the survivors, and every other symbol is
passed over, skipped or warned about.  The groups part the survivors by their owners.  Each group in
turn gets a page under a name of its own, up to the first whose page cannot be made. -/
theorem collect_grouped (parser : Html.Parser) (siblings : Symbol → List Symbol)
    (symbols : List Symbol) (h : ∀ s ∈ symbols, s.owner? ≠ none) :
    (collect siblings symbols).symbols = survivors symbols ∧
    symbols.length = (survivors symbols).length +
      symbols.countP (fun s => s.identifier ∈ ignored) +
      symbols.countP (fun s => Source.isOfThis s.identifier) +
      (collect siblings symbols).notes.countP (fun n => n.level = .warning) ∧
    ∃ gs, Group.ofSymbols (collect siblings symbols).symbols = .ok gs ∧
      Group.Partition (survivors symbols) gs ∧
      ((gs.flatMap (·.members)).map (·.identifier)).Nodup ∧
      (gs.map fun g => g.owner ++ ".html".toList).Nodup ∧
      Produced.UpToFault (Group.tree parser) gs (pageTrees parser gs) ∧
      (pageTrees parser gs).items.map (·.name) =
        ((gs.take (pageTrees parser gs).items.length).map fun g => g.owner ++ ".html".toList) ∧
      ((pageTrees parser gs).items.length = gs.length ↔ ∀ g ∈ gs, ∃ t, g.tree parser = .ok t) := by
  have hkept : (collect siblings symbols).symbols = survivors symbols :=
    collect_symbols siblings symbols
  have howned : ∀ s ∈ survivors symbols, s.owner? ≠ none :=
    fun s hs => h s (survivors_subset symbols hs)
  have hpart := Group.partition_grouping howned
  refine ⟨hkept, hkept ▸ length_eq_collect siblings symbols,
    Group.grouping (survivors symbols), ?_, hpart, ?_, ?_, upToFault_pageTrees parser _,
    map_name_pageTrees _, (upToFault_pageTrees parser _).length_eq_iff⟩
  · rw [hkept]
    exact Group.ofSymbols_eq_ok howned
  · exact (hpart.members.map _).nodup_iff.mpr (nodup_survivors symbols)
  · -- the names differ since the owners do
    have hnames : ((Group.grouping (survivors symbols)).map fun g => g.owner ++ ".html".toList) =
        (Group.owners (survivors symbols)).map (· ++ ".html".toList) := by
      rw [← Group.map_owner_grouping, List.map_map]
      rfl
    rw [hnames]
    exact (Group.nodup_owners _).map fun _ _ heq => List.append_cancel_right heq

/-- Symbols of two namespaces, among them one that is passed over, one of `this`, and one that comes
again under another owner. -/
def mixed : List Symbol :=
  [("goog.provide", "goog"), ("a.f", "a"), ("this.x", "b"), ("b.g", "b"), ("a.f", "b"),
    ("a.h", "a")].map fun (identifier, owner) =>
      { Symbol.bare identifier.toList 0 1 with owner? := some owner.toList }

theorem collect_grouped_mixed :
    (∀ s ∈ mixed, s.owner? ≠ none) ∧
    (survivors mixed).map (·.identifier) = ["a.f", "b.g", "a.h"].map String.toList ∧
    ∃ gs, Group.ofSymbols (collect (fun _ => []) mixed).symbols = .ok gs ∧
      Group.Partition (survivors mixed) gs ∧
      Produced.UpToFault (Group.tree Html.fragment) gs (pageTrees Html.fragment gs) := by
  have howned : ∀ s ∈ mixed, s.owner? ≠ none := by decide
  obtain ⟨-, -, gs, hgs, hpart, -, -, hpages, -⟩ :=
    collect_grouped Html.fragment (fun _ => []) mixed howned
  exact ⟨howned, by decide, gs, hgs, hpart, hpages⟩

/-- A function whose one parameter is given without a type. -/
def unreadable : Symbol :=
  { identifier := "a.f".toList, start := 39, stop := 42, origin? := none
    comment? := some ⟨"@param x".toList, 19, 38, [⟨"@param".toList, "x".toList⟩], []⟩
    owner? := some "a".toList, property? := none, kind? := some .function, static? := some true }

/-- A flag that cannot be read keeps its group from having a page. -/
theorem pageTrees_unreadable :
    (∀ s ∈ [unreadable], s.owner? ≠ none) ∧
    ∃ gs, Group.ofSymbols (collect (fun _ => []) [unreadable]).symbols = .ok gs ∧
      (pageTrees Html.fragment gs).items.length ≠ gs.length := by
  refine ⟨by decide, [⟨"a".toList, [unreadable]⟩], by decide, ?_⟩
  decide +kernel

end Catalog

end ScriptDocs
