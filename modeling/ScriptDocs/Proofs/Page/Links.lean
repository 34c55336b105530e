import ScriptDocs.Proofs.Page.Summaries

/-!
# Links inside a page

A page sums up its public functions before it describes them.  A line of a summary links to the
description by the name that the function is summed up under; the heading of the description goes
by the identifier.  For a static function the two are the same.  An instance method is summed up
under its property alone, so its link leads somewhere only if something else on the page happens to
go by that name.

* `LeadsTo`: where a line of a summary leads (`mem_linkTargets_summaryEntry`).
* `mem_linkTargets_summaries`: the links of the summaries, which are found on a page by their
  titles.
* `summary_links_resolve_iff` compares the links with the headings.
-/

namespace ScriptDocs.Page

open Html

variable {parser : Parser}

/-! ### Links of a summary -/

/-- Where the line of a function in a summary leads: to the name that it is summed up under, and
wherever the markup in the description leads. -/
inductive LeadsTo (parser : Parser) (s : Symbol) (x : Text) : Prop
  | name {name : Text} (hname : summaryName s = .ok name) (hx : x = '#' :: name)
  | markup {d : Text} (hd : firstDescription? s = some d) (hx : x ∈ linkTargets (prose parser d))

theorem mem_linkTargets_summaryEntry {s : Symbol} {n : Node} {x : Text}
    (h : summaryEntry parser s = .ok n) : x ∈ linkTargets [n] ↔ LeadsTo parser s x := by
  obtain ⟨name, texts, hname, rfl⟩ := summaryEntry_eq_ok h
  rw [linkTargets, nodesValues, nodesValues, List.append_nil, mem_values_summaryEntry,
    mem_values_link]
  constructor
  · rintro (⟨-, -, rfl⟩ | ⟨d, hd, hx⟩)
    · exact .name hname rfl
    · exact .markup hd hx
  · intro hx
    cases hx with
    | name hname' hx =>
      obtain rfl := Except.ok.inj (hname.symm.trans hname')
      exact Or.inl ⟨decide_eq_true rfl, rfl, hx⟩
    | markup hd hx => exact Or.inr ⟨_, hd, hx⟩

/-! ### Summaries by their titles -/

def bodyOf : Node → List Node
  | .element _ _ [.element _ _ nodes] => nodes
  | _ => []

/-- What stands below the headings with the title of a summary. -/
def Summary.nodes (m : Summary) (tree : Node) : List Node :=
  ((passages "h2".toList (bodyOf tree)).filter (·.1 = m.title)).flatMap (·.2)

def summaries (tree : Node) : List Node :=
  Summary.instanceMethods.nodes tree ++ Summary.staticMethods.nodes tree

theorem Summary.members_eq_nil {m : Summary} {symbols : List Symbol}
    (h : m.isShown symbols = false) : m.members symbols = [] := by
  rw [List.eq_nil_iff_forall_not_mem]
  intro s hs
  obtain ⟨hs, htakes, hpublic⟩ := mem_members.mp hs
  have hshown := isShown_iff.mpr ⟨s, hs, htakes, fun _ => hpublic⟩
  rw [h] at hshown
  cases hshown

section

variable {symbols : List Symbol}

/-- The links of a summary are those of its lines. -/
theorem mem_linkTargets_nodes {owner : Text} {tree : Node} {x : Text}
    (h : document parser owner symbols = .ok tree) (m : Summary) :
    x ∈ linkTargets (m.nodes tree) ↔ ∃ s ∈ m.members symbols, LeadsTo parser s x := by
  obtain ⟨c, rfl⟩ := exists_sections h
  obtain ⟨entries, hentries, hpassages⟩ := c.passages_summary owner m
  have hbody : bodyOf (elementOf "html" [elementOf "body" (c.nodes owner)]) = c.nodes owner := rfl
  rw [Summary.nodes, hbody, hpassages]
  cases hshown : m.isShown symbols with
  | false =>
    rw [m.members_eq_nil hshown]
    simp [linkTargets, nodesValues]
  | true =>
    have hline : ∀ {s n}, summaryEntry parser s = .ok n →
        (x ∈ n.values (· = "a".toList) "href".toList ↔ LeadsTo parser s x) := by
      intro s n hn
      rw [← mem_linkTargets_summaryEntry hn, linkTargets, nodesValues, nodesValues, List.append_nil]
    simp only [if_true, List.flatMap_singleton, linkTargets, nodesValues, values_elementOf,
      List.append_nil, mem_nodesValues, mem_of_mapM hentries]
    constructor
    · rintro ⟨n, ⟨s, hs, hn⟩, hx⟩
      exact ⟨s, hs, (hline hn).mp hx⟩
    · rintro ⟨s, hs, hx⟩
      obtain ⟨n, hn⟩ := exists_of_mapM hentries hs
      exact ⟨n, ⟨s, hs, hn⟩, (hline hn).mpr hx⟩

/-- Every public function is in one of the summaries. -/
theorem exists_mem_members {s : Symbol} (hs : s ∈ symbols) (hk : s.kind? = some .function)
    (hpublic : isPublic s = true) : ∃ m : Summary, s ∈ m.members symbols := by
  cases hstatic : s.isStatic with
  | false =>
    exact ⟨.instanceMethods, Summary.mem_members.mpr ⟨hs, by simp [Summary.takes, *], hpublic⟩⟩
  | true =>
    exact ⟨.staticMethods, Summary.mem_members.mpr ⟨hs, by simp [Summary.takes, *], hpublic⟩⟩

/-- The links of the summaries are those of the public functions. -/
theorem mem_linkTargets_summaries {owner : Text} {tree : Node} {x : Text}
    (h : document parser owner symbols = .ok tree) :
    x ∈ linkTargets (summaries tree) ↔
      ∃ s ∈ symbols, s.kind? = some .function ∧ isPublic s = true ∧ LeadsTo parser s x := by
  have hsummaries : x ∈ linkTargets (summaries tree) ↔
      ∃ m : Summary, ∃ s ∈ m.members symbols, LeadsTo parser s x := by
    rw [linkTargets, summaries, nodesValues_append, List.mem_append]
    rw [← linkTargets, ← linkTargets, mem_linkTargets_nodes h, mem_linkTargets_nodes h]
    constructor
    · rintro (hx | hx)
      · exact ⟨_, hx⟩
      · exact ⟨_, hx⟩
    · rintro ⟨m, hx⟩
      cases m with
      | instanceMethods => exact Or.inl hx
      | staticMethods => exact Or.inr hx
  rw [hsummaries]
  constructor
  · rintro ⟨m, s, hs, hx⟩
    obtain ⟨hs, htakes, hpublic⟩ := Summary.mem_members.mp hs
    exact ⟨s, hs, m.kind_of_takes htakes, hpublic, hx⟩
  · rintro ⟨s, hs, hk, hpublic, hx⟩
    obtain ⟨m, hm⟩ := exists_mem_members hs hk hpublic
    exact ⟨m, s, hm, hx⟩

/-- A page is made only if every public function on it has a name to be summed up under. -/
theorem exists_summaryName {owner : Text} {tree : Node}
    (h : document parser owner symbols = .ok tree) {s : Symbol} (hs : s ∈ symbols)
    (hk : s.kind? = some .function) (hpublic : isPublic s = true) :
    ∃ name, summaryName s = .ok name := by
  obtain ⟨c, -⟩ := exists_sections h
  obtain ⟨m, hm⟩ := exists_mem_members hs hk hpublic
  obtain ⟨entries, hentries, -⟩ := c.passages_summary owner m
  obtain ⟨n, hn⟩ := exists_of_mapM hentries hm
  obtain ⟨name, -, hname, -⟩ := summaryEntry_eq_ok hn
  exact ⟨name, hname⟩

/-! ### Links and headings -/

theorem anchored_identifier {s : Symbol} (hs : s ∈ symbols) (hk : s.kind? = some .function) :
    Anchored parser symbols s.identifier :=
  ⟨.function, by decide, s, hs, hk, .title hk rfl⟩

/-- A static function is summed up under its identifier, so the name that counts is the property of
an instance method. -/
theorem anchored_summaryName_iff {s : Symbol} {name : Text} (hs : s ∈ symbols)
    (hk : s.kind? = some .function) (hname : summaryName s = .ok name) :
    Anchored parser symbols name ↔
      (s.isStatic = false → ∀ p, s.property? = some p → Anchored parser symbols p) := by
  unfold summaryName at hname
  split at hname
  · rename_i hstatic
    rw [← Except.ok.inj hname]
    exact iff_of_true (anchored_identifier hs hk) fun h => absurd hstatic (by rw [h]; exact nofun)
  · rename_i hstatic
    split at hname
    · exact nomatch hname
    · rename_i p hp
      obtain rfl := Except.ok.inj hname
      constructor
      · intro h _ p' hp'
        obtain rfl := Option.some.inj (hp.symm.trans hp')
        exact h
      · intro h
        exact h ((Bool.not_eq_true _).mp hstatic) p hp

end

/-- **The links of the summaries.**  Every public function has a line in a summary, with a link to
the name that it is summed up under, and a heading that goes by its identifier.  All links inside
the page lead to a heading exactly if, for each public function, its property does when it is an
instance method, and so do the links in the part of its description that the summary repeats. -/
theorem summary_links_resolve_iff {owner : Text} {symbols : List Symbol} {tree : Node}
    (h : document parser owner symbols = .ok tree) :
    (∀ s ∈ symbols, s.kind? = some .function → isPublic s = true →
      ∃ name, summaryName s = .ok name ∧ '#' :: name ∈ linkTargets (summaries tree) ∧
        s.identifier ∈ headingIds [tree]) ∧
    ((∀ x, '#' :: x ∈ linkTargets (summaries tree) → x ∈ headingIds [tree]) ↔
      ∀ s ∈ symbols, s.kind? = some .function → isPublic s = true →
        (s.isStatic = false → ∀ p, s.property? = some p → Anchored parser symbols p) ∧
        ∀ d x, firstDescription? s = some d → '#' :: x ∈ linkTargets (prose parser d) →
          Anchored parser symbols x) := by
  constructor
  · intro s hs hk hpublic
    obtain ⟨name, hname⟩ := exists_summaryName h hs hk hpublic
    refine ⟨name, hname, ?_, (mem_headingIds_document h).mpr (anchored_identifier hs hk)⟩
    exact (mem_linkTargets_summaries h).mpr ⟨s, hs, hk, hpublic, .name hname rfl⟩
  · simp only [mem_linkTargets_summaries h, mem_headingIds_document h]
    constructor
    · intro hall s hs hk hpublic
      obtain ⟨name, hname⟩ := exists_summaryName h hs hk hpublic
      constructor
      · rw [← anchored_summaryName_iff hs hk hname]
        exact hall name ⟨s, hs, hk, hpublic, .name hname rfl⟩
      · intro d x hd hx
        exact hall x ⟨s, hs, hk, hpublic, .markup hd hx⟩
    · rintro hall x ⟨s, hs, hk, hpublic, hx⟩
      obtain ⟨hproperty, hmarkup⟩ := hall s hs hk hpublic
      cases hx with
      | name hname hx =>
        obtain rfl := (List.cons.inj hx).2
        exact (anchored_summaryName_iff hs hk hname).mpr hproperty
      | markup hd hx => exact hmarkup _ x hd hx

/-- A script with a static function, whose description links to the function itself. -/
def selfLinking : Text :=
  "goog.provide('a');\n/**\n * <a href=\"#a.f\">F</a>.\n * @return {b}\n */\na.f = 0;".toList

theorem summary_links_resolve_iff_selfLinking :
    ∃ source notes tree, Source.scan selfLinking none = .ok (source, notes) ∧
      document fragment "a".toList source.symbols = .ok tree ∧
      linkTargets (summaries tree) = ["#a.f", "#a.f"].map String.toList ∧
      ∀ x, '#' :: x ∈ linkTargets (summaries tree) → x ∈ headingIds [tree] := by
  let d := "<a href=\"#a.f\">F</a>.".toList
  have hprose : linkTargets (prose fragment d) = ["#a.f".toList] := by decide +kernel
  have hviews : ((Source.scan selfLinking none).toOption.bind fun scanned =>
      (document fragment "a".toList scanned.1.symbols).toOption.map fun tree =>
        (scanned.1.symbols.all (fun s => s.isStatic && s.identifier = "a.f".toList &&
          firstDescription? s = some d), linkTargets (summaries tree))) =
      some (true, ["#a.f", "#a.f"].map String.toList) := by decide +kernel
  obtain ⟨⟨source, notes⟩, hscan, hviews⟩ := Option.bind_eq_some_iff.mp hviews
  obtain ⟨tree, htree, hviews⟩ := Option.map_eq_some_iff.mp hviews
  obtain ⟨hsymbols, hlinks⟩ := Prod.mk.inj hviews
  have hok := eq_ok_of_toOption htree
  refine ⟨source, notes, tree, eq_ok_of_toOption hscan, hok, hlinks, ?_⟩
  refine (summary_links_resolve_iff hok).2.mpr fun s hs hk _ => ?_
  have hs' := List.all_eq_true.mp hsymbols s hs
  simp only [Bool.and_eq_true, decide_eq_true_eq] at hs'
  obtain ⟨⟨hstatic, hidentifier⟩, hfirst⟩ := hs'
  refine ⟨fun h => absurd hstatic (by rw [h]; exact nofun), fun d' x hd' hx => ?_⟩
  -- the only link in the description is the function's own
  obtain rfl := Option.some.inj (hfirst.symm.trans hd')
  rw [hprose, List.mem_singleton] at hx
  have hx : x = s.identifier := by rw [hidentifier]; exact (List.cons.inj hx).2
  rw [hx]
  exact anchored_identifier hs hk

def instanceMethod : Text :=
  "goog.provide('a.A');\n/**\n * @return {b}\n */\na.A.prototype.f = 0;".toList

/-- The link of an instance method leads nowhere: its heading goes by the identifier. -/
theorem link_without_heading :
    ∃ source notes tree, Source.scan instanceMethod none = .ok (source, notes) ∧
      document fragment "a.A".toList source.symbols = .ok tree ∧
      linkTargets (summaries tree) = ["#f".toList] ∧
      headingIds [tree] = ["a.A.prototype.f".toList] := by
  have hviews : ((Source.scan instanceMethod none).toOption.bind fun scanned =>
      (document fragment "a.A".toList scanned.1.symbols).toOption.map fun tree =>
        (linkTargets (summaries tree), headingIds [tree])) =
      some (["#f".toList], ["a.A.prototype.f".toList]) := by decide +kernel
  obtain ⟨⟨source, notes⟩, hscan, hviews⟩ := Option.bind_eq_some_iff.mp hviews
  obtain ⟨tree, htree, hviews⟩ := Option.map_eq_some_iff.mp hviews
  obtain ⟨hlinks, hids⟩ := Prod.mk.inj hviews
  exact ⟨source, notes, tree, eq_ok_of_toOption hscan, eq_ok_of_toOption htree, hlinks, hids⟩

end ScriptDocs.Page
