import Mathlib.Data.List.Forall2
import ScriptDocs.Html.Fragment
import ScriptDocs.Proofs.Html.Passages
import ScriptDocs.Proofs.List
import ScriptDocs.Proofs.Page.Anchors
import ScriptDocs.Proofs.Symbol

/-!
# The divisions of a page

A page describes its symbols in divisions: each kind has its own, and for functions and properties
there are two, for instances and for the namespace itself.  The page finds the symbols of each by
filters of its own over the sorted symbols, and puts two summaries between them.  Here it is read
back by its headings alone.

* `Division.of?`: the division of a symbol.  Together the divisions hold every symbol once
  (`Division.perm_members`), each in order (`Division.pairwise_members`, `Division.filter_members`).
* `IsEntry`: what an entry looks like from outside; so the passages of entries are those of the
  symbols (`shows_passages`).
* `Division.OnPage`: what a division comes to on a page (`Sections.onPage`).
* `content_divided`: the whole page.
-/

namespace ScriptDocs.Page

open Html

variable {parser : Parser}

/-! ### Divisions -/

/-- The parts of a page that describe symbols. -/
inductive Division where
  | constructors
  | interfaces
  | enumerations
  | instanceMethods
  | instanceProperties
  | staticMethods
  | staticProperties
deriving DecidableEq, Repr

namespace Division

def all : List Division :=
  [.constructors, .interfaces, .enumerations, .instanceMethods, .instanceProperties,
    .staticMethods, .staticProperties]

def title : Division → Text
  | .constructors => "Constructor".toList
  | .interfaces => "Interface".toList
  | .enumerations => "Enumerations".toList
  | .instanceMethods => "Instance methods".toList
  | .instanceProperties => "Instance properties".toList
  | .staticMethods => "Static methods".toList
  | .staticProperties => "Static properties".toList

/-- The division for a kind of symbols.  Functions and properties are parted by whether they are
static. -/
def ofKind? : Kind → (isStatic : Bool) → Option Division
  | .constructor, _ => some .constructors
  | .interface, _ => some .interfaces
  | .enumeration, _ => some .enumerations
  | .function, false => some .instanceMethods
  | .function, true => some .staticMethods
  | .property, false => some .instanceProperties
  | .property, true => some .staticProperties
  | .other _, _ => none

def of? (s : Symbol) : Option Division := s.kind?.bind fun k => ofKind? k s.isStatic

def entry (parser : Parser) : Division → Symbol → Except Fault (List Node)
  | .constructors | .interfaces | .enumerations => symbolEntry parser
  | .instanceMethods | .staticMethods => ruled (functionEntry parser)
  | .instanceProperties | .staticProperties => ruled (symbolEntry parser)

def members (d : Division) (symbols : List Symbol) : List Symbol :=
  (Symbol.sorted symbols).filter fun s => of? s = some d

theorem title_mem (d : Division) : d.title ∈ all.map title := by
  refine List.mem_map_of_mem ?_
  cases d <;> decide

theorem pairwise_members (d : Division) (symbols : List Symbol) :
    (d.members symbols).Pairwise fun a b => a.identifier.atMost b.identifier = true :=
  (Symbol.pairwise_sorted symbols).filter _

theorem filter_members (d : Division) (symbols : List Symbol) (x : Text) :
    (d.members symbols).filter (·.identifier = x) =
      symbols.filter fun s => of? s = some d ∧ s.identifier = x := by
  rw [members, List.filter_comm, Symbol.filter_sorted, List.filter_filter]
  congr 1
  funext s
  rw [Bool.decide_and]

/-- **Every symbol is in one division.** -/
theorem perm_members {symbols : List Symbol} (h : ∀ s ∈ symbols, of? s ≠ none) :
    (all.flatMap fun d => d.members symbols).Perm symbols := by
  have hkeys : (all.map some).Nodup := by decide
  have hmem : ∀ s ∈ Symbol.sorted symbols, of? s ∈ all.map some := by
    intro s hs
    obtain ⟨d, hd⟩ :=
      Option.ne_none_iff_exists'.mp (h s ((Symbol.sorted_perm symbols).mem_iff.mp hs))
    rw [hd]
    refine List.mem_map_of_mem ?_
    cases d <;> decide
  have hperm := perm_flatMap_filter of? hkeys _ hmem
  rw [List.flatMap_map] at hperm
  exact hperm.trans (Symbol.sorted_perm symbols)

end Division

/-! ### Entries -/

/-- The elements below the heading of an entry. -/
def entryNames : List Text := ["pre", "h4", "dl", "p", "hr"].map String.toList

/-- Nodes that describe a symbol: a heading with the identifier, and what is said below it. -/
def IsEntry (s : Symbol) (es : List Node) : Prop :=
  ∃ title rest, es = title :: rest ∧ title.isNamed "h3".toList = true ∧
    title.label = s.identifier ∧ Within entryNames rest

theorem isNamed_heading (content : Text) : (heading (content)).isNamed "h2".toList = true :=
  isNamed_element _ _ _

theorem label_heading (content : Text) : (heading (content)).label = content := label_labelled _ _

theorem within_paragraphs (c : Comment) : Within entryNames (paragraphs parser c) := by
  intro n hn
  obtain ⟨d, -, rfl⟩ := List.mem_map.mp hn
  exact ⟨"p".toList, by decide, isNamed_element _ _ _⟩

theorem within_parameterList (ps : List Parameter) :
    Within entryNames (parameterList parser ps) := by
  unfold parameterList
  split
  · exact within_nil
  · exact .cons (isNamed_element _ _ _) (by decide)
      (.cons (isNamed_element _ _ _) (by decide) within_nil)

theorem within_returnParagraph (r? : Option Returned) :
    Within entryNames (returnParagraph parser r?) := by
  cases r? with
  | none => exact within_nil
  | some r =>
    exact .cons (isNamed_element _ _ _) (by decide)
      (.cons (isNamed_element _ _ _) (by decide) within_nil)

theorem within_rule : Within entryNames [rule] :=
  .cons (isNamed_element _ _ _) (by decide) within_nil

theorem isEntry_functionEntry {s : Symbol} {es : List Node} (h : functionEntry parser s = .ok es) :
    IsEntry s es := by
  obtain ⟨c, g, full, -, -, rfl⟩ := functionEntry_eq_ok h
  refine ⟨titleOf s, _, rfl, isNamed_element _ _ _, label_element _ _ _, ?_⟩
  refine Within.append (Within.append ?_ (within_returnParagraph _)) (within_paragraphs c)
  exact .cons (isNamed_element _ _ _) (by decide) (within_parameterList _)

theorem isEntry_symbolEntry {s : Symbol} {es : List Node} (h : symbolEntry parser s = .ok es) :
    IsEntry s es := by
  obtain ⟨c, -, rfl⟩ := symbolEntry_eq_ok h
  exact ⟨_, _, rfl, isNamed_element _ _ _, label_labelled _ _, within_paragraphs c⟩

theorem isEntry_ruled {entry : Symbol → Except Fault (List Node)} {s : Symbol} {ns : List Node}
    (h : ruled entry s = .ok ns) (hentry : ∀ es, entry s = .ok es → IsEntry s es) :
    IsEntry s ns := by
  obtain ⟨es, hes, rfl⟩ := ruled_eq_ok_iff.mp h
  obtain ⟨title, rest, rfl, hnamed, hlabel, hrest⟩ := hentry es hes
  exact ⟨title, rest ++ [rule], rfl, hnamed, hlabel, hrest.append within_rule⟩

theorem Division.isEntry_of_entry (d : Division) {s : Symbol} {es : List Node}
    (h : d.entry parser s = .ok es) : IsEntry s es := by
  cases d with
  | constructors => exact isEntry_symbolEntry h
  | interfaces => exact isEntry_symbolEntry h
  | enumerations => exact isEntry_symbolEntry h
  | instanceMethods => exact isEntry_ruled h fun _ => isEntry_functionEntry
  | instanceProperties => exact isEntry_ruled h fun _ => isEntry_symbolEntry
  | staticMethods => exact isEntry_ruled h fun _ => isEntry_functionEntry
  | staticProperties => exact isEntry_ruled h fun _ => isEntry_symbolEntry

/-! ### Divisions on a page -/

/-- A passage that describes a symbol: the heading shows the identifier, and the nodes below are
those of the division's entry. -/
def Division.Shows (parser : Parser) (d : Division) (s : Symbol) (p : Text × List Node) : Prop :=
  p.1 = s.identifier ∧ ∃ title, d.entry parser s = .ok (title :: p.2)

/-- **The passages of entries.** -/
theorem shows_passages (d : Division) {ss : List Symbol} {entries : List (List Node)}
    (h : ss.map (d.entry parser) = entries.map Except.ok) :
    List.Forall₂ (d.Shows parser) ss (passages "h3".toList entries.flatten) ∧
      Within ("h3".toList :: entryNames) entries.flatten ∧
      ∀ n, entries.flatten.head? = some n → n.isNamed "h3".toList = true := by
  induction ss generalizing entries with
  | nil =>
    obtain rfl := List.map_eq_nil_iff.mp h.symm
    exact ⟨.nil, within_nil, fun n hn => nomatch hn⟩
  | cons s ss ih =>
    cases entries with
    | nil => cases h
    | cons es entries =>
      obtain ⟨hes, h⟩ := List.cons.inj h
      obtain ⟨hshows, hwithin, hopens⟩ := ih h
      obtain ⟨title, rest, rfl, hnamed, hlabel, hrest⟩ := d.isEntry_of_entry hes
      have hlacks : ∀ n ∈ rest, n.isNamed "h3".toList = false :=
        hrest.isNamed_eq_false (by decide)
      rw [List.flatten_cons, passages_append hopens, passages_heading hnamed hlacks]
      refine ⟨.cons ⟨hlabel, title, hes⟩ hshows, ?_, ?_⟩
      · refine Within.append ?_ hwithin
        exact .cons hnamed List.mem_cons_self (hrest.mono (List.subset_cons_self _ _))
      · rintro n ⟨⟩
        exact hnamed

/-- What a division comes to on a page: nothing if it has no symbols, else its heading and below it
the entries of the symbols. -/
structure Division.OnPage (parser : Parser) (d : Division) (symbols : List Symbol)
    (ns : List Node) : Prop where
  nodes_eq : ns = if d.members symbols = [] then [] else heading d.title :: ns.tail
  shows : List.Forall₂ (d.Shows parser) (d.members symbols) (passages "h3".toList ns.tail)
  within : Within ("h3".toList :: entryNames) ns.tail

section

variable {d : Division} {symbols ss : List Symbol} {ns : List Node}

theorem onPage_nil (h : d.members symbols = []) : d.OnPage parser symbols [] := by
  refine ⟨by rw [if_pos h], ?_, within_nil⟩
  rw [h]
  exact .nil

theorem onPage_entries {front : List Node} {entries : List (List Node)}
    (hsome : d.members symbols ≠ []) (hfront : Within entryNames front)
    (h : (d.members symbols).map (d.entry parser) = entries.map Except.ok) :
    d.OnPage parser symbols (heading d.title :: (front ++ entries.flatten)) := by
  obtain ⟨hshows, hwithin, -⟩ := shows_passages d h
  refine ⟨by rw [if_neg hsome, List.tail_cons], ?_, ?_⟩
  · -- what stands above the first entry is in front of its heading
    rwa [List.tail_cons, passages_of_lacks (hfront.isNamed_eq_false (by decide))]
  · exact (hfront.mono (List.subset_cons_self _ _)).append hwithin

theorem onPage_of_sectionOf {title : String} (h : sectionOf title (d.entry parser) ss = .ok ns)
    (ht : title.toList = d.title) (hss : ss = d.members symbols) : d.OnPage parser symbols ns := by
  subst hss
  unfold sectionOf at h
  split at h
  · rename_i hempty
    obtain rfl := Except.ok.inj h
    exact onPage_nil (List.isEmpty_iff.mp hempty)
  · rename_i hempty
    obtain ⟨entries, hentries, h⟩ := bind_eq_ok_iff.mp h
    obtain rfl := Except.ok.inj h
    rw [ht]
    exact onPage_entries (fun he => hempty (List.isEmpty_iff.mpr he)) within_nil
      ((mapM_eq_ok_iff _ _ _).mp hentries)

theorem onPage_of_staticMethods (h : staticMethods parser ss = .ok ns)
    (hss : ss = Division.staticMethods.members symbols) :
    Division.staticMethods.OnPage parser symbols ns := by
  subst hss
  unfold staticMethods at h
  split at h
  · rename_i hempty
    obtain rfl := Except.ok.inj h
    exact onPage_nil (List.isEmpty_iff.mp hempty)
  · rename_i hempty
    obtain ⟨entries, hentries, h⟩ := bind_eq_ok_iff.mp h
    obtain rfl := Except.ok.inj h
    exact onPage_entries (fun he => hempty (List.isEmpty_iff.mpr he)) within_rule
      ((mapM_eq_ok_iff _ _ _).mp hentries)

theorem Division.OnPage.opens (h : d.OnPage parser symbols ns) :
    ∀ n, ns.head? = some n → n.isNamed "h2".toList = true := by
  intro n hn
  rw [h.nodes_eq] at hn
  split at hn
  · cases hn
  · cases hn
    exact isNamed_element _ _ _

theorem Division.OnPage.passages_eq (h : d.OnPage parser symbols ns) :
    passages "h2".toList ns =
      if d.members symbols = [] then [] else [(d.title, ns.tail)] := by
  have hlacks : ∀ n ∈ ns.tail, n.isNamed "h2".toList = false :=
    h.within.isNamed_eq_false (by decide)
  rw [h.nodes_eq]
  split
  · rfl
  · rw [passages_heading (isNamed_heading _) hlacks, label_heading, List.tail_cons]

theorem labels_of_shows {ps : List (Text × List Node)} (h : List.Forall₂ (d.Shows parser) ss ps) :
    ps.map Prod.fst = ss.map (·.identifier) := by
  induction h with
  | nil => rfl
  | cons hshows _ ih => rw [List.map_cons, List.map_cons, ih, hshows.1]

theorem Division.OnPage.labels_eq (h : d.OnPage parser symbols ns) :
    labels "h3".toList ns = (d.members symbols).map (·.identifier) := by
  have htail : labels "h3".toList ns.tail = (d.members symbols).map (·.identifier) := by
    rw [← map_fst_passages, labels_of_shows h.shows]
  have hheading : ∀ n ∈ [heading d.title], n.isNamed "h3".toList = false := by
    intro n hn
    rw [List.mem_singleton.mp hn]
    exact isNamed_of_ne (isNamed_heading _) (by decide)
  rw [h.nodes_eq]
  split
  · rename_i hnone
    rw [hnone]
    rfl
  · rw [← List.singleton_append, labels_append, labels_of_lacks hheading, htail, List.nil_append]

end

/-! ### The whole page -/

def Division.kind : Division → Kind
  | .constructors => .constructor
  | .interfaces => .interface
  | .enumerations => .enumeration
  | .instanceMethods | .staticMethods => .function
  | .instanceProperties | .staticProperties => .property

/-- Whether a division has static symbols, and others. -/
def Division.takes : Division → (isStatic : Bool) → Bool
  | .constructors, _ | .interfaces, _ | .enumerations, _ => true
  | .instanceMethods, b | .instanceProperties, b => !b
  | .staticMethods, b | .staticProperties, b => b

theorem Division.ofKind?_eq_some_iff {k : Kind} {b : Bool} {d : Division} :
    ofKind? k b = some d ↔ k = d.kind ∧ d.takes b = true := by
  cases k <;> cases b <;> cases d <;> simp [ofKind?, kind, takes]

/-- The filters by which a page finds the symbols of a division. -/
theorem Division.members_eq (d : Division) (symbols : List Symbol) :
    d.members symbols =
      (Symbol.ofKind d.kind (Symbol.sorted symbols)).filter fun s => d.takes s.isStatic := by
  rw [members, Symbol.ofKind, List.filter_filter]
  refine List.filter_congr fun s _ => ?_
  rw [of?, Bool.and_comm, Bool.eq_iff_iff, decide_eq_true_eq, Option.bind_eq_some_iff]
  simp [ofKind?_eq_some_iff]

section

variable {symbols : List Symbol}

def Sections.nodesOf (c : Sections parser symbols) : Division → List Node
  | .constructors => c.constructors
  | .interfaces => c.interfaces
  | .enumerations => c.enumerations
  | .instanceMethods => c.methods
  | .instanceProperties => c.instanceProperties
  | .staticMethods => c.functions
  | .staticProperties => c.staticProperties

theorem Sections.onPage (c : Sections parser symbols) (d : Division) :
    d.OnPage parser symbols (c.nodesOf d) := by
  have hkind : ∀ d : Division, d.takes = (fun _ => true) →
      Symbol.ofKind d.kind (Symbol.sorted symbols) = d.members symbols := by
    intro d hd
    rw [d.members_eq, hd, List.filter_true]
  cases d with
  | constructors => exact onPage_of_sectionOf c.constructors_eq rfl (hkind .constructors rfl)
  | interfaces => exact onPage_of_sectionOf c.interfaces_eq rfl (hkind .interfaces rfl)
  | enumerations => exact onPage_of_sectionOf c.enumerations_eq rfl (hkind .enumerations rfl)
  | instanceMethods =>
    exact onPage_of_sectionOf c.methods_eq rfl (Division.instanceMethods.members_eq symbols).symm
  | instanceProperties =>
    exact onPage_of_sectionOf c.instanceProperties_eq rfl
      (Division.instanceProperties.members_eq symbols).symm
  | staticMethods =>
    exact onPage_of_staticMethods c.functions_eq (Division.staticMethods.members_eq symbols).symm
  | staticProperties =>
    exact onPage_of_sectionOf c.staticProperties_eq rfl
      (Division.staticProperties.members_eq symbols).symm

/-! ### Summaries among the divisions -/

/-- Whether a passage is that of a division, by its title. -/
def isDivision (p : Text × List Node) : Bool := p.1 ∈ Division.all.map Division.title

variable {title : String} {leftOut : Bool} {functions : List Symbol} {ns : List Node}

theorem opens_of_summarySection (h : summarySection parser title leftOut functions = .ok ns) :
    ∀ n, ns.head? = some n → n.isNamed "h2".toList = true := by
  rcases summarySection_eq_ok h with ⟨-, rfl⟩ | ⟨-, entries, -, rfl⟩
  · intro n hn
    cases hn
  · rintro n ⟨⟩
    exact isNamed_heading _

theorem passages_of_summarySection (h : summarySection parser title leftOut functions = .ok ns)
    (ht : title.toList ∉ Division.all.map Division.title) :
    (passages "h2".toList ns).filter isDivision = [] := by
  rcases summarySection_eq_ok h with ⟨-, rfl⟩ | ⟨-, entries, -, rfl⟩
  · rfl
  · have hlacks : ∀ n ∈ [elementOf "dl" entries], n.isNamed "h2".toList = false := by
      intro n hn
      rw [List.mem_singleton.mp hn]
      exact isNamed_of_ne (isNamed_element "dl".toList _ _) (by decide)
    rw [passages_heading (isNamed_heading _) hlacks, label_heading]
    simp [isDivision, ht]

theorem labels_of_summarySection (h : summarySection parser title leftOut functions = .ok ns) :
    labels "h3".toList ns = [] := by
  rcases summarySection_eq_ok h with ⟨-, rfl⟩ | ⟨-, entries, -, rfl⟩
  · rfl
  · have hwithin : Within ["h2".toList, "dl".toList]
        [heading title.toList, elementOf "dl" entries] :=
      .cons (isNamed_heading _) (by decide)
        (.cons (isNamed_element _ _ _) (by decide) within_nil)
    exact labels_of_lacks (hwithin.isNamed_eq_false (by decide))

end

/-! ### The whole page -/

def Sections.parts {symbols : List Symbol} (c : Sections parser symbols) : List (List Node) :=
  [c.constructors, c.interfaces, c.methodSummary, c.functionSummary, c.enumerations, c.methods,
    c.instanceProperties, c.functions, c.staticProperties]

theorem Sections.nodes_eq {symbols : List Symbol} (c : Sections parser symbols) (owner : Text) :
    c.nodes owner = [labelled "h1" owner] ++ c.parts.flatten := by
  simp [Sections.nodes, Sections.parts]

theorem isNamed_of_mem_title {owner name : Text} (hname : "h1".toList ≠ name) :
    ∀ n ∈ [labelled "h1" owner], n.isNamed name = false := by
  intro n hn
  rw [List.mem_singleton.mp hn]
  exact isNamed_of_ne (isNamed_element "h1".toList _ _) hname

section

variable {symbols : List Symbol} (c : Sections parser symbols) (owner : Text)

theorem Sections.labels_nodes :
    labels "h3".toList (c.nodes owner) =
      (Division.all.flatMap fun d => d.members symbols).map (·.identifier) := by
  have hparts : c.parts.flatMap (labels "h3".toList) =
      Division.all.flatMap fun d => labels "h3".toList (c.nodesOf d) := by
    simp only [Sections.parts, Division.all, Sections.nodesOf, List.flatMap_cons,
      List.flatMap_nil, labels_of_summarySection c.methodSummary_eq,
      labels_of_summarySection c.functionSummary_eq, List.nil_append]
  rw [c.nodes_eq, labels_append, labels_of_lacks (isNamed_of_mem_title (by decide)),
    labels_flatten, List.nil_append, hparts, List.map_flatMap]
  refine List.flatMap_congr fun d _ => ?_
  exact (c.onPage d).labels_eq

theorem Sections.opens :
    ∀ ns ∈ c.parts, ∀ n, ns.head? = some n → n.isNamed "h2".toList = true := by
  have hsummaries := And.intro (opens_of_summarySection c.methodSummary_eq)
    (opens_of_summarySection c.functionSummary_eq)
  have hdivisions := fun d => (c.onPage d).opens
  intro ns hns
  simp only [Sections.parts, List.mem_cons, List.not_mem_nil, or_false] at hns
  rcases hns with rfl | rfl | rfl | rfl | rfl | rfl | rfl | rfl | rfl
  · exact hdivisions .constructors
  · exact hdivisions .interfaces
  · exact hsummaries.1
  · exact hsummaries.2
  · exact hdivisions .enumerations
  · exact hdivisions .instanceMethods
  · exact hdivisions .instanceProperties
  · exact hdivisions .staticMethods
  · exact hdivisions .staticProperties

theorem flatMap_shown {bodies : Division → List Node} (ds : List Division) :
    (ds.flatMap fun d => if d.members symbols = [] then [] else [(d.title, bodies d)]) =
      (ds.filter fun d => d.members symbols ≠ []).map fun d => (d.title, bodies d) := by
  induction ds with
  | nil => rfl
  | cons d ds ih =>
    rw [List.flatMap_cons, List.filter_cons, ih]
    by_cases hd : d.members symbols = []
    · simp [hd]
    · simp [hd]

/-- The passages of a page, apart from the summaries, are those of the divisions. -/
theorem Sections.passages_nodes :
    (passages "h2".toList (c.nodes owner)).filter isDivision =
      (Division.all.filter fun d => d.members symbols ≠ []).map
        fun d => (d.title, (c.nodesOf d).tail) := by
  have hshown : ∀ d, (passages "h2".toList (c.nodesOf d)).filter isDivision =
      if d.members symbols = [] then [] else [(d.title, (c.nodesOf d).tail)] := by
    intro d
    rw [(c.onPage d).passages_eq]
    split
    · rfl
    · have htitle : isDivision (d.title, (c.nodesOf d).tail) = true :=
        decide_eq_true d.title_mem
      rw [List.filter_cons_of_pos htitle, List.filter_nil]
  have hmethods := passages_of_summarySection c.methodSummary_eq (by decide)
  have hfunctions := passages_of_summarySection c.functionSummary_eq (by decide)
  rw [c.nodes_eq, passages_of_lacks (isNamed_of_mem_title (by decide)), passages_flatten c.opens,
    ← flatMap_shown, ← funext hshown, List.filter_flatMap]
  simp only [Sections.parts, Division.all, Sections.nodesOf, List.flatMap_cons, List.flatMap_nil,
    hmethods, hfunctions, List.nil_append]

end

/-- **Every symbol of a page is described once, in its division.**  The headings of symbols are
their identifiers, no matter how many symbols share one.  The divisions that have symbols come in
their order, each under its title, and in each the symbols come in the order of their identifiers,
equal ones as they were given. -/
theorem content_divided {owner : Text} {symbols : List Symbol} {nodes : List Node}
    (hkinds : ∀ s ∈ symbols, ∃ k ∈ shownKinds, s.kind? = some k)
    (h : content parser owner symbols = .ok nodes) :
    ((nodes.filter (·.isNamed "h3".toList)).map Node.label).Perm (symbols.map (·.identifier)) ∧
    ∃ bodies : Division → List Node,
      (passages "h2".toList nodes).filter isDivision =
        (Division.all.filter fun d => d.members symbols ≠ []).map (fun d => (d.title, bodies d)) ∧
      ∀ d, List.Forall₂ (d.Shows parser) (d.members symbols) (passages "h3".toList (bodies d)) ∧
        (d.members symbols).Pairwise (fun a b => a.identifier.atMost b.identifier = true) ∧
        ∀ x, (d.members symbols).filter (·.identifier = x) =
          symbols.filter fun s => Division.of? s = some d ∧ s.identifier = x := by
  obtain ⟨c, rfl⟩ := exists_sections_of_content h
  constructor
  · have hdivided : ∀ s ∈ symbols, Division.of? s ≠ none := by
      intro s hs
      obtain ⟨k, hk, hkind⟩ := hkinds s hs
      have hall : ∀ k ∈ shownKinds, ∀ b, Division.ofKind? k b ≠ none := by decide
      rw [Division.of?, hkind, Option.bind_some]
      exact hall k hk s.isStatic
    have hlabels := c.labels_nodes owner
    rw [labels] at hlabels
    rw [hlabels]
    exact (Division.perm_members hdivided).map _
  · refine ⟨fun d => (c.nodesOf d).tail, c.passages_nodes owner, fun d => ⟨?_, ?_, ?_⟩⟩
    · exact (c.onPage d).shows
    · exact d.pairwise_members symbols
    · exact d.filter_members symbols

/-- A static symbol with one description. -/
def described (identifier description : String) (kind : Kind) : Symbol :=
  { Symbol.bare identifier.toList 0 1 with
    comment? := some ⟨[], 0, 0, [], [description.toList]⟩, kind? := some kind
    static? := some true }

/-- A function behind a property of a later name, and that property once more. -/
def unsorted : List Symbol :=
  [described "a.c" "First." .property, described "a.b" "F." .function,
    described "a.c" "Second." .property]

theorem content_divided_unsorted :
    (∀ s ∈ unsorted, ∃ k ∈ shownKinds, s.kind? = some k) ∧
    ∃ nodes, content fragment "a".toList unsorted = .ok nodes ∧
      (passages "h2".toList nodes).map Prod.fst =
        ["Public static method summary", "Static methods", "Static properties"].map String.toList ∧
      ((nodes.filter (·.isNamed "h3".toList)).map Node.label).Perm
        (unsorted.map (·.identifier)) := by
  have hkinds : ∀ s ∈ unsorted, ∃ k ∈ shownKinds, s.kind? = some k := by decide
  have hsorted : Symbol.sorted unsorted =
      [described "a.b" "F." .function, described "a.c" "First." .property,
        described "a.c" "Second." .property] := by
    simp [Symbol.sorted, unsorted, List.mergeSort, List.MergeSort.Internal.splitInTwo, described,
      Symbol.bare, Text.atMost]
  have hviews : (content fragment "a".toList unsorted).toOption.map
      (fun nodes => (passages "h2".toList nodes).map Prod.fst) =
      some (["Public static method summary", "Static methods", "Static properties"].map
        String.toList) := by
    rw [content, hsorted]
    decide +kernel
  obtain ⟨nodes, hnodes, htitles⟩ := Option.map_eq_some_iff.mp hviews
  have hok := eq_ok_of_toOption hnodes
  exact ⟨hkinds, nodes, hok, htitles, (content_divided hkinds hok).1⟩

end ScriptDocs.Page
