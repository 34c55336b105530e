import ScriptDocs.Html.Fragment
import ScriptDocs.Proofs.Page.Divisions
import ScriptDocs.Source

/-!
# The summaries of a page

A page sums up its public functions twice, the instance methods and the static functions.  Both
summaries have one line for each public function of their division, in order.  They differ in when
they are left out: that of the instance methods if it would be empty, that of the static functions
only if there is no static function at all.  So a page whose static functions are all private or
protected has a summary with nothing in it.

* `Summary.members`: the functions that are summed up (`Summary.perm_members`), in the order of a
  page (`Summary.pairwise_members`).
* `Summary.isShown`: when a summary stands on a page (`Summary.isShown_iff`).
* `Sections.passages_summary`: what stands below the heading of a summary.
* `content_summed_up`: both summaries of a page, and when they are there.
-/

namespace ScriptDocs.Page

open Html

variable {parser : Parser}

/-! ### Functions that are summed up -/

inductive Summary where
  | instanceMethods
  | staticMethods
deriving DecidableEq, Repr

namespace Summary

def title : Summary → Text
  | .instanceMethods => "Public instance method summary".toList
  | .staticMethods => "Public static method summary".toList

def division : Summary → Division
  | .instanceMethods => .instanceMethods
  | .staticMethods => .staticMethods

/-- Whether a symbol is a function of the kind that a summary is about, public or not. -/
def takes : Summary → Symbol → Bool
  | .instanceMethods, s => s.kind? = some .function && !s.isStatic
  | .staticMethods, s => s.kind? = some .function && s.isStatic

def members (m : Summary) (symbols : List Symbol) : List Symbol :=
  (m.division.members symbols).filter isPublic

/-- Whether a summary stands on the page.  That of the instance methods is left out if it has no
members, the other only if there is nothing that it could have as a member. -/
def isShown (symbols : List Symbol) : Summary → Bool
  | .instanceMethods => !(members .instanceMethods symbols).isEmpty
  | .staticMethods => !(Division.staticMethods.members symbols).isEmpty

theorem takes_iff (m : Summary) (s : Symbol) :
    m.takes s = true ↔ Division.of? s = some m.division := by
  rw [Division.of?, Option.bind_eq_some_iff]
  simp only [Division.ofKind?_eq_some_iff]
  cases m with
  | instanceMethods => simp [division, takes, Division.kind, Division.takes]
  | staticMethods => simp [division, takes, Division.kind, Division.takes]

theorem kind_of_takes (m : Summary) {s : Symbol} (h : m.takes s = true) :
    s.kind? = some .function := by
  cases m with
  | instanceMethods => exact of_decide_eq_true (Bool.and_eq_true_iff.mp h).1
  | staticMethods => exact of_decide_eq_true (Bool.and_eq_true_iff.mp h).1

theorem mem_division_members {m : Summary} {symbols : List Symbol} {s : Symbol} :
    s ∈ m.division.members symbols ↔ s ∈ symbols ∧ m.takes s = true := by
  rw [Division.members, List.mem_filter, (Symbol.sorted_perm symbols).mem_iff, decide_eq_true_eq,
    takes_iff]

theorem mem_members {m : Summary} {symbols : List Symbol} {s : Symbol} :
    s ∈ m.members symbols ↔ s ∈ symbols ∧ m.takes s = true ∧ isPublic s = true := by
  rw [members, List.mem_filter, mem_division_members, and_assoc]

/-- Every public function of the right kind is summed up once, and nothing else is. -/
theorem perm_members (m : Summary) (symbols : List Symbol) :
    (m.members symbols).Perm (symbols.filter fun s => m.takes s && isPublic s) := by
  have heq : m.members symbols =
      (Symbol.sorted symbols).filter fun s => m.takes s && isPublic s := by
    rw [members, Division.members, List.filter_filter]
    refine List.filter_congr fun s _ => ?_
    rw [Bool.and_comm, Bool.eq_iff_iff, Bool.and_eq_true, Bool.and_eq_true, decide_eq_true_eq,
      takes_iff]
  rw [heq]
  exact (Symbol.sorted_perm symbols).filter _

theorem pairwise_members (m : Summary) (symbols : List Symbol) :
    (m.members symbols).Pairwise fun a b => a.identifier.atMost b.identifier = true :=
  (m.division.pairwise_members symbols).filter _

theorem isShown_iff {m : Summary} {symbols : List Symbol} :
    m.isShown symbols = true ↔
      ∃ s ∈ symbols, m.takes s = true ∧ (m = .instanceMethods → isPublic s = true) := by
  cases m with
  | instanceMethods =>
    rw [isShown, Bool.not_eq_true', List.isEmpty_eq_false_iff_exists_mem]
    simp only [mem_members, forall_true_left]
  | staticMethods =>
    rw [isShown, Bool.not_eq_true', List.isEmpty_eq_false_iff_exists_mem]
    have hmem : ∀ s, s ∈ Division.staticMethods.members symbols ↔
        s ∈ symbols ∧ staticMethods.takes s = true := fun _ =>
      mem_division_members (m := .staticMethods)
    simp [hmem]

end Summary

/-! ### Summaries by their headings -/

theorem passages_summarySection {title : String} {leftOut : Bool} {functions : List Symbol}
    {ns : List Node} (h : summarySection parser title leftOut functions = .ok ns)
    (hleft : leftOut = true → functions = []) :
    ∃ entries, functions.mapM (summaryEntry parser) = .ok entries ∧
      passages "h2".toList ns =
        if !leftOut then [(title.toList, [elementOf "dl" entries])] else [] := by
  rcases summarySection_eq_ok h with ⟨hout, rfl⟩ | ⟨hin, entries, hentries, rfl⟩
  · refine ⟨[], ?_, ?_⟩
    · rw [hleft hout]
      rfl
    · rw [hout]
      rfl
  · have hlacks : ∀ n ∈ [elementOf "dl" entries], n.isNamed "h2".toList = false := by
      intro n hn
      rw [List.mem_singleton.mp hn]
      exact isNamed_of_ne (isNamed_element "dl".toList _ _) (by decide)
    refine ⟨entries, hentries, ?_⟩
    rw [passages_heading (isNamed_heading _) hlacks, label_heading, hin]
    rfl

section

variable {symbols : List Symbol} (c : Sections parser symbols)

def Sections.summaryNodes : Summary → List Node
  | .instanceMethods => c.methodSummary
  | .staticMethods => c.functionSummary

theorem Sections.passages_summaryNodes (m : Summary) :
    ∃ entries, (m.members symbols).mapM (summaryEntry parser) = .ok entries ∧
      passages "h2".toList (c.summaryNodes m) =
        if m.isShown symbols then [(m.title, [elementOf "dl" entries])] else [] := by
  cases m with
  | instanceMethods =>
    have hmembers : c.publicMethods = Summary.instanceMethods.members symbols := by
      rw [publicOnes_eq_ok c.publicMethods_eq, Summary.members, Summary.division,
        Division.members_eq]
      rfl
    obtain ⟨entries, hentries, hpassages⟩ :=
      passages_summarySection c.methodSummary_eq List.isEmpty_iff.mp
    rw [hmembers] at hentries hpassages
    exact ⟨entries, hentries, hpassages⟩
  | staticMethods =>
    have hfunctions : staticMembers .function symbols =
        Division.staticMethods.members symbols := by
      rw [Division.members_eq]
      rfl
    have hmembers : c.publicFunctions = Summary.staticMethods.members symbols := by
      rw [publicOnes_eq_ok c.publicFunctions_eq, Summary.members, Summary.division, hfunctions]
    obtain ⟨entries, hentries, hpassages⟩ :=
      passages_summarySection c.functionSummary_eq c.publicFunctions_eq_nil
    rw [hmembers] at hentries
    rw [hfunctions] at hpassages
    exact ⟨entries, hentries, hpassages⟩

/-- A division does not go by the title of a summary. -/
theorem Sections.filter_passages_nodesOf (m : Summary) (d : Division) :
    (passages "h2".toList (c.nodesOf d)).filter (·.1 = m.title) = [] := by
  have htitle : d.title ≠ m.title := by
    cases m <;> cases d <;> decide
  rw [(c.onPage d).passages_eq]
  split
  · rfl
  · simp [htitle]

theorem Sections.filter_passages_of_ne {m : Summary} (m' : Summary) (hne : m' ≠ m) :
    (passages "h2".toList (c.summaryNodes m')).filter (·.1 = m.title) = [] := by
  have htitle : m'.title ≠ m.title := by
    revert hne
    cases m <;> cases m' <;> decide
  obtain ⟨entries, -, hpassages⟩ := c.passages_summaryNodes m'
  rw [hpassages]
  split
  · simp [htitle]
  · rfl

/-- **A summary is the one passage with its title.** -/
theorem Sections.passages_summary (owner : Text) (m : Summary) :
    ∃ entries, (m.members symbols).mapM (summaryEntry parser) = .ok entries ∧
      (passages "h2".toList (c.nodes owner)).filter (·.1 = m.title) =
        if m.isShown symbols then [(m.title, [elementOf "dl" entries])] else [] := by
  obtain ⟨entries, hentries, hpassages⟩ := c.passages_summaryNodes m
  have hown : (passages "h2".toList (c.summaryNodes m)).filter (·.1 = m.title) =
      if m.isShown symbols then [(m.title, [elementOf "dl" entries])] else [] := by
    rw [hpassages]
    split
    · simp
    · rfl
  have hparts : c.parts = [c.nodesOf .constructors, c.nodesOf .interfaces,
      c.summaryNodes .instanceMethods, c.summaryNodes .staticMethods, c.nodesOf .enumerations,
      c.nodesOf .instanceMethods, c.nodesOf .instanceProperties, c.nodesOf .staticMethods,
      c.nodesOf .staticProperties] := rfl
  refine ⟨entries, hentries, ?_⟩
  rw [c.nodes_eq, passages_of_lacks (isNamed_of_mem_title (by decide)), passages_flatten c.opens,
    List.filter_flatMap, hparts, ← hown]
  simp only [List.flatMap_cons, List.flatMap_nil, c.filter_passages_nodesOf, List.nil_append,
    List.append_nil]
  cases m with
  | instanceMethods => rw [c.filter_passages_of_ne .staticMethods (by decide), List.append_nil]
  | staticMethods => rw [c.filter_passages_of_ne .instanceMethods (by decide), List.nil_append]

end

/-! ### Both summaries -/

/-- The line of a function in a summary: a term of the list, with the name that the function is
summed up under as a link to that name, and the first part of the description below it. -/
structure SumsUp (parser : Parser) (s : Symbol) (n : Node) : Prop where
  term : n.isNamed "dt".toList = true
  made : summaryEntry parser s = .ok n
  shown : ∃ (name : Text) (texts : List Text), summaryName s = .ok name ∧
    n = elementOf "dt" [elementOf "code" (.link name ('#' :: name) :: texts.map .text),
      elementOf "dd" ((firstDescription? s).toList.flatMap (prose parser))]

theorem sumsUp_of_summaryEntry {s : Symbol} {n : Node} (h : summaryEntry parser s = .ok n) :
    SumsUp parser s n := by
  obtain ⟨name, texts, hname, rfl⟩ := summaryEntry_eq_ok h
  exact ⟨isNamed_element _ _ _, h, name, texts, hname, rfl⟩

theorem sumsUp_of_mapM {ss : List Symbol} {entries : List Node}
    (h : ss.mapM (summaryEntry parser) = .ok entries) :
    List.Forall₂ (SumsUp parser) ss entries := by
  rw [mapM_eq_ok_iff] at h
  induction ss generalizing entries with
  | nil =>
    obtain rfl := List.map_eq_nil_iff.mp h.symm
    exact .nil
  | cons s ss ih =>
    cases entries with
    | nil => cases h
    | cons n entries =>
      obtain ⟨hn, h⟩ := List.cons.inj h
      exact .cons (sumsUp_of_summaryEntry hn) (ih h)

/-- **The public functions are summed up.**  Each summary is at most one passage, a list with one
line for each public function of its kind, in the order of identifiers, and with no others.  That of
the instance methods is on the page exactly if one of them is public.  That of the static functions
is exactly if there are any, so it follows the same rule only as long as they are not all private or
protected. -/
theorem content_summed_up {owner : Text} {symbols : List Symbol} {nodes : List Node}
    (h : content parser owner symbols = .ok nodes) (m : Summary) :
    (∃ entries, List.Forall₂ (SumsUp parser) (m.members symbols) entries ∧
      (passages "h2".toList nodes).filter (·.1 = m.title) =
        if m.title ∈ labels "h2".toList nodes then [(m.title, [elementOf "dl" entries])] else []) ∧
    (m.members symbols).Perm (symbols.filter fun s => m.takes s && isPublic s) ∧
    (m.members symbols).Pairwise (fun a b => a.identifier.atMost b.identifier = true) ∧
    (m.title ∈ labels "h2".toList nodes ↔
      ∃ s ∈ symbols, m.takes s = true ∧ (m = .instanceMethods → isPublic s = true)) ∧
    ((m.title ∈ labels "h2".toList nodes ↔
        ∃ s ∈ symbols, m.takes s = true ∧ isPublic s = true) ↔
      (m = .staticMethods → (∃ s ∈ symbols, m.takes s = true) →
        ∃ s ∈ symbols, m.takes s = true ∧ isPublic s = true)) := by
  obtain ⟨c, rfl⟩ := exists_sections_of_content h
  obtain ⟨entries, hentries, hpassages⟩ := c.passages_summary owner m
  have hshown : m.title ∈ labels "h2".toList (c.nodes owner) ↔ m.isShown symbols = true := by
    have hmem : m.title ∈ labels "h2".toList (c.nodes owner) ↔
        ((passages "h2".toList (c.nodes owner)).filter (·.1 = m.title)) ≠ [] := by
      rw [← map_fst_passages, List.mem_map, ne_eq, List.filter_eq_nil_iff]
      simp
    rw [hmem, hpassages]
    cases m.isShown symbols with
    | false => simp
    | true => simp
  refine ⟨⟨entries, sumsUp_of_mapM hentries, ?_⟩, m.perm_members symbols,
    m.pairwise_members symbols, hshown.trans Summary.isShown_iff, ?_⟩
  · rw [hpassages]
    simp only [hshown]
  · rw [hshown, Summary.isShown_iff]
    cases m with
    | instanceMethods => simp
    | staticMethods =>
      constructor
      · intro hrule _ hsome
        exact hrule.mp (by simpa using hsome)
      · intro hpublic
        constructor
        · intro hsome
          exact hpublic rfl (by simpa using hsome)
        · intro hsome
          obtain ⟨s, hs, htakes, -⟩ := hsome
          exact ⟨s, hs, htakes, by simp⟩

/-- A private static function without a description. -/
def hidden (identifier : String) : Symbol :=
  { Symbol.bare identifier.toList 0 1 with
    comment? := some ⟨[], 0, 0, [⟨"@private".toList, []⟩], []⟩, kind? := some .function
    static? := some true }

/-- A public static function, and a private one with an earlier name. -/
def halfHidden : List Symbol := [described "a.g" "G." .function, hidden "a.f"]

theorem content_summed_up_halfHidden :
    ∃ nodes n, content fragment "a".toList halfHidden = .ok nodes ∧
      SumsUp fragment (described "a.g" "G." .function) n ∧
      (passages "h2".toList nodes).filter (·.1 = Summary.staticMethods.title) =
        [(Summary.staticMethods.title, [elementOf "dl" [n]])] := by
  have hsorted : Symbol.sorted halfHidden = [hidden "a.f", described "a.g" "G." .function] := by
    simp [Symbol.sorted, halfHidden, List.mergeSort, List.MergeSort.Internal.splitInTwo, described,
      hidden, Symbol.bare, Text.atMost]
  have hmembers : Summary.staticMethods.members halfHidden =
      [described "a.g" "G." .function] := by
    rw [Summary.members, Division.members, hsorted]
    decide
  have hok : (content fragment "a".toList halfHidden).toOption.isSome = true := by
    rw [content, hsorted]
    decide +kernel
  obtain ⟨nodes, hnodes⟩ := Option.isSome_iff_exists.mp hok
  have hcontent := eq_ok_of_toOption hnodes
  obtain ⟨⟨entries, hentries, hpassages⟩, -, -, hshown, -⟩ :=
    content_summed_up hcontent .staticMethods
  have hthere : Summary.staticMethods.title ∈ labels "h2".toList nodes :=
    hshown.mpr ⟨_, List.mem_cons_self, by decide, by decide⟩
  rw [if_pos hthere] at hpassages
  rw [hmembers] at hentries
  cases hentries with
  | cons hn hrest =>
    cases hrest
    exact ⟨nodes, _, hcontent, hn, hpassages⟩

/-- A script with one function, which is private. -/
def hiddenFunction : Text :=
  "goog.provide('a');\n/**\n * @private\n * @return {b}\n */\na.f = 0;".toList

/-- **A summary of nothing.**  There is no public function, but a summary of public static functions
stands on the page, with an empty list. -/
theorem summary_of_nothing :
    ∃ source notes nodes, Source.scan hiddenFunction none = .ok (source, notes) ∧
      content fragment "a".toList source.symbols = .ok nodes ∧
      (∀ s ∈ source.symbols, s.comment?.isSome = true ∧ isPublic s = false) ∧
      (passages "h2".toList nodes).filter (·.1 = Summary.staticMethods.title) =
        [(Summary.staticMethods.title, [elementOf "dl" []])] := by
  have hviews : ((Source.scan hiddenFunction none).toOption.bind fun scanned =>
      (content fragment "a".toList scanned.1.symbols).toOption.map fun _ =>
        (scanned.1.symbols.all (fun s => s.comment?.isSome && !isPublic s),
          Summary.staticMethods.members scanned.1.symbols,
          Summary.staticMethods.isShown scanned.1.symbols)) = some (true, [], true) := by
    decide +kernel
  obtain ⟨⟨source, notes⟩, hscan, hviews⟩ := Option.bind_eq_some_iff.mp hviews
  obtain ⟨nodes, hnodes, hviews⟩ := Option.map_eq_some_iff.mp hviews
  obtain ⟨hsymbols, hviews⟩ := Prod.mk.inj hviews
  obtain ⟨hmembers, hshown⟩ := Prod.mk.inj hviews
  have hcontent := eq_ok_of_toOption hnodes
  refine ⟨source, notes, nodes, eq_ok_of_toOption hscan, hcontent, ?_, ?_⟩
  · intro s hs
    simpa using List.all_eq_true.mp hsymbols s hs
  · obtain ⟨c, rfl⟩ := exists_sections_of_content hcontent
    obtain ⟨entries, hentries, hpassages⟩ := c.passages_summary "a".toList .staticMethods
    rw [hmembers] at hentries
    obtain rfl : [] = entries := Except.ok.inj hentries
    rw [hpassages, if_pos hshown]

end ScriptDocs.Page
