import ScriptDocs.Page.Content
import ScriptDocs.Proofs.Html.Values
import ScriptDocs.Proofs.Produced

/-!
# The sections of a page

`Page.content` puts a page together from sections, each of which may fail.  `Sections` holds what
they came to, once all have succeeded, and `exists_sections` takes a page apart into them, so that
what is said about a page is said section by section.

* `publicOnes_eq_ok`: the functions that are summed up.
* `mem_sectionOf`, `mem_staticMethods`: the nodes of a section, by the entries that they belong to.
* `summarySection_eq_ok`: a summary, entry by entry.
-/

namespace ScriptDocs.Page

open Html

variable {parser : Parser}

/-! ### Symbols by section -/

/-- The symbols of a kind that belong to instances, in the order of a page. -/
def instanceMembers (k : Kind) (symbols : List Symbol) : List Symbol :=
  (Symbol.ofKind k (Symbol.sorted symbols)).filter fun s => !s.isStatic

/-- The symbols of a kind that belong to the namespace itself, in the order of a page. -/
def staticMembers (k : Kind) (symbols : List Symbol) : List Symbol :=
  (Symbol.ofKind k (Symbol.sorted symbols)).filter Symbol.isStatic

theorem mem_ofKind_sorted {k : Kind} {symbols : List Symbol} {s : Symbol} :
    s ∈ Symbol.ofKind k (Symbol.sorted symbols) ↔ s ∈ symbols ∧ s.kind? = some k := by
  simp [Symbol.ofKind, Symbol.sorted]

theorem mem_instanceMembers {k : Kind} {symbols : List Symbol} {s : Symbol} :
    s ∈ instanceMembers k symbols ↔ s ∈ symbols ∧ s.kind? = some k ∧ s.isStatic = false := by
  rw [instanceMembers, List.mem_filter, mem_ofKind_sorted, and_assoc, Bool.not_eq_true']

theorem mem_staticMembers {k : Kind} {symbols : List Symbol} {s : Symbol} :
    s ∈ staticMembers k symbols ↔ s ∈ symbols ∧ s.kind? = some k ∧ s.isStatic = true := by
  rw [staticMembers, List.mem_filter, mem_ofKind_sorted, and_assoc]

def isPublic (s : Symbol) : Bool :=
  s.comment?.any fun c => Visibility.ofFlags c.flags = .isPublic

theorem publicOnes_eq_ok {ss ps : List Symbol} (h : publicOnes ss = .ok ps) :
    ps = ss.filter isPublic := by
  induction ss generalizing ps with
  | nil => exact (Except.ok.inj h).symm
  | cons s ss ih =>
    cases hc : s.comment? with
    | none =>
      rw [publicOnes, hc] at h
      exact nomatch h
    | some c =>
      cases hrest : publicOnes ss with
      | error f =>
        rw [publicOnes, hc, hrest] at h
        exact nomatch h
      | ok rest =>
        rw [publicOnes, hc, hrest] at h
        rw [← Except.ok.inj h, List.filter_cons, ← ih hrest]
        simp [isPublic, hc]

/-! ### Sections -/

/-- The sections of a page of the symbols, and the public ones among its functions. -/
structure Sections (parser : Parser) (symbols : List Symbol) where
  publicMethods : List Symbol
  publicFunctions : List Symbol
  constructors : List Node
  interfaces : List Node
  methodSummary : List Node
  functionSummary : List Node
  enumerations : List Node
  methods : List Node
  instanceProperties : List Node
  functions : List Node
  staticProperties : List Node
  publicMethods_eq : publicOnes (instanceMembers .function symbols) = .ok publicMethods
  publicFunctions_eq : publicOnes (staticMembers .function symbols) = .ok publicFunctions
  constructors_eq : sectionOf "Constructor" (symbolEntry parser)
    (Symbol.ofKind .constructor (Symbol.sorted symbols)) = .ok constructors
  interfaces_eq : sectionOf "Interface" (symbolEntry parser)
    (Symbol.ofKind .interface (Symbol.sorted symbols)) = .ok interfaces
  methodSummary_eq : summarySection parser "Public instance method summary" publicMethods.isEmpty
    publicMethods = .ok methodSummary
  functionSummary_eq : summarySection parser "Public static method summary"
    (staticMembers .function symbols).isEmpty publicFunctions = .ok functionSummary
  enumerations_eq : sectionOf "Enumerations" (symbolEntry parser)
    (Symbol.ofKind .enumeration (Symbol.sorted symbols)) = .ok enumerations
  methods_eq : sectionOf "Instance methods" (ruled (functionEntry parser))
    (instanceMembers .function symbols) = .ok methods
  instanceProperties_eq : sectionOf "Instance properties" (ruled (symbolEntry parser))
    (instanceMembers .property symbols) = .ok instanceProperties
  functions_eq : staticMethods parser (staticMembers .function symbols) = .ok functions
  staticProperties_eq : sectionOf "Static properties" (ruled (symbolEntry parser))
    (staticMembers .property symbols) = .ok staticProperties

def Sections.nodes {symbols : List Symbol} (c : Sections parser symbols) (owner : Text) :
    List Node :=
  labelled "h1" owner :: c.constructors ++ c.interfaces ++ c.methodSummary ++ c.functionSummary ++
    c.enumerations ++ c.methods ++ c.instanceProperties ++ c.functions ++ c.staticProperties

/-- **The content of a page is its sections.** -/
theorem exists_sections_of_content {owner : Text} {symbols : List Symbol} {nodes : List Node}
    (h : content parser owner symbols = .ok nodes) :
    ∃ c : Sections parser symbols, nodes = c.nodes owner := by
  obtain ⟨constructors, hconstructors, h⟩ := bind_eq_ok_iff.mp h
  obtain ⟨interfaces, hinterfaces, h⟩ := bind_eq_ok_iff.mp h
  obtain ⟨publicMethods, hpublicMethods, h⟩ := bind_eq_ok_iff.mp h
  obtain ⟨methodSummary, hmethodSummary, h⟩ := bind_eq_ok_iff.mp h
  obtain ⟨publicFunctions, hpublicFunctions, h⟩ := bind_eq_ok_iff.mp h
  obtain ⟨functionSummary, hfunctionSummary, h⟩ := bind_eq_ok_iff.mp h
  obtain ⟨enumerations, henumerations, h⟩ := bind_eq_ok_iff.mp h
  obtain ⟨methods, hmethods, h⟩ := bind_eq_ok_iff.mp h
  obtain ⟨instanceProperties, hinstanceProperties, h⟩ := bind_eq_ok_iff.mp h
  obtain ⟨functions, hfunctions, h⟩ := bind_eq_ok_iff.mp h
  obtain ⟨staticProperties, hstaticProperties, h⟩ := bind_eq_ok_iff.mp h
  refine ⟨{
    publicMethods, publicFunctions, constructors, interfaces, methodSummary, functionSummary
    enumerations, methods, instanceProperties, functions, staticProperties
    publicMethods_eq := hpublicMethods
    publicFunctions_eq := hpublicFunctions
    constructors_eq := hconstructors
    interfaces_eq := hinterfaces
    methodSummary_eq := hmethodSummary
    functionSummary_eq := hfunctionSummary
    enumerations_eq := henumerations
    methods_eq := hmethods
    instanceProperties_eq := hinstanceProperties
    functions_eq := hfunctions
    staticProperties_eq := hstaticProperties }, ?_⟩
  rw [← Except.ok.inj h]
  rfl

/-- **A page is its sections.** -/
theorem exists_sections {owner : Text} {symbols : List Symbol} {tree : Node}
    (h : document parser owner symbols = .ok tree) :
    ∃ c : Sections parser symbols, tree = elementOf "html" [elementOf "body" (c.nodes owner)] := by
  obtain ⟨nodes, hnodes, htree⟩ := bind_eq_ok_iff.mp h
  obtain ⟨c, rfl⟩ := exists_sections_of_content hnodes
  exact ⟨c, (Except.ok.inj htree).symm⟩

section

variable {symbols : List Symbol}

theorem Sections.mem_publicMethods (c : Sections parser symbols) {s : Symbol} :
    s ∈ c.publicMethods ↔
      s ∈ symbols ∧ s.kind? = some .function ∧ s.isStatic = false ∧ isPublic s = true := by
  rw [publicOnes_eq_ok c.publicMethods_eq, List.mem_filter, mem_instanceMembers, and_assoc,
    and_assoc]

theorem Sections.mem_publicFunctions (c : Sections parser symbols) {s : Symbol} :
    s ∈ c.publicFunctions ↔
      s ∈ symbols ∧ s.kind? = some .function ∧ s.isStatic = true ∧ isPublic s = true := by
  rw [publicOnes_eq_ok c.publicFunctions_eq, List.mem_filter, mem_staticMembers, and_assoc,
    and_assoc]

/-- The summary of the static functions is left out if there are none at all, public or not. -/
theorem Sections.publicFunctions_eq_nil (c : Sections parser symbols)
    (h : (staticMembers .function symbols).isEmpty = true) : c.publicFunctions = [] := by
  rw [publicOnes_eq_ok c.publicFunctions_eq, List.isEmpty_iff.mp h, List.filter_nil]

end

/-! ### Nodes of a section -/

theorem mem_flatten_of_mapM {entry : Symbol → Except Fault (List Node)} {ss : List Symbol}
    {entries : List (List Node)} (h : ss.mapM entry = .ok entries) {n : Node} :
    n ∈ entries.flatten ↔ ∃ s ∈ ss, ∃ es, entry s = .ok es ∧ n ∈ es := by
  simp only [List.mem_flatten, mem_of_mapM h]
  constructor
  · rintro ⟨es, ⟨s, hs, hes⟩, hn⟩
    exact ⟨s, hs, es, hes, hn⟩
  · rintro ⟨s, hs, es, hes, hn⟩
    exact ⟨es, ⟨s, hs, hes⟩, hn⟩

theorem mem_sectionOf {title : String} {entry : Symbol → Except Fault (List Node)}
    {ss : List Symbol} {ns : List Node} (h : sectionOf title entry ss = .ok ns) {n : Node} :
    n ∈ ns ↔ (ss ≠ [] ∧ n = heading title.toList) ∨ ∃ s ∈ ss, ∃ es, entry s = .ok es ∧ n ∈ es := by
  unfold sectionOf at h
  split at h
  · rename_i hempty
    obtain rfl := List.isEmpty_iff.mp hempty
    obtain rfl := Except.ok.inj h
    simp
  · rename_i hempty
    obtain ⟨entries, hentries, h⟩ := bind_eq_ok_iff.mp h
    obtain rfl := Except.ok.inj h
    have hne : ss ≠ [] := fun he => hempty (List.isEmpty_iff.mpr he)
    rw [List.mem_cons, mem_flatten_of_mapM hentries]
    simp [hne]

theorem mem_staticMethods {ss : List Symbol} {ns : List Node} (h : staticMethods parser ss = .ok ns)
    {n : Node} :
    n ∈ ns ↔ (ss ≠ [] ∧ (n = heading "Static methods".toList ∨ n = rule)) ∨
      ∃ s ∈ ss, ∃ es, ruled (functionEntry parser) s = .ok es ∧ n ∈ es := by
  unfold staticMethods at h
  split at h
  · rename_i hempty
    obtain rfl := List.isEmpty_iff.mp hempty
    obtain rfl := Except.ok.inj h
    simp
  · rename_i hempty
    obtain ⟨entries, hentries, h⟩ := bind_eq_ok_iff.mp h
    obtain rfl := Except.ok.inj h
    have hne : ss ≠ [] := fun he => hempty (List.isEmpty_iff.mpr he)
    rw [List.mem_cons, List.mem_cons, mem_flatten_of_mapM hentries]
    simp only [ne_eq, hne, not_false_eq_true, true_and, or_assoc]

theorem exists_entry_of_sectionOf {title : String} {entry : Symbol → Except Fault (List Node)}
    {ss : List Symbol} {ns : List Node} (h : sectionOf title entry ss = .ok ns) {s : Symbol}
    (hs : s ∈ ss) : ∃ es, entry s = .ok es := by
  rw [sectionOf, if_neg (by simpa using List.ne_nil_of_mem hs)] at h
  obtain ⟨entries, hentries, -⟩ := bind_eq_ok_iff.mp h
  exact exists_of_mapM hentries hs

theorem exists_entry_of_staticMethods {ss : List Symbol} {ns : List Node}
    (h : staticMethods parser ss = .ok ns) {s : Symbol} (hs : s ∈ ss) :
    ∃ es, ruled (functionEntry parser) s = .ok es := by
  rw [staticMethods, if_neg (by simpa using List.ne_nil_of_mem hs)] at h
  obtain ⟨entries, hentries, -⟩ := bind_eq_ok_iff.mp h
  exact exists_of_mapM hentries hs

theorem ruled_eq_ok_iff {entry : Symbol → Except Fault (List Node)} {s : Symbol}
    {ns : List Node} :
    ruled entry s = .ok ns ↔ ∃ es, entry s = .ok es ∧ ns = es ++ [rule] := by
  rw [ruled, bind_eq_ok_iff]
  constructor
  · rintro ⟨es, hes, h⟩
    exact ⟨es, hes, (Except.ok.inj h).symm⟩
  · rintro ⟨es, hes, rfl⟩
    exact ⟨es, hes, rfl⟩

theorem summarySection_eq_ok {title : String} {leftOut : Bool} {functions : List Symbol}
    {ns : List Node} (h : summarySection parser title leftOut functions = .ok ns) :
    (leftOut = true ∧ ns = []) ∨
      (leftOut = false ∧ ∃ entries, functions.mapM (summaryEntry parser) = .ok entries ∧
        ns = [heading title.toList, elementOf "dl" entries]) := by
  unfold summarySection at h
  split at h
  · rename_i hleft
    exact Or.inl ⟨hleft, (Except.ok.inj h).symm⟩
  · rename_i hleft
    obtain ⟨list, hlist, h⟩ := bind_eq_ok_iff.mp h
    obtain ⟨entries, hentries, hlist⟩ := bind_eq_ok_iff.mp hlist
    refine Or.inr ⟨(Bool.not_eq_true _).mp hleft, entries, hentries, ?_⟩
    rw [← Except.ok.inj h, ← Except.ok.inj hlist]

end ScriptDocs.Page
