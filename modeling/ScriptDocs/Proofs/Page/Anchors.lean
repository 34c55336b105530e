import ScriptDocs.Proofs.Page.Content

/-!
# What a page can be linked to by

A link inside a page leads to a heading with an id.  The heading of a function's description has
the identifier as its id; all other ids come from markup in the texts that the author of a comment
wrote.

* `Shows`, `Anchors`: the texts that the description of a symbol shows, and the ids in it.
* `mem_headingIds_functionEntry`, `mem_headingIds_symbolEntry`: one entry, which a section
  (`mem_headingIds_sectionOf`) and then the page are made of.
* `anchors_of_summarySection`: a summary has no ids that the descriptions do not have.
* `mem_headingIds_document`: the ids of a page, in terms of its symbols.
-/

namespace ScriptDocs.Page

open Html

variable {parser : Parser}

/-! ### Attributes in an entry -/

section

variable {asked : Text → Bool} {key x : Text}

theorem values_elementOf (name : String) (children : List Node) :
    (elementOf name children).values asked key = nodesValues asked key children :=
  values_element_nil _ _

theorem nodesValues_typed (type text : Text) :
    nodesValues asked key (typed parser type text) = nodesValues asked key (prose parser text) := by
  rw [typed, nodesValues, labelled, values_labelled, nodesValues, Node.values]
  rfl

theorem mem_values_parameterList {ps : List Parameter} :
    x ∈ nodesValues asked key (parameterList parser ps) ↔
      ∃ p ∈ ps, x ∈ nodesValues asked key (prose parser p.text) := by
  unfold parameterList
  split
  · rename_i hempty
    simp [List.isEmpty_iff.mp hempty, nodesValues]
  · simp only [nodesValues, labelled, values_labelled, values_elementOf, List.nil_append,
      List.append_nil, mem_nodesValues_map, values_element_nil, values_text, nodesValues_typed]

theorem mem_values_returnParagraph {r? : Option Returned} :
    x ∈ nodesValues asked key (returnParagraph parser r?) ↔
      ∃ r, r? = some r ∧ x ∈ nodesValues asked key (prose parser r.text) := by
  cases r? with
  | none => simp [returnParagraph, nodesValues]
  | some r =>
    simp [returnParagraph, nodesValues, labelled, values_elementOf, nodesValues_typed]

theorem mem_values_paragraphs {c : Comment} :
    x ∈ nodesValues asked key (paragraphs parser c) ↔
      ∃ d ∈ c.descriptions, x ∈ nodesValues asked key (prose parser d) := by
  simp only [paragraphs, mem_nodesValues_map, values_elementOf]

end

/-! ### What a page can be linked to by -/

/-- The texts that the description of a symbol shows and that may hold markup. -/
inductive Shows (s : Symbol) : Text → Prop
  | description {c : Comment} {d : Text} (hc : s.comment? = some c) (hd : d ∈ c.descriptions) :
    Shows s d
  | parameter {c : Comment} {g : Signature} {p : Parameter} (hk : s.kind? = some .function)
    (hc : s.comment? = some c) (hg : Signature.ofFlags c.flags = .ok g) (hp : p ∈ g.parameters) :
    Shows s p.text
  | returned {c : Comment} {g : Signature} {r : Returned} (hk : s.kind? = some .function)
    (hc : s.comment? = some c) (hg : Signature.ofFlags c.flags = .ok g)
    (hr : g.returned? = some r) : Shows s r.text

/-- The ids of headings in the description of a symbol: the identifier of a function, and whatever
ids the markup in its texts has. -/
inductive Anchors (parser : Parser) (s : Symbol) (x : Text) : Prop
  | title (hk : s.kind? = some .function) (hx : x = s.identifier)
  | markup {t : Text} (ht : Shows s t) (hx : x ∈ headingIds (prose parser t))

theorem commentOf_eq_ok {s : Symbol} {c : Comment} (h : commentOf s = .ok c) :
    s.comment? = some c := by
  unfold commentOf at h
  split at h
  · exact nomatch h
  · rename_i hc
    rw [hc, Except.ok.inj h]

def titleOf (s : Symbol) : Node :=
  .element "h3".toList [⟨"id".toList, s.identifier⟩]
    (if s.identifier.isEmpty then [] else [.text s.identifier])

theorem headingIds_titleOf (s : Symbol) (ns : List Node) :
    headingIds (titleOf s :: ns) = s.identifier :: headingIds ns := by
  rw [headingIds, nodesValues, titleOf, values_element_text]
  rfl

theorem functionEntry_eq_ok {s : Symbol} {es : List Node} (h : functionEntry parser s = .ok es) :
    ∃ c g full, s.comment? = some c ∧ Signature.ofFlags c.flags = .ok g ∧
      es = titleOf s :: labelled "pre" full :: parameterList parser g.parameters ++
        returnParagraph parser g.returned? ++ paragraphs parser c := by
  obtain ⟨c, hc, h⟩ := bind_eq_ok_iff.mp h
  obtain ⟨g, hg, h⟩ := bind_eq_ok_iff.mp h
  exact ⟨c, g, _, commentOf_eq_ok hc, hg, (Except.ok.inj h).symm⟩

theorem symbolEntry_eq_ok {s : Symbol} {es : List Node} (h : symbolEntry parser s = .ok es) :
    ∃ c, s.comment? = some c ∧ es = labelled "h3" s.identifier :: paragraphs parser c := by
  obtain ⟨c, hc, h⟩ := bind_eq_ok_iff.mp h
  exact ⟨c, commentOf_eq_ok hc, (Except.ok.inj h).symm⟩

theorem mem_headingIds_functionEntry {s : Symbol} {es : List Node} {x : Text}
    (hk : s.kind? = some .function) (h : functionEntry parser s = .ok es) :
    x ∈ headingIds es ↔ Anchors parser s x := by
  obtain ⟨c, g, full, hc, hg, rfl⟩ := functionEntry_eq_ok h
  simp only [List.cons_append, headingIds_titleOf, List.mem_cons]
  simp only [headingIds, nodesValues, labelled, values_labelled, List.nil_append,
    nodesValues_append, List.mem_append, mem_values_parameterList, mem_values_returnParagraph,
    mem_values_paragraphs]
  constructor
  · rintro (hx | (⟨p, hp, hx⟩ | ⟨r, hr, hx⟩) | ⟨d, hd, hx⟩)
    · exact .title hk hx
    · exact .markup (.parameter hk hc hg hp) hx
    · exact .markup (.returned hk hc hg hr) hx
    · exact .markup (.description hc hd) hx
  · intro hx
    cases hx with
    | title _ hx => exact Or.inl hx
    | markup ht hx =>
      cases ht with
      | description hc' hd =>
        obtain rfl := Option.some.inj (hc.symm.trans hc')
        exact Or.inr (Or.inr ⟨_, hd, hx⟩)
      | parameter _ hc' hg' hp =>
        obtain rfl := Option.some.inj (hc.symm.trans hc')
        obtain rfl := Except.ok.inj (hg.symm.trans hg')
        exact Or.inr (Or.inl (Or.inl ⟨_, hp, hx⟩))
      | returned _ hc' hg' hr =>
        obtain rfl := Option.some.inj (hc.symm.trans hc')
        obtain rfl := Except.ok.inj (hg.symm.trans hg')
        exact Or.inr (Or.inl (Or.inr ⟨_, hr, hx⟩))

theorem mem_headingIds_symbolEntry {s : Symbol} {es : List Node} {x : Text}
    (hk : s.kind? ≠ some .function) (h : symbolEntry parser s = .ok es) :
    x ∈ headingIds es ↔ Anchors parser s x := by
  obtain ⟨c, hc, rfl⟩ := symbolEntry_eq_ok h
  simp only [headingIds, nodesValues, labelled, values_labelled, List.nil_append,
    mem_values_paragraphs]
  constructor
  · rintro ⟨d, hd, hx⟩
    exact .markup (.description hc hd) hx
  · intro hx
    cases hx with
    | title hk' _ => exact absurd hk' hk
    | markup ht hx =>
      cases ht with
      | description hc' hd =>
        obtain rfl := Option.some.inj (hc.symm.trans hc')
        exact ⟨_, hd, hx⟩
      | parameter hk' _ _ _ => exact absurd hk' hk
      | returned hk' _ _ _ => exact absurd hk' hk

theorem notMem_headingIds_heading (content x : Text) : x ∉ headingIds [heading content] := by
  simp [headingIds, nodesValues, heading, labelled]

theorem notMem_headingIds_rule (x : Text) : x ∉ headingIds [rule] := by
  simp [headingIds, nodesValues, rule, values_elementOf]

theorem mem_headingIds_ruled {entry : Symbol → Except Fault (List Node)} {s : Symbol}
    {ns : List Node} {x : Text} (h : ruled entry s = .ok ns)
    (hentry : ∀ es, entry s = .ok es → (x ∈ headingIds es ↔ Anchors parser s x)) :
    x ∈ headingIds ns ↔ Anchors parser s x := by
  obtain ⟨es, hes, rfl⟩ := ruled_eq_ok_iff.mp h
  rw [← hentry es hes, headingIds, nodesValues_append, List.mem_append]
  exact or_iff_left (notMem_headingIds_rule x)

/-- The nodes of a section are those of its entries, and some between them that have no id. -/
theorem mem_headingIds_of_entries {entry : Symbol → Except Fault (List Node)} {ss : List Symbol}
    {ns : List Node} {x : Text} {plain : Node → Prop}
    (hmem : ∀ n, n ∈ ns ↔ plain n ∨ ∃ s ∈ ss, ∃ es, entry s = .ok es ∧ n ∈ es)
    (hplain : ∀ n, plain n → x ∉ headingIds [n]) (hmade : ∀ s ∈ ss, ∃ es, entry s = .ok es)
    (hentry : ∀ s ∈ ss, ∀ es, entry s = .ok es → (x ∈ headingIds es ↔ Anchors parser s x)) :
    x ∈ headingIds ns ↔ ∃ s ∈ ss, Anchors parser s x := by
  constructor
  · intro hx
    obtain ⟨n, hn, hx⟩ := mem_nodesValues.mp hx
    rcases (hmem n).mp hn with hn | ⟨s, hs, es, hes, hn⟩
    · exact absurd (mem_nodesValues.mpr ⟨n, List.mem_singleton_self n, hx⟩) (hplain n hn)
    · exact ⟨s, hs, (hentry s hs es hes).mp (mem_nodesValues.mpr ⟨n, hn, hx⟩)⟩
  · rintro ⟨s, hs, hx⟩
    obtain ⟨es, hes⟩ := hmade s hs
    obtain ⟨n, hn, hx⟩ := mem_nodesValues.mp ((hentry s hs es hes).mpr hx)
    exact mem_nodesValues.mpr ⟨n, (hmem n).mpr (Or.inr ⟨s, hs, es, hes, hn⟩), hx⟩

theorem mem_headingIds_sectionOf {title : String} {entry : Symbol → Except Fault (List Node)}
    {ss : List Symbol} {ns : List Node} {x : Text} (h : sectionOf title entry ss = .ok ns)
    (hentry : ∀ s ∈ ss, ∀ es, entry s = .ok es → (x ∈ headingIds es ↔ Anchors parser s x)) :
    x ∈ headingIds ns ↔ ∃ s ∈ ss, Anchors parser s x := by
  refine mem_headingIds_of_entries (fun n => mem_sectionOf h) ?_
    (fun s hs => exists_entry_of_sectionOf h hs) hentry
  rintro n ⟨-, rfl⟩
  exact notMem_headingIds_heading _ x

theorem mem_headingIds_staticMethods {ss : List Symbol} {ns : List Node} {x : Text}
    (h : staticMethods parser ss = .ok ns) (hk : ∀ s ∈ ss, s.kind? = some .function) :
    x ∈ headingIds ns ↔ ∃ s ∈ ss, Anchors parser s x := by
  refine mem_headingIds_of_entries (fun n => mem_staticMethods h) ?_
    (fun s hs => exists_entry_of_staticMethods h hs) fun s hs es hes =>
      mem_headingIds_ruled hes fun es => mem_headingIds_functionEntry (hk s hs)
  rintro n ⟨-, rfl | rfl⟩
  · exact notMem_headingIds_heading _ x
  · exact notMem_headingIds_rule x

/-! ### Summaries -/

/-- The part of a symbol's description that a summary repeats. -/
def firstDescription? (s : Symbol) : Option Text := s.comment?.bind (·.descriptions.head?)

theorem codeLine_eq_ok {s : Symbol} {name : Text} {n : Node} (h : codeLine name s = .ok n) :
    ∃ texts : List Text,
      n = elementOf "code" (.link name ('#' :: name) :: texts.map .text) := by
  obtain ⟨c, hc, h⟩ := bind_eq_ok_iff.mp h
  obtain ⟨g, hg, h⟩ := bind_eq_ok_iff.mp h
  obtain rfl := Except.ok.inj h
  cases g.returned? with
  | none => exact ⟨[g.inline], rfl⟩
  | some r => exact ⟨[g.inline, " : ".toList, r.signature], rfl⟩

theorem summaryEntry_eq_ok {s : Symbol} {n : Node} (h : summaryEntry parser s = .ok n) :
    ∃ (name : Text) (texts : List Text), summaryName s = .ok name ∧
      n = elementOf "dt"
        [elementOf "code" (.link name ('#' :: name) :: texts.map .text),
          elementOf "dd" ((firstDescription? s).toList.flatMap (prose parser))] := by
  obtain ⟨c, hc, h⟩ := bind_eq_ok_iff.mp h
  obtain ⟨name, hname, h⟩ := bind_eq_ok_iff.mp h
  obtain ⟨line, hline, h⟩ := bind_eq_ok_iff.mp h
  obtain ⟨texts, rfl⟩ := codeLine_eq_ok hline
  refine ⟨name, texts, hname, ?_⟩
  rw [← Except.ok.inj h, firstDescription?, commentOf_eq_ok hc, Option.bind_some]
  cases c.descriptions with
  | nil => rfl
  | cons d ds => simp

theorem mem_values_summaryEntry {asked : Text → Bool} {key x name : Text} {texts : List Text}
    {d? : Option Text} :
    x ∈ (elementOf "dt" [elementOf "code" (.link name ('#' :: name) :: texts.map .text),
        elementOf "dd" (d?.toList.flatMap (prose parser))]).values asked key ↔
      x ∈ (Node.link name ('#' :: name)).values asked key ∨
        ∃ d, d? = some d ∧ x ∈ nodesValues asked key (prose parser d) := by
  have htexts : nodesValues asked key (texts.map .text) = [] := by
    induction texts with
    | nil => rfl
    | cons t ts ih => rw [List.map_cons, nodesValues, ih, values_text, List.nil_append]
  simp only [values_elementOf, nodesValues, htexts, List.append_nil, List.mem_append]
  cases d? with
  | none => simp [nodesValues]
  | some d => simp

/-- A summary has no headings of its own: ids in it come from a description, which is shown in full
further down. -/
theorem anchors_of_summaryEntry {s : Symbol} {n : Node} {x : Text}
    (h : summaryEntry parser s = .ok n) (hx : x ∈ headingIds [n]) : Anchors parser s x := by
  obtain ⟨name, texts, -, rfl⟩ := summaryEntry_eq_ok h
  rw [headingIds, nodesValues, nodesValues, List.append_nil, mem_values_summaryEntry,
    mem_values_link] at hx
  rcases hx with ⟨hno, -⟩ | ⟨d, hd, hx⟩
  · exact absurd hno (by decide)
  · obtain ⟨c, hc, hfirst⟩ := Option.bind_eq_some_iff.mp hd
    exact .markup (.description hc (List.mem_of_head? hfirst)) hx

section

variable {title : String} {leftOut : Bool} {functions : List Symbol} {ns : List Node} {x : Text}

/-- The nodes of a summary, entry by entry.  It is left out only if there is nothing in it. -/
theorem mem_values_summarySection {asked : Text → Bool} {key : Text}
    (h : summarySection parser title leftOut functions = .ok ns)
    (hleft : leftOut = true → functions = []) :
    x ∈ nodesValues asked key ns ↔
      ∃ s ∈ functions, ∃ n, summaryEntry parser s = .ok n ∧ x ∈ nodesValues asked key [n] := by
  rcases summarySection_eq_ok h with ⟨hout, rfl⟩ | ⟨-, entries, hentries, rfl⟩
  · simp [hleft hout, nodesValues]
  · simp only [nodesValues, heading, labelled, values_labelled, values_elementOf, List.nil_append,
      List.append_nil, mem_nodesValues, mem_of_mapM hentries]
    constructor
    · rintro ⟨n, ⟨s, hs, hn⟩, hx⟩
      exact ⟨s, hs, n, hn, hx⟩
    · rintro ⟨s, hs, n, hn, hx⟩
      exact ⟨n, ⟨s, hs, hn⟩, hx⟩

theorem anchors_of_summarySection (h : summarySection parser title leftOut functions = .ok ns)
    (hleft : leftOut = true → functions = []) (hx : x ∈ headingIds ns) :
    ∃ s ∈ functions, Anchors parser s x := by
  rw [headingIds, mem_values_summarySection h hleft] at hx
  obtain ⟨s, hs, n, hn, hx⟩ := hx
  exact ⟨s, hs, anchors_of_summaryEntry hn hx⟩

end

/-! ### The headings of a page -/

def shownKinds : List Kind := [.constructor, .interface, .enumeration, .function, .property]

/-- What the sections for a kind can be linked to by. -/
def AnchoredIn (parser : Parser) (symbols : List Symbol) (k : Kind) (x : Text) : Prop :=
  ∃ s ∈ symbols, s.kind? = some k ∧ Anchors parser s x

/-- What a page of the symbols can be linked to by. -/
def Anchored (parser : Parser) (symbols : List Symbol) (x : Text) : Prop :=
  ∃ k ∈ shownKinds, AnchoredIn parser symbols k x

variable {symbols : List Symbol}

section

variable {k : Kind} {title : String} {ns : List Node} {x : Text}

theorem mem_headingIds_ofKind (hk : k ≠ .function)
    (h : sectionOf title (symbolEntry parser) (Symbol.ofKind k (Symbol.sorted symbols)) = .ok ns) :
    x ∈ headingIds ns ↔ AnchoredIn parser symbols k x := by
  have hentry : ∀ s ∈ Symbol.ofKind k (Symbol.sorted symbols), ∀ es, symbolEntry parser s = .ok es →
      (x ∈ headingIds es ↔ Anchors parser s x) := by
    intro s hs es hes
    refine mem_headingIds_symbolEntry ?_ hes
    rw [(mem_ofKind_sorted.mp hs).2]
    exact fun h => hk (Option.some.inj h)
  rw [mem_headingIds_sectionOf h hentry]
  simp only [AnchoredIn, mem_ofKind_sorted, and_assoc]

/-- The two sections of a kind, for instances and for the namespace itself, make up the kind. -/
theorem anchoredIn_iff :
    AnchoredIn parser symbols k x ↔
      (∃ s ∈ instanceMembers k symbols, Anchors parser s x) ∨
        ∃ s ∈ staticMembers k symbols, Anchors parser s x := by
  simp only [mem_instanceMembers, mem_staticMembers]
  constructor
  · rintro ⟨s, hs, hk, hx⟩
    cases hstatic : s.isStatic with
    | false => exact Or.inl ⟨s, ⟨hs, hk, hstatic⟩, hx⟩
    | true => exact Or.inr ⟨s, ⟨hs, hk, hstatic⟩, hx⟩
  · rintro (⟨s, ⟨hs, hk, -⟩, hx⟩ | ⟨s, ⟨hs, hk, -⟩, hx⟩)
    · exact ⟨s, hs, hk, hx⟩
    · exact ⟨s, hs, hk, hx⟩

end

theorem Sections.mem_headingIds_functions (c : Sections parser symbols) {x : Text} :
    x ∈ headingIds c.methods ∨ x ∈ headingIds c.functions ↔
      AnchoredIn parser symbols .function x := by
  have hmethods : x ∈ headingIds c.methods ↔
      ∃ s ∈ instanceMembers .function symbols, Anchors parser s x :=
    mem_headingIds_sectionOf c.methods_eq fun s hs es hes => mem_headingIds_ruled hes fun es =>
      mem_headingIds_functionEntry (mem_instanceMembers.mp hs).2.1
  have hfunctions : x ∈ headingIds c.functions ↔
      ∃ s ∈ staticMembers .function symbols, Anchors parser s x :=
    mem_headingIds_staticMethods c.functions_eq fun s hs => (mem_staticMembers.mp hs).2.1
  rw [anchoredIn_iff, hmethods, hfunctions]

theorem Sections.mem_headingIds_properties (c : Sections parser symbols) {x : Text} :
    x ∈ headingIds c.instanceProperties ∨ x ∈ headingIds c.staticProperties ↔
      AnchoredIn parser symbols .property x := by
  have hentry : ∀ s : Symbol, s.kind? = some .property → ∀ es, symbolEntry parser s = .ok es →
      (x ∈ headingIds es ↔ Anchors parser s x) := by
    intro s hk es hes
    exact mem_headingIds_symbolEntry (by rw [hk]; exact nofun) hes
  have hinstance : x ∈ headingIds c.instanceProperties ↔
      ∃ s ∈ instanceMembers .property symbols, Anchors parser s x :=
    mem_headingIds_sectionOf c.instanceProperties_eq fun s hs es hes =>
      mem_headingIds_ruled hes (hentry s (mem_instanceMembers.mp hs).2.1)
  have hstatic : x ∈ headingIds c.staticProperties ↔
      ∃ s ∈ staticMembers .property symbols, Anchors parser s x :=
    mem_headingIds_sectionOf c.staticProperties_eq fun s hs es hes =>
      mem_headingIds_ruled hes (hentry s (mem_staticMembers.mp hs).2.1)
  rw [anchoredIn_iff, hinstance, hstatic]

/-- The summaries can be linked to by nothing that the descriptions do not have. -/
theorem Sections.anchoredIn_of_summaries (c : Sections parser symbols) {x : Text}
    (h : x ∈ headingIds c.methodSummary ∨ x ∈ headingIds c.functionSummary) :
    AnchoredIn parser symbols .function x := by
  rcases h with hx | hx
  · obtain ⟨s, hs, hx⟩ := anchors_of_summarySection c.methodSummary_eq List.isEmpty_iff.mp hx
    obtain ⟨hs, hk, -⟩ := c.mem_publicMethods.mp hs
    exact ⟨s, hs, hk, hx⟩
  · obtain ⟨s, hs, hx⟩ :=
      anchors_of_summarySection c.functionSummary_eq c.publicFunctions_eq_nil hx
    obtain ⟨hs, hk, -⟩ := c.mem_publicFunctions.mp hs
    exact ⟨s, hs, hk, hx⟩

theorem Sections.mem_headingIds_nodes (c : Sections parser symbols) (owner : Text) {x : Text} :
    x ∈ headingIds (c.nodes owner) ↔ Anchored parser symbols x := by
  have hconstructors : x ∈ headingIds c.constructors ↔ AnchoredIn parser symbols .constructor x :=
    mem_headingIds_ofKind nofun c.constructors_eq
  have hinterfaces : x ∈ headingIds c.interfaces ↔ AnchoredIn parser symbols .interface x :=
    mem_headingIds_ofKind nofun c.interfaces_eq
  have henumerations : x ∈ headingIds c.enumerations ↔ AnchoredIn parser symbols .enumeration x :=
    mem_headingIds_ofKind nofun c.enumerations_eq
  have hfunctions := c.mem_headingIds_functions (x := x)
  have hproperties := c.mem_headingIds_properties (x := x)
  have hsummaries := c.anchoredIn_of_summaries (x := x)
  have hnodes : x ∈ headingIds (c.nodes owner) ↔
      x ∈ headingIds c.constructors ∨ x ∈ headingIds c.interfaces ∨
      x ∈ headingIds c.methodSummary ∨ x ∈ headingIds c.functionSummary ∨
      x ∈ headingIds c.enumerations ∨ x ∈ headingIds c.methods ∨
      x ∈ headingIds c.instanceProperties ∨ x ∈ headingIds c.functions ∨
      x ∈ headingIds c.staticProperties := by
    simp only [Sections.nodes, headingIds, List.cons_append, nodesValues, nodesValues_append,
      labelled, values_labelled, List.nil_append, List.mem_append, or_assoc]
  have hshown : Anchored parser symbols x ↔ AnchoredIn parser symbols .constructor x ∨
      AnchoredIn parser symbols .interface x ∨ AnchoredIn parser symbols .enumeration x ∨
      AnchoredIn parser symbols .function x ∨ AnchoredIn parser symbols .property x := by
    simp [Anchored, shownKinds]
  rw [hnodes, hshown]
  -- the summaries come in only by what the sections of the functions have anyway
  grind

/-- **The headings of a page** that can be linked to are those of its symbols. -/
theorem mem_headingIds_document {owner : Text} {tree : Node} {x : Text}
    (h : document parser owner symbols = .ok tree) :
    x ∈ headingIds [tree] ↔ Anchored parser symbols x := by
  obtain ⟨c, rfl⟩ := exists_sections h
  rw [← c.mem_headingIds_nodes owner]
  simp only [headingIds, nodesValues, values_elementOf, List.append_nil]

end ScriptDocs.Page
