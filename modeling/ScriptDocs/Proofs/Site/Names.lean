import ScriptDocs.Command.Run
import ScriptDocs.Proofs.Archive
import ScriptDocs.Proofs.Comment.Block
import ScriptDocs.Proofs.Site.Order
import ScriptDocs.Proofs.Source

/-!
# The names of pages

A script may pass any text off as a namespace, and pages are named after namespaces.  But a page is
made only for a namespace that owns a symbol, and what owns a symbol holds its identifier, which is
a dotted name.  So the names of pages are dotted names, too (`isPageName_of_pages`), and none of
them leads out of the directory in which an archive is unpacked.

* `IsDottedName.induction_on`: dotted names, identifier by identifier.
* `Harmless`: what a name must not have in it; `IsDottedName.harmless`.
* `Source.exists_owner_of_scan`, `Site.isDottedName_owner`: the way of an owner from the scan of a
  script to a group.
* `Site.entries_written`: the pages are read back from the archive.
-/

namespace ScriptDocs

namespace Target

/-! ### Dotted names -/

theorem IsDottedName.single {p : Text} (h : IsIdentifier p) : IsDottedName p :=
  ⟨[p], by simp, by simpa using h, by simp⟩

theorem IsDottedName.dot {p t : Text} (hp : IsIdentifier p) (h : IsDottedName t) :
    IsDottedName (p ++ '.' :: t) := by
  obtain ⟨ps, hne, hid, rfl⟩ := h
  refine ⟨p :: ps, by simp, ?_, by simp [List.intercalate_cons_of_ne_nil hne]⟩
  intro q hq
  rcases List.mem_cons.mp hq with rfl | hq
  · exact hp
  · exact hid q hq

theorem IsDottedName.induction_on {motive : (t : Text) → IsDottedName t → Prop}
    (single : ∀ (p : Text) (hp : IsIdentifier p), motive p (.single hp))
    (dot : ∀ (p t : Text) (hp : IsIdentifier p) (ht : IsDottedName t), motive t ht →
      motive (p ++ '.' :: t) (.dot hp ht))
    {t : Text} (h : IsDottedName t) : motive t h := by
  have hparts : ∀ ps : List Text, ps ≠ [] → (∀ p ∈ ps, IsIdentifier p) →
      ∀ (t : Text) (ht : IsDottedName t), t = List.intercalate ['.'] ps → motive t ht := by
    intro ps hne hid
    induction ps with
    | nil => exact absurd rfl hne
    | cons p ps ih =>
      intro t ht he
      have hp : IsIdentifier p := hid p List.mem_cons_self
      cases ps with
      | nil =>
        rw [List.intercalate_singleton] at he
        subst he
        exact single t hp
      | cons q ps =>
        have hrest : ∀ x ∈ q :: ps, IsIdentifier x := fun x hx => hid x (List.mem_cons_of_mem _ hx)
        rw [List.intercalate_cons_of_ne_nil (by simp), List.append_assoc] at he
        subst he
        exact dot p _ hp ⟨q :: ps, by simp, hrest, rfl⟩ (ih (by simp) hrest _ _ rfl)
  obtain ⟨ps, hne, hid, he⟩ := id h
  exact hparts ps hne hid t h he

theorem IsDottedName.append {s t : Text} (hs : IsDottedName s) (ht : IsDottedName t) :
    IsDottedName (s ++ '.' :: t) := by
  induction hs using IsDottedName.induction_on with
  | single p hp => exact .dot hp ht
  | dot p s hp _ ih =>
    rw [List.append_assoc, List.cons_append]
    exact .dot hp ih

theorem IsDottedName.mem {t : Text} (h : IsDottedName t) {c : Char} (hc : c ∈ t) :
    isIdentifierChar c = true ∨ c = '.' := by
  induction h using IsDottedName.induction_on with
  | single p hp => exact Or.inl (hp.2 c hc)
  | dot p t hp _ ih =>
    rcases List.mem_append.mp hc with hc | hc
    · exact Or.inl (hp.2 c hc)
    · rcases List.mem_cons.mp hc with hc | hc
      · exact Or.inr hc
      · exact ih hc

theorem IsDottedName.head? {t : Text} (h : IsDottedName t) : t.head? ≠ some '.' := by
  intro hdot
  induction h using IsDottedName.induction_on with
  | single p hp => exact hp.dot_notMem (List.mem_of_head? hdot)
  | dot p t hp _ _ =>
    rw [List.head?_append_of_ne_nil _ hp.1] at hdot
    exact hp.dot_notMem (List.mem_of_head? hdot)

theorem IsDottedName.not_dots {t : Text} (h : IsDottedName t) : ¬ ['.', '.'] <:+: t := by
  induction h using IsDottedName.induction_on with
  | single p hp => exact Comment.not_pair_infix_of_notMem hp.dot_notMem
  | dot p t hp ht ih =>
    intro hi
    rcases Comment.pair_infix_append hi with hi | hi | ⟨hlast, -⟩
    · exact Comment.not_pair_infix_of_notMem hp.dot_notMem hi
    · -- the two dots would stand behind the first one, or begin with it
      rcases List.infix_cons_iff.mp hi with hi | hi
      · obtain ⟨rest, hrest⟩ := hi
        simp only [List.cons_append, List.nil_append, List.cons.injEq, true_and] at hrest
        apply ht.head?
        rw [← hrest]
        rfl
      · exact ih hi
    · exact hp.dot_notMem (List.mem_of_getLast? hlast)

end Target

/-! ### Names that lead nowhere else -/

/-- A name of one file in the directory at hand: nothing in it separates directories, leads
upwards, or hides the file, and it has no blanks. -/
structure Harmless (name : Text) : Prop where
  no_slash : '/' ∉ name
  no_backslash : '\\' ∉ name
  no_dots : ¬ "..".toList <:+: name
  no_blank : ∀ c ∈ name, isBlank c = false
  not_hidden : name.head? ≠ some '.'

theorem Target.IsDottedName.harmless {name : Text} (h : IsDottedName name) : Harmless name := by
  have hother : ∀ c, isIdentifierChar c = false → c ≠ '.' → c ∉ name := by
    intro c hchar hdot hc
    rcases h.mem hc with hc | hc
    · rw [hchar] at hc
      exact absurd hc (by simp)
    · exact hdot hc
  refine ⟨hother '/' (by decide) (by decide), hother '\\' (by decide) (by decide), h.not_dots, ?_,
    h.head?⟩
  intro c hc
  rcases h.mem hc with hc | rfl
  · exact isBlank_of_isIdentifierChar hc
  · decide

/-- The name of a page: identifiers joined by dots, and the ending of pages. -/
def IsPageName (name : Text) : Prop :=
  ∃ owner, Target.IsDottedName owner ∧ name = owner ++ ".html".toList

theorem IsPageName.isDottedName {name : Text} (h : IsPageName name) : Target.IsDottedName name := by
  obtain ⟨owner, howner, rfl⟩ := h
  have hending : Target.IsIdentifier "html".toList :=
    ⟨by decide, List.all_eq_true.mp (by decide)⟩
  exact howner.append (.single hending)

theorem IsPageName.zero_notMem {name : Text} (h : IsPageName name) : '\x00' ∉ name := by
  intro hc
  rcases h.isDottedName.mem hc with hc | hc <;> exact absurd hc (by decide)

/-! ### From scripts to owners -/

theorem Source.exists_owner_of_foundSymbols {script : Text} {provided : List Text} {s : Symbol}
    (h : s ∈ foundSymbols script provided) :
    ∃ owner, s.owner? = some owner ∧ Target.IsDottedName owner := by
  obtain ⟨xs, hpre, he⟩ := exists_prefix_foundSymbols script provided
  rw [he] at h
  obtain ⟨⟨span, target?⟩, hx, hsymbol⟩ := List.mem_filterMap.mp h
  obtain ⟨target, -, hd⟩ := documents_of_finding (hpre.subset hx) (symbolAt?_eq_some hsymbol)
  obtain ⟨owner, -, howner, hparts, -⟩ := hd.owner
  exact ⟨owner, howner, Namespace.isDottedName_of_holds hd.isDottedName
    (Namespace.holds_iff.mpr hparts)⟩

/-- Every symbol of a scanned script has an owner, and the owner is a dotted name. -/
theorem Source.exists_owner_of_scan {script : Text} {path? : Option Text} {source : Source}
    {notes : List LogEntry} (h : scan script path? = .ok (source, notes)) :
    ∀ s ∈ source.symbols, ∃ owner, s.owner? = some owner ∧ Target.IsDottedName owner := by
  obtain ⟨found, hfound, he⟩ := bind_eq_ok_iff.mp h
  obtain ⟨rfl, -⟩ := Prod.mk.inj (Except.ok.inj he)
  intro s hs
  obtain ⟨s', hs', rfl⟩ := List.mem_map.mp hs
  apply exists_owner_of_foundSymbols (s := s')
  unfold Produced.all at hfound
  split at hfound
  · rw [← Except.ok.inj hfound] at hs'
    exact hs'
  · exact nomatch hfound

/-- The groups of a site belong to dotted names. -/
theorem Site.isDottedName_owner {orders : Orders} {scripts : List Script} {site : Site}
    (h : Site.ofScripts orders scripts = .ok site) :
    ∀ g ∈ site.groups, Target.IsDottedName g.owner := by
  obtain ⟨scanned, hscan, h⟩ := bind_eq_ok_iff.mp h
  obtain ⟨groups, hgroups, h⟩ := bind_eq_ok_iff.mp h
  obtain rfl := Except.ok.inj h
  rw [Catalog.collect_symbols, List.flatMap_def] at hgroups
  obtain ⟨rfl, -⟩ := Group.eq_grouping_of_ofSymbols hgroups
  intro g' hg'
  obtain ⟨g, hg, rfl⟩ := List.mem_map.mp hg'
  obtain ⟨owner, howner, rfl⟩ := List.mem_map.mp hg
  obtain ⟨s, hs, hso⟩ := Group.mem_owners.mp howner
  have hlisted := (listed_listings orders scanned).flatten_perm
  obtain ⟨x, hx, hs⟩ := List.mem_flatMap.mp (hlisted.mem_iff.mp (Catalog.survivors_subset _ hs))
  -- the source is that of one of the scripts
  obtain ⟨script, -, hscript⟩ := (mem_of_mapM hscan).mp hx
  obtain ⟨owner', howner', hname⟩ := Source.exists_owner_of_scan hscript s hs
  rw [hso] at howner'
  rw [Option.some.inj howner']
  exact hname

/-! ### From groups to entries -/

variable {parser : Html.Parser}

theorem Group.name_of_page {g : Group} {p : PageFile} (h : g.page parser = .ok p) :
    p.name = g.owner ++ ".html".toList := by
  obtain ⟨t, ht, hp⟩ := bind_eq_ok_iff.mp h
  obtain ⟨content, -, hp⟩ := bind_eq_ok_iff.mp hp
  rw [← Except.ok.inj hp]
  exact Group.name_of_tree ht

theorem exists_group_of_pages {gs : List Group} {p : PageFile}
    (h : p ∈ (pages parser gs).items) : ∃ g ∈ gs, p.name = g.owner ++ ".html".toList := by
  obtain ⟨front, rest, hgs, hfront, -⟩ := upToFault_pages parser gs
  have hmem : Except.ok p ∈ front.map (Group.page parser) := by
    rw [hfront]
    exact List.mem_map_of_mem h
  obtain ⟨g, hg, hpage⟩ := List.mem_map.mp hmem
  refine ⟨g, ?_, Group.name_of_page hpage⟩
  rw [hgs]
  exact List.mem_append_left _ hg

theorem Site.isPageName_page {orders : Orders} {scripts : List Script} {site : Site}
    (h : Site.ofScripts orders scripts = .ok site) {p : PageFile}
    (hp : p ∈ (pages parser site.groups).items) : IsPageName p.name := by
  obtain ⟨g, hg, hname⟩ := exists_group_of_pages hp
  exact ⟨g.owner, Site.isDottedName_owner h g hg, hname⟩

/-- What is written of a site is an archive of its pages, without its end if a page failed. -/
theorem Command.written?_writePages (parser : Html.Parser) (notes : List LogEntry) (path : Text)
    (site : Site) :
    ∃ content, (Command.writePages parser notes path site).written? = some (path, content) ∧
      (content = Archive.ofEntries ((pages parser site.groups).items.map Command.entryOf) ∨
        content = Archive.unfinished ((pages parser site.groups).items.map Command.entryOf)) := by
  simp only [Command.writePages]
  cases (pages parser site.groups).fault? with
  | none => exact ⟨_, rfl, Or.inl rfl⟩
  | some f => exact ⟨_, rfl, Or.inr rfl⟩

/-- **The pages are read back from what is written of a site**, all that were made and in their
order, also if a page fails: only pages of 8 GiB and more would not be told apart. -/
theorem Site.entries_written {orders : Orders} {scripts : List Script} {site : Site}
    (h : Site.ofScripts orders scripts = .ok site) (notes : List LogEntry) (path : Text)
    (hsize : ∀ p ∈ (pages parser site.groups).items,
      (Archive.nameRecord p.name).length < 8 ^ 11 ∧ (Utf8.encode p.content).length < 8 ^ 11) :
    ∃ content, (Command.writePages parser notes path site).written? = some (path, content) ∧
      Archive.entries content = (pages parser site.groups).items.map Command.entryOf := by
  have hstorable : ∀ e ∈ (pages parser site.groups).items.map Command.entryOf,
      Archive.Storable e := by
    intro e he
    obtain ⟨p, hp, rfl⟩ := List.mem_map.mp he
    exact ⟨(Site.isPageName_page h hp).zero_notMem, (hsize p hp).1, (hsize p hp).2⟩
  obtain ⟨content, hwritten, rfl | rfl⟩ := Command.written?_writePages parser notes path site
  · exact ⟨_, hwritten, Archive.entries_ofEntries hstorable⟩
  · exact ⟨_, hwritten, Archive.entries_unfinished hstorable⟩

/-- **The names of pages are dotted names**, whatever the scripts provide and in whatever order
their symbols are listed.  Of the scripts' site an archive is written whose entries are the pages
that were made, also if a page fails, and the name of each is a row of identifiers joined by dots,
with the ending of pages: nothing in it leads elsewhere. -/
theorem isPageName_of_pages {orders : Orders} {scripts : List Script} {site : Site}
    (h : Site.ofScripts orders scripts = .ok site) (parser : Html.Parser) (notes : List LogEntry)
    (path : Text) :
    ∃ (entries : List Archive.Entry) (content : List UInt8),
      (Command.writePages parser notes path site).written? = some (path, content) ∧
      (content = Archive.ofEntries entries ∨ content = Archive.unfinished entries) ∧
      entries = (pages parser site.groups).items.map Command.entryOf ∧
      ∀ e ∈ entries, IsPageName e.name ∧ Harmless e.name := by
  obtain ⟨content, hwritten, hcontent⟩ := Command.written?_writePages parser notes path site
  refine ⟨_, content, hwritten, hcontent, rfl, ?_⟩
  intro e he
  obtain ⟨p, hp, rfl⟩ := List.mem_map.mp he
  have hpage := Site.isPageName_page h hp
  exact ⟨hpage, hpage.isDottedName.harmless⟩

/-- A script that passes a path out of the directory off as a namespace, and another script. -/
def climbing : List Script :=
  [⟨"x.js".toList, "goog.provide('../../x');\n/** * F. */ x.f;".toList⟩,
    ⟨"a.js".toList, "goog.provide('a.$b');\n/** * F. */ a.$b.f;".toList⟩]

theorem isPageName_of_pages_climbing :
    climbing.flatMap (fun s => Declaration.provides s.content) =
      ["../../x", "a.$b"].map String.toList ∧
    ∃ site, Site.ofScripts .asFound climbing = .ok site ∧
      (pages Html.fragment site.groups).items.map (·.name) = ["a.$b.html".toList] ∧
      ∀ p ∈ (pages Html.fragment site.groups).items, IsPageName p.name ∧ Harmless p.name := by
  have hnames : ((Site.ofScripts .asFound climbing).toOption.map fun site =>
      (pages Html.fragment site.groups).items.map (·.name)) = some ["a.$b.html".toList] := by
    decide +kernel
  obtain ⟨site, hsite, hnames⟩ := Option.map_eq_some_iff.mp hnames
  have hok := eq_ok_of_toOption hsite
  refine ⟨by decide, site, hok, hnames, ?_⟩
  intro p hp
  obtain ⟨entries, -, -, -, rfl, hentries⟩ := isPageName_of_pages hok Html.fragment [] []
  exact hentries _ (List.mem_map_of_mem hp)

end ScriptDocs
