import ScriptDocs.Proofs.Site.Pages
import ScriptDocs.Proofs.Symbol

/-!
# The order of scripts and symbols

The pages of a site do not depend on the order in which its scripts are given, nor on the order in
which the symbols of a source or of a group are listed, as long as no identifier is documented
twice.  Such an identifier would be the one thing that an order decides: the first symbol survives,
and equal ones are not moved when a page is sorted.

* `Outcome`: what documenting scripts can come to, with all these orders left open.  The program
  comes to each of them under some `Orders` (`outcome_iff`).
* `Agree`: two results with the same pages.
* `page_eq_of_perm`: symbols with identifiers of their own are sorted in one way only, and so a page
  depends on its symbols alone.
* `perm_pages_grouping`: symbols in another order have the same pages.
* `agree_of_outcome`: every outcome agrees with that of one fixed order, so all of them agree
  (`agree_of_outcomes`).
-/

namespace ScriptDocs

variable {parser : Html.Parser}

/-! ### The page of a group -/

/-- The page of a group as it stands in its file. -/
def Group.page (parser : Html.Parser) (g : Group) : Except Fault PageFile :=
  (g.tree parser).bind PageTree.file

theorem Group.page_eq_of_perm {owner : Text} {xs ys : List Symbol} (h : xs.Perm ys)
    (hnodup : (xs.map (·.identifier)).Nodup) :
    Group.page parser ⟨owner, xs⟩ = Group.page parser ⟨owner, ys⟩ := by
  have hcontent : Page.content parser owner xs = Page.content parser owner ys := by
    unfold Page.content
    rw [Symbol.sorted_eq_of_perm h hnodup]
  have htree : Group.tree parser ⟨owner, xs⟩ = Group.tree parser ⟨owner, ys⟩ := by
    unfold Group.tree Page.document
    rw [hcontent]
  rw [Group.page, Group.page, htree]

theorem pages_eq_through (parser : Html.Parser) (gs : List Group) :
    pages parser gs = Produced.through ⟨gs, none⟩ fun g => (g.page parser).map some :=
  Produced.through_through (Group.tree parser) PageTree.file gs

theorem upToFault_pages (parser : Html.Parser) (gs : List Group) :
    Produced.UpToFault (Group.page parser) gs (pages parser gs) := by
  rw [pages_eq_through]
  exact Produced.upToFault_through (Group.page parser) gs

/-! ### Results with the same pages -/

/-- Two results with the same pages: none at all, or the same ones in any order. -/
inductive Agree : Except Fault (List PageFile) → Except Fault (List PageFile) → Prop
  | failed (f f' : Fault) : Agree (.error f) (.error f')
  | made {ps ps' : List PageFile} (h : ps.Perm ps') : Agree (.ok ps) (.ok ps')

theorem Agree.symm {r r' : Except Fault (List PageFile)} (h : Agree r r') : Agree r' r := by
  cases h with
  | failed f f' => exact .failed f' f
  | made h => exact .made h.symm

theorem Agree.trans {r r' r'' : Except Fault (List PageFile)} (h : Agree r r')
    (h' : Agree r' r'') : Agree r r'' := by
  cases h with
  | failed f f' => cases h' with
    | failed _ f'' => exact .failed f f''
  | made h => cases h' with
    | made h' => exact .made (h.trans h')

/-- Groups with the same pages have results that agree. -/
theorem agree_pages {gs gs' : List Group}
    (h : (gs.map (Group.page parser)).Perm (gs'.map (Group.page parser))) :
    Agree (pages parser gs).all (pages parser gs').all := by
  have hmade := upToFault_pages parser gs
  have hmade' := upToFault_pages parser gs'
  cases hr : (pages parser gs).all with
  | ok ps =>
    rw [hmade.all_eq_ok.mp hr] at h
    obtain ⟨ps', hps', hperm⟩ := exists_perm_map_ok h
    rw [hmade'.all_eq_ok.mpr hps']
    exact .made hperm
  | error f =>
    cases hr' : (pages parser gs').all with
    | error f' => exact .failed f f'
    | ok ps' =>
      rw [hmade'.all_eq_ok.mp hr'] at h
      obtain ⟨ps, hps, -⟩ := exists_perm_map_ok h.symm
      rw [hmade.all_eq_ok.mpr hps] at hr
      exact nomatch hr

/-! ### Symbols in another order -/

theorem Group.owners_perm {xs ys : List Symbol} (h : xs.Perm ys) :
    (Group.owners xs).Perm (Group.owners ys) := by
  rw [List.perm_ext_iff_of_nodup (Group.nodup_owners xs) (Group.nodup_owners ys)]
  intro owner
  rw [Group.mem_owners, Group.mem_owners]
  constructor
  · rintro ⟨s, hs, ho⟩
    exact ⟨s, h.mem_iff.mp hs, ho⟩
  · rintro ⟨s, hs, ho⟩
    exact ⟨s, h.mem_iff.mpr hs, ho⟩

theorem Group.nodup_owned {symbols : List Symbol} (h : (symbols.map (·.identifier)).Nodup)
    (owner : Text) : ((Group.owned symbols owner).map (·.identifier)).Nodup :=
  h.sublist (List.filter_sublist.map _)

/-- **Symbols in another order have the same pages.** -/
theorem Group.perm_pages_grouping {xs ys : List Symbol} (h : xs.Perm ys)
    (hnodup : (xs.map (·.identifier)).Nodup) :
    ((Group.grouping xs).map (Group.page parser)).Perm
      ((Group.grouping ys).map (Group.page parser)) := by
  have hpage : ∀ owner, Group.page parser ⟨owner, Group.owned xs owner⟩ =
      Group.page parser ⟨owner, Group.owned ys owner⟩ :=
    fun owner => Group.page_eq_of_perm (h.filter _) (Group.nodup_owned hnodup owner)
  have hmap : (Group.grouping ys).map (Group.page parser) =
      (Group.owners ys).map fun owner => Group.page parser ⟨owner, Group.owned xs owner⟩ := by
    rw [Group.grouping, List.map_map]
    exact List.map_congr_left fun owner _ => (hpage owner).symm
  rw [hmap, Group.grouping, List.map_map]
  exact (Group.owners_perm h).map _

/-- Symbols can be grouped unless one of them has no owner. -/
theorem Group.ofSymbols_cases (symbols : List Symbol) :
    ((∀ s ∈ symbols, s.owner? ≠ none) ∧
      Group.ofSymbols symbols = .ok (Group.grouping symbols)) ∨
    ((∃ s ∈ symbols, s.owner? = none) ∧ ∃ f, Group.ofSymbols symbols = .error f) := by
  by_cases h : ∃ s ∈ symbols, s.owner? = none
  · obtain ⟨s, hs, ho⟩ := h
    exact Or.inr ⟨⟨s, hs, ho⟩, Group.ofSymbols_eq_error hs ho⟩
  · have howned : ∀ s ∈ symbols, s.owner? ≠ none := fun s hs ho => h ⟨s, hs, ho⟩
    exact Or.inl ⟨howned, Group.ofSymbols_eq_ok howned⟩

theorem Group.eq_grouping_of_ofSymbols {symbols : List Symbol} {gs : List Group}
    (h : Group.ofSymbols symbols = .ok gs) :
    gs = Group.grouping symbols ∧ ∀ s ∈ symbols, s.owner? ≠ none := by
  rcases Group.ofSymbols_cases symbols with ⟨howned, hok⟩ | ⟨-, f, hf⟩
  · exact ⟨Except.ok.inj (h.symm.trans hok), howned⟩
  · rw [hf] at h
    exact nomatch h

theorem Catalog.survivors_perm {xs ys : List Symbol} (h : xs.Perm ys)
    (hnodup : (xs.map (·.identifier)).Nodup) :
    (Catalog.survivors xs).Perm (Catalog.survivors ys) := by
  have hnodup' : (ys.map (·.identifier)).Nodup := (h.map _).nodup_iff.mp hnodup
  rw [Catalog.survivors_eq_filter hnodup, Catalog.survivors_eq_filter hnodup']
  exact h.filter _

namespace Site

/-! ### Every order left open -/

/-- The symbols of each source, listed in some order. -/
def Listed (scanned : List (Source × List LogEntry)) (listings : List (List Symbol)) : Prop :=
  List.Forall₂ (fun x symbols => symbols.Perm x.1.symbols) scanned listings

/-- The same groups, with the members of each in some order. -/
def Reordered (gs gs' : List Group) : Prop :=
  List.Forall₂ (fun g g' => g'.owner = g.owner ∧ g'.members.Perm g.members) gs gs'

/-- What documenting scripts can come to when the symbols of each source, and those of each group,
may be listed in any order. -/
inductive Outcome (parser : Html.Parser) (scripts : List Script) :
    Except Fault (List PageFile) → Prop
  | unscanned {f : Fault} (hscan : scanAll scripts = .error f) : Outcome parser scripts (.error f)
  | ungrouped {scanned : List (Source × List LogEntry)} {listings : List (List Symbol)}
      {siblings : Symbol → List Symbol} {f : Fault}
      (hscan : scanAll scripts = .ok scanned) (hlisted : Listed scanned listings)
      (hgroups : Group.ofSymbols (Catalog.collect siblings listings.flatten).symbols = .error f) :
      Outcome parser scripts (.error f)
  | grouped {scanned : List (Source × List LogEntry)} {listings : List (List Symbol)}
      {siblings : Symbol → List Symbol} {gs gs' : List Group}
      (hscan : scanAll scripts = .ok scanned) (hlisted : Listed scanned listings)
      (hgroups : Group.ofSymbols (Catalog.collect siblings listings.flatten).symbols = .ok gs)
      (hreordered : Reordered gs gs') : Outcome parser scripts (pages parser gs').all

/-- What documenting scripts comes to when symbols are listed in the given orders. -/
def documentation (parser : Html.Parser) (orders : Orders) (scripts : List Script) :
    Except Fault (List PageFile) := do
  let site ← ofScripts orders scripts
  (pages parser site.groups).all

theorem documentation_of_scanAll {orders : Orders} {scripts : List Script}
    {scanned : List (Source × List LogEntry)} (h : scanAll scripts = .ok scanned) :
    documentation parser orders scripts =
      (Group.ofSymbols (Catalog.survivors ((listed orders scanned).map (·.symbols)).flatten)).bind
        fun gs => (pages parser (regrouped orders gs)).all := by
  unfold documentation ofScripts
  rw [h, ← List.flatMap_def]
  simp only [bind, Except.bind, Catalog.collect_symbols]
  cases Group.ofSymbols (Catalog.survivors ((listed orders scanned).flatMap (·.symbols))) with
  | error f => rfl
  | ok gs => rfl

theorem documentation_of_scanAll_error {orders : Orders} {scripts : List Script} {f : Fault}
    (h : scanAll scripts = .error f) : documentation parser orders scripts = .error f := by
  unfold documentation ofScripts
  rw [h]
  rfl

/-- **Scripts can be scanned in any order**, and have the same sources then. -/
theorem scanAll_perm {scripts scripts' : List Script} (h : scripts.Perm scripts')
    {scanned : List (Source × List LogEntry)} (hscan : scanAll scripts = .ok scanned) :
    ∃ scanned', scanAll scripts' = .ok scanned' ∧ scanned.Perm scanned' := by
  have hmap := (mapM_eq_ok_iff _ _ _).mp hscan
  have hperm := h.map fun s => Source.scan s.content (some s.path)
  rw [hmap] at hperm
  obtain ⟨scanned', hmap', hscanned⟩ := exists_perm_map_ok hperm
  exact ⟨scanned', (mapM_eq_ok_iff _ _ _).mpr hmap', hscanned⟩

theorem Listed.flatten_perm {scanned : List (Source × List LogEntry)}
    {listings : List (List Symbol)} (h : Listed scanned listings) :
    listings.flatten.Perm (scanned.flatMap (·.1.symbols)) := by
  unfold Listed at h
  induction h with
  | nil => exact List.Perm.refl _
  | cons hsymbols _ ih =>
    rw [List.flatten_cons, List.flatMap_cons]
    exact hsymbols.append ih

theorem Reordered.map_page {gs gs' : List Group} (h : Reordered gs gs')
    (hnodup : ∀ g ∈ gs, (g.members.map (·.identifier)).Nodup) :
    gs'.map (Group.page parser) = gs.map (Group.page parser) := by
  unfold Reordered at h
  induction h with
  | nil => rfl
  | @cons g g' gs gs' hg _ ih =>
    obtain ⟨howner, hmembers⟩ := hg
    have hpage : g'.page parser = g.page parser := by
      obtain ⟨owner, members⟩ := g
      obtain ⟨owner', members'⟩ := g'
      obtain rfl : owner' = owner := howner
      exact (Group.page_eq_of_perm hmembers.symm (hnodup _ List.mem_cons_self)).symm
    rw [List.map_cons, List.map_cons, hpage, ih fun x hx => hnodup x (List.mem_cons_of_mem _ hx)]

/-! ### Orders as choices -/

theorem map_symbols_listed (orders : Orders) (scanned : List (Source × List LogEntry)) :
    (listed orders scanned).map (·.symbols) =
      scanned.mapIdx fun i x => orders.ofSource i x.1.symbols := by
  rw [listed]
  apply List.ext_getElem? fun i => ?_
  rw [List.getElem?_map, List.getElem?_mapIdx, List.getElem?_mapIdx, Option.map_map]
  rfl

theorem listed_listings (orders : Orders) (scanned : List (Source × List LogEntry)) :
    Listed scanned ((listed orders scanned).map (·.symbols)) := by
  rw [map_symbols_listed]
  refine List.forall₂_iff_get.mpr ⟨by simp, fun i hi hi' => ?_⟩
  simpa using orders.perm_ofSource i _

theorem reordered_regrouped (orders : Orders) (gs : List Group) :
    Reordered gs (regrouped orders gs) := by
  rw [Reordered, regrouped, List.forall₂_map_right_iff]
  exact List.forall₂_same.mpr fun g _ => ⟨rfl, orders.perm_ofGroup g.owner g.members⟩

/-- Symbols as they are listed in `listing?`, if that is a listing of them. -/
def relisted (listing? : Option (List Symbol)) (symbols : List Symbol) : List Symbol :=
  (listing?.filter (·.isPerm symbols)).getD symbols

theorem relisted_perm (listing? : Option (List Symbol)) (symbols : List Symbol) :
    (relisted listing? symbols).Perm symbols := by
  unfold relisted
  cases hl : listing?.filter (·.isPerm symbols) with
  | none => exact .refl _
  | some l =>
    obtain ⟨-, hperm⟩ := Option.filter_eq_some_iff.mp hl
    exact List.isPerm_iff.mp hperm

theorem relisted_eq {l symbols : List Symbol} (h : l.Perm symbols) :
    relisted (some l) symbols = l := by
  have hfilter : (some l).filter (·.isPerm symbols) = some l :=
    Option.filter_some_pos (List.isPerm_iff.mpr h)
  rw [relisted, hfilter, Option.getD_some]

/-- The orders in which the listings and the groups come about. -/
def ordersOf (listings : List (List Symbol)) (gs : List Group) : Orders where
  ofSource i := relisted listings[i]?
  ofGroup owner := relisted ((gs.find? (·.owner = owner)).map (·.members))
  perm_ofSource _ := relisted_perm _
  perm_ofGroup _ := relisted_perm _

theorem Listed.listings_eq {scanned : List (Source × List LogEntry)}
    {listings : List (List Symbol)} (h : Listed scanned listings) (gs : List Group) :
    (listed (ordersOf listings gs) scanned).map (·.symbols) = listings := by
  obtain ⟨hlength, hperm⟩ := List.forall₂_iff_get.mp h
  rw [map_symbols_listed]
  apply List.ext_getElem (by simpa using hlength)
  intro i hi hi'
  have hlisting : listings[i]? = some listings[i] := List.getElem?_eq_getElem hi'
  have hi : i < scanned.length := by simpa using hi
  rw [List.getElem_mapIdx]
  exact (congrArg (relisted · scanned[i].1.symbols) hlisting).trans (relisted_eq (hperm i hi hi'))

theorem find?_owner {gs : List Group} (hnodup : (gs.map (·.owner)).Nodup) {g : Group}
    (hg : g ∈ gs) : gs.find? (·.owner = g.owner) = some g := by
  induction gs with
  | nil => exact absurd hg List.not_mem_nil
  | cons g' gs ih =>
    obtain ⟨hnew, hnodup⟩ := List.nodup_cons.mp hnodup
    rcases List.mem_cons.mp hg with rfl | hg
    · exact List.find?_cons_of_pos (by simp)
    · have hne : g'.owner ≠ g.owner := fun he => hnew (List.mem_map.mpr ⟨g, hg, he.symm⟩)
      rw [List.find?_cons_of_neg (by simpa using hne)]
      exact ih hnodup hg

theorem Reordered.map_owner {gs gs' : List Group} (h : Reordered gs gs') :
    gs'.map (·.owner) = gs.map (·.owner) := by
  unfold Reordered at h
  induction h with
  | nil => rfl
  | cons hg _ ih => rw [List.map_cons, List.map_cons, hg.1, ih]

theorem Reordered.regrouped_eq {gs gs' : List Group} (h : Reordered gs gs')
    (hnodup : (gs.map (·.owner)).Nodup) (listings : List (List Symbol)) :
    regrouped (ordersOf listings gs') gs = gs' := by
  rw [← h.map_owner] at hnodup
  obtain ⟨hlength, hgroup⟩ := List.forall₂_iff_get.mp h
  apply List.ext_getElem (by simpa [regrouped] using hlength)
  intro i hi hi'
  obtain ⟨howner, hmembers⟩ := hgroup i (by simpa [regrouped] using hi) hi'
  have hfound := find?_owner hnodup (List.getElem_mem hi')
  simp only [List.get_eq_getElem] at howner hmembers
  simp only [regrouped, ordersOf, List.getElem_map, ← howner, hfound, Option.map_some,
    relisted_eq hmembers]

/-- **The outcomes are what the program comes to**, under some orders. -/
theorem outcome_iff {scripts : List Script} {r : Except Fault (List PageFile)} :
    Outcome parser scripts r ↔ ∃ orders, documentation parser orders scripts = r := by
  constructor
  · intro h
    cases h with
    | unscanned hscan => exact ⟨.asFound, documentation_of_scanAll_error hscan⟩
    | @ungrouped scanned listings siblings f hscan hlisted hgroups =>
      refine ⟨ordersOf listings [], ?_⟩
      rw [Catalog.collect_symbols] at hgroups
      rw [documentation_of_scanAll hscan, hlisted.listings_eq, hgroups]
      rfl
    | @grouped scanned listings siblings gs gs' hscan hlisted hgroups hreordered =>
      rw [Catalog.collect_symbols] at hgroups
      have hnodup : (gs.map (·.owner)).Nodup := by
        rw [(Group.eq_grouping_of_ofSymbols hgroups).1, Group.map_owner_grouping]
        exact Group.nodup_owners _
      refine ⟨ordersOf listings gs', ?_⟩
      rw [documentation_of_scanAll hscan, hlisted.listings_eq, hgroups]
      exact congrArg (fun gs => (pages parser gs).all) (hreordered.regrouped_eq hnodup listings)
  · rintro ⟨orders, rfl⟩
    cases hscan : scanAll scripts with
    | error f =>
      rw [documentation_of_scanAll_error hscan]
      exact .unscanned hscan
    | ok scanned =>
      have hlisted := listed_listings orders scanned
      have hcollect := Catalog.collect_symbols (fun _ => [])
        ((listed orders scanned).map (·.symbols)).flatten
      rw [documentation_of_scanAll hscan]
      cases hgroups : Group.ofSymbols
          (Catalog.survivors ((listed orders scanned).map (·.symbols)).flatten) with
      | error f => exact .ungrouped hscan hlisted (hcollect ▸ hgroups)
      | ok gs => exact .grouped hscan hlisted (hcollect ▸ hgroups) (reordered_regrouped orders gs)

/-! ### All outcomes agree -/

/-- Scripts whose symbols all have identifiers of their own, over all scripts together. -/
def Distinct (scripts : List Script) : Prop :=
  ∀ scanned, scanAll scripts = .ok scanned →
    ((scanned.flatMap (·.1.symbols)).map (·.identifier)).Nodup

/-- The symbols that survive in a listing are those of the sources, in some order. -/
theorem survivors_listed {scripts scripts' : List Script} (hperm : scripts.Perm scripts')
    (hdistinct : Distinct scripts) {scanned' : List (Source × List LogEntry)}
    (hscan' : scanAll scripts' = .ok scanned') {listings : List (List Symbol)}
    (hlisted : Listed scanned' listings) :
    ∃ scanned, scanAll scripts = .ok scanned ∧
      (Catalog.survivors (scanned.flatMap (·.1.symbols))).Perm
        (Catalog.survivors listings.flatten) := by
  obtain ⟨scanned, hscan, hscanned⟩ := scanAll_perm hperm.symm hscan'
  refine ⟨scanned, hscan, Catalog.survivors_perm ?_ (hdistinct scanned hscan)⟩
  exact (hscanned.symm.flatMap_right _).trans hlisted.flatten_perm.symm

/-- The documentation with nothing listed in another order. -/
theorem documentation_asFound {scripts : List Script} {scanned : List (Source × List LogEntry)}
    (h : scanAll scripts = .ok scanned) :
    documentation parser .asFound scripts =
      (Group.ofSymbols (Catalog.survivors (scanned.flatMap (·.1.symbols)))).bind
        fun gs => (pages parser gs).all := by
  have hlisted : (listed .asFound scanned).map (·.symbols) = scanned.map (·.1.symbols) := by
    apply List.ext_getElem? fun i => ?_
    rw [map_symbols_listed, List.getElem?_mapIdx, List.getElem?_map]
    rfl
  have hgroups : ∀ gs, regrouped .asFound gs = gs := fun gs => List.map_id gs
  rw [documentation_of_scanAll h, hlisted, ← List.flatMap_def]
  simp only [hgroups]

/-- Whatever the orders, the outcome agrees with that of one fixed order. -/
theorem agree_of_outcome {scripts scripts' : List Script} (hperm : scripts.Perm scripts')
    (hdistinct : Distinct scripts) {r : Except Fault (List PageFile)}
    (h : Outcome parser scripts' r) : Agree (documentation parser .asFound scripts) r := by
  cases h with
  | @unscanned f hscan' =>
    cases hscan : scanAll scripts with
    | error f' =>
      rw [documentation_of_scanAll_error hscan]
      exact .failed f' f
    | ok scanned =>
      obtain ⟨scanned', hok, -⟩ := scanAll_perm hperm hscan
      rw [hscan'] at hok
      exact nomatch hok
  | @ungrouped scanned' listings siblings f hscan' hlisted hgroups =>
    obtain ⟨scanned, hscan, hkept⟩ := survivors_listed hperm hdistinct hscan' hlisted
    rw [Catalog.collect_symbols] at hgroups
    rw [documentation_asFound hscan]
    rcases Group.ofSymbols_cases (Catalog.survivors listings.flatten) with
      ⟨-, hok⟩ | ⟨⟨s, hs, ho⟩, -⟩
    · rw [hok] at hgroups
      exact nomatch hgroups
    · -- the symbol without an owner is there in any order
      obtain ⟨f', hf'⟩ := Group.ofSymbols_eq_error (hkept.mem_iff.mpr hs) ho
      rw [hf']
      exact .failed f' f
  | @grouped scanned' listings siblings gs gs' hscan' hlisted hgroups hreordered =>
    obtain ⟨scanned, hscan, hkept⟩ := survivors_listed hperm hdistinct hscan' hlisted
    rw [Catalog.collect_symbols] at hgroups
    rw [documentation_asFound hscan]
    obtain ⟨rfl, howned⟩ := Group.eq_grouping_of_ofSymbols hgroups
    have howned' : ∀ s ∈ Catalog.survivors (scanned.flatMap (·.1.symbols)),
        s.owner? ≠ none := fun s hs => howned s (hkept.mem_iff.mp hs)
    rw [Group.ofSymbols_eq_ok howned']
    apply agree_pages
    rw [hreordered.map_page fun g hg => by
      obtain ⟨owner, -, rfl⟩ := List.mem_map.mp hg
      exact Group.nodup_owned (Catalog.nodup_survivors _) owner]
    exact Group.perm_pages_grouping hkept (Catalog.nodup_survivors _)

/-- **No order shows in the pages.**  The outcomes are what the program comes to when the symbols of
each source and of each group are listed in any order, and all of them agree, those of the scripts
in another order included. -/
theorem agree_of_outcomes (parser : Html.Parser) {scripts scripts' : List Script}
    (hperm : scripts.Perm scripts') (hdistinct : Distinct scripts) :
    (∀ r, Outcome parser scripts r ↔ ∃ orders, documentation parser orders scripts = r) ∧
    ∀ r r', Outcome parser scripts r → Outcome parser scripts' r' → Agree r r' := by
  refine ⟨fun r => outcome_iff, ?_⟩
  intro r r' h h'
  exact (agree_of_outcome (List.Perm.refl _) hdistinct h).symm.trans
    (agree_of_outcome hperm hdistinct h')

/-- Two scripts that document one symbol each. -/
def twoScripts : List Script :=
  [⟨"a.js".toList, "goog.provide('a');\n/**\n * F.\n */\na.f = 0;".toList⟩,
    ⟨"b.js".toList, "goog.provide('b');\n/**\n * G.\n */\nb.g = 0;".toList⟩]

theorem distinct_twoScripts : Distinct twoScripts := by
  have hidentifiers : ((scanAll twoScripts).toOption.map fun scanned =>
      (scanned.flatMap (·.1.symbols)).map (·.identifier)) =
        some (["a.f", "b.g"].map String.toList) := by decide +kernel
  intro scanned hscan
  rw [hscan] at hidentifiers
  have heq : (scanned.flatMap (·.1.symbols)).map (·.identifier) =
      ["a.f", "b.g"].map String.toList := Option.some.inj hidentifiers
  rw [heq]
  decide

theorem agree_of_outcomes_twoScripts :
    twoScripts.Perm twoScripts.reverse ∧ Distinct twoScripts ∧
    ((documentation Html.fragment .asFound twoScripts).toOption.map fun ps => ps.map (·.name)) =
      some (["a.html", "b.html"].map String.toList) ∧
    Agree (documentation Html.fragment .asFound twoScripts)
      (documentation Html.fragment .asFound twoScripts.reverse) := by
  have hperm : twoScripts.Perm twoScripts.reverse := (List.reverse_perm _).symm
  refine ⟨hperm, distinct_twoScripts, by decide +kernel, ?_⟩
  exact (agree_of_outcomes Html.fragment hperm distinct_twoScripts).2 _ _
    (outcome_iff.mpr ⟨.asFound, rfl⟩) (outcome_iff.mpr ⟨.asFound, rfl⟩)

end Site

end ScriptDocs
