import ScriptDocs.Command.Run
import ScriptDocs.Proofs.File.Store
import ScriptDocs.Proofs.Site.Order

/-!
# What a run leaves behind

The archive is opened when all scripts are read, scanned and grouped, and the pages are made only
then, one by one, each written before the next is made.  So the faults of a run are of two kinds.
Those that come up before the archive is opened leave every file as it was.  The fault of a page
leaves an archive without an end, with the pages that were made before, and the old content is gone.

* `StopsEarly`, `BreaksOff`: the two kinds of faults.
* `run_cases`: there are no others.
* `files_after_fault`: the files after a run that fails.
-/

namespace ScriptDocs.Command

variable {parser : Html.Parser} {orders : Orders} {a : Access} {args : List Text} {o : Options}
  {site : Site} {f : Fault}

/-! ### The course of a run -/

/-- A run comes to know what it is asked for and the site to write. -/
structure Prepares (orders : Orders) (a : Access) (args : List Text) (o : Options) (site : Site) :
    Prop where
  options : Options.ofArguments args = .ok o
  scanned : ∃ scripts, readScripts a [] (o.paths.filter isDocumented) = .ok scripts ∧
    Site.ofScripts orders scripts = .ok site

/-- A run fails before it opens the archive, or because it cannot open it. -/
inductive StopsEarly (orders : Orders) (a : Access) (args : List Text) : Fault → Prop
  | arguments {f : Fault} (h : Options.ofArguments args = .error f) : StopsEarly orders a args f
  | reading {o : Options} {f : Fault} (ho : Options.ofArguments args = .ok o)
      (h : readScripts a [] (o.paths.filter isDocumented) = .error f) : StopsEarly orders a args f
  | scanning {o : Options} {scripts : List Script} {f : Fault}
      (ho : Options.ofArguments args = .ok o)
      (hread : readScripts a [] (o.paths.filter isDocumented) = .ok scripts)
      (h : Site.ofScripts orders scripts = .error f) : StopsEarly orders a args f
  | opening {o : Options} {site : Site} {f : Fault} (hsite : Prepares orders a args o site)
      (h : a.openFault? o.archive = some f) : StopsEarly orders a args f

/-- A run opens the archive and makes some pages, and the page of the next group fails. -/
inductive BreaksOff (parser : Html.Parser) (orders : Orders) (a : Access) (args : List Text) :
    Options → List PageFile → Fault → Prop
  | page {o : Options} {site : Site} {front behind : List Group} {g : Group}
      {made : List PageFile} {f : Fault} (hsite : Prepares orders a args o site)
      (hopen : a.openFault? o.archive = none) (hgroups : site.groups = front ++ g :: behind)
      (hfront : front.map (Group.page parser) = made.map Except.ok)
      (hg : g.page parser = .error f) : BreaksOff parser orders a args o made f

theorem run_of_prepares (parser : Html.Parser) (h : Prepares orders a args o site) :
    ∃ notes, run parser orders a args =
      (a.openFault? o.archive).elim (writePages parser notes o.archive site)
        fun f => ⟨notes, none, some f⟩ := by
  obtain ⟨scripts, hread, hsite⟩ := h.scanned
  rw [run, h.options]
  simp only [runWith, hread, hsite]
  cases a.openFault? o.archive with
  | none => exact ⟨_, rfl⟩
  | some f => exact ⟨_, rfl⟩

theorem run_of_stopsEarly (parser : Html.Parser) (h : StopsEarly orders a args f) :
    ∃ notes, run parser orders a args = ⟨notes, none, some f⟩ := by
  cases h with
  | arguments h => exact ⟨[], by rw [run, h]⟩
  | reading ho h =>
    rw [run, ho]
    simp only [runWith, h]
    exact ⟨_, rfl⟩
  | scanning ho hread h =>
    rw [run, ho]
    simp only [runWith, hread, h]
    exact ⟨_, rfl⟩
  | opening hsite h =>
    obtain ⟨notes, hrun⟩ := run_of_prepares parser hsite
    exact ⟨notes, by rw [hrun, h]; rfl⟩

theorem run_of_breaksOff {made : List PageFile} (h : BreaksOff parser orders a args o made f) :
    a.openFault? o.archive = none ∧ ∃ notes, run parser orders a args =
      ⟨notes, some (o.archive, Archive.unfinished (made.map entryOf)), some f⟩ := by
  obtain ⟨hsite, hopen, hgroups, hfront, hg⟩ := h
  obtain ⟨notes, hrun⟩ := run_of_prepares parser hsite
  refine ⟨hopen, ?_⟩
  rw [hrun, hopen, Option.elim_none, writePages, hgroups, pages_eq_through,
    Produced.through_of_fault hfront hg]
  exact ⟨_, rfl⟩

/-- A run that gets as far as the archive ends without a fault, or breaks off. -/
theorem breaksOff_of_fault (hsite : Prepares orders a args o site)
    (hopen : a.openFault? o.archive = none) (hf : (pages parser site.groups).fault? = some f) :
    BreaksOff parser orders a args o (pages parser site.groups).items f := by
  obtain ⟨front, rest, hgroups, hfront, hrest⟩ := upToFault_pages parser site.groups
  rcases hrest with ⟨-, hnone⟩ | ⟨g, behind, f', rfl, hg, hf'⟩
  · rw [hf] at hnone
    exact nomatch hnone
  · obtain rfl := Option.some.inj (hf.symm.trans hf')
    exact .page hsite hopen hgroups hfront hg

/-- **The faults of a run.** -/
theorem run_cases (parser : Html.Parser) (orders : Orders) (a : Access) (args : List Text) :
    (run parser orders a args).fault? = none ∨ (∃ f, StopsEarly orders a args f) ∨
      ∃ o made f, BreaksOff parser orders a args o made f := by
  cases ho : Options.ofArguments args with
  | error f => exact Or.inr (Or.inl ⟨f, .arguments ho⟩)
  | ok o =>
    cases hread : readScripts a [] (o.paths.filter isDocumented) with
    | error f => exact Or.inr (Or.inl ⟨f, .reading ho hread⟩)
    | ok scripts =>
      cases hsite : Site.ofScripts orders scripts with
      | error f => exact Or.inr (Or.inl ⟨f, .scanning ho hread hsite⟩)
      | ok site =>
        have hprepares : Prepares orders a args o site := ⟨ho, scripts, hread, hsite⟩
        cases hopen : a.openFault? o.archive with
        | some f => exact Or.inr (Or.inl ⟨f, .opening hprepares hopen⟩)
        | none =>
          cases hf : (pages parser site.groups).fault? with
          | some f => exact Or.inr (Or.inr ⟨o, _, f, breaksOff_of_fault hprepares hopen hf⟩)
          | none =>
            obtain ⟨notes, hrun⟩ := run_of_prepares parser hprepares
            left
            rw [hrun, hopen, Option.elim_none, writePages, hf]

theorem fault?_eq_some_iff :
    (run parser orders a args).fault? = some f ↔
      StopsEarly orders a args f ∨ ∃ o made, BreaksOff parser orders a args o made f := by
  constructor
  · intro h
    rcases run_cases parser orders a args with hnone | ⟨f', hearly⟩ | ⟨o, made, f', hbreaks⟩
    · rw [h] at hnone
      exact nomatch hnone
    · obtain ⟨notes, hrun⟩ := run_of_stopsEarly parser hearly
      rw [hrun] at h
      obtain rfl := Option.some.inj h
      exact Or.inl hearly
    · obtain ⟨-, notes, hrun⟩ := run_of_breaksOff hbreaks
      rw [hrun] at h
      obtain rfl := Option.some.inj h
      exact Or.inr ⟨o, made, hbreaks⟩
  · rintro (h | ⟨o, made, h⟩)
    · obtain ⟨notes, hrun⟩ := run_of_stopsEarly parser h
      rw [hrun]
    · obtain ⟨-, notes, hrun⟩ := run_of_breaksOff h
      rw [hrun]

/-! ### The files -/

/-- The files after a run that breaks off: those that were there, with one written. -/
theorem after_of_breaksOff {s : FileStore} {made : List PageFile}
    (h : BreaksOff parser orders s.access args o made f) :
    ∃ place, s.writePlace? o.archive = some place ∧
      s.after (run parser orders s.access args) =
        s.put place (Archive.unfinished (made.map entryOf)) := by
  obtain ⟨hopen, notes, hrun⟩ := run_of_breaksOff h
  obtain ⟨place, hplace⟩ := Option.isSome_iff_exists.mp (FileStore.isSome_writePlace? hopen)
  refine ⟨place, hplace, ?_⟩
  rw [hrun]
  simp only [FileStore.after, hplace]

/-- **The files after a run that fails.**  A run fails early, and then every file is as it was, or
it breaks off.  Then the archive holds the pages in front of the one that failed and has no end,
whatever it held before, and all that is not the archive is as it was.  This is so for every reader
of markup and every order of symbols. -/
theorem files_after_fault (parser : Html.Parser) (orders : Orders) (s : FileStore)
    (args : List Text) (f : Fault) :
    ((run parser orders s.access args).fault? = some f ↔
      StopsEarly orders s.access args f ∨
        ∃ o made, BreaksOff parser orders s.access args o made f) ∧
    (StopsEarly orders s.access args f → s.after (run parser orders s.access args) = s) ∧
    ∀ o made, BreaksOff parser orders s.access args o made f →
      (s.after (run parser orders s.access args)).read? o.archive =
        some (Archive.unfinished (made.map entryOf)) ∧
      ∀ path, s.locate? path ≠ s.locate? o.archive →
        (s.after (run parser orders s.access args)).read? path = s.read? path := by
  refine ⟨fault?_eq_some_iff, ?_, ?_⟩
  · intro h
    obtain ⟨notes, hrun⟩ := run_of_stopsEarly parser h
    rw [hrun]
    rfl
  · intro o made h
    obtain ⟨place, hplace, hafter⟩ := after_of_breaksOff h
    rw [hafter]
    refine ⟨FileStore.read?_put_self hplace _, ?_⟩
    intro path hpath
    rw [(FileStore.writePlace?_eq_some.mp hplace).1] at hpath
    exact FileStore.read?_put_of_ne hplace _ hpath

/-- Two scripts of which the second has a page that fails, and an archive. -/
def halfway : FileStore :=
  .ofList [
    ("a.js".toList, Utf8.encode "goog.provide('a');\n/**\n * A.\n */\na.x = 0;".toList),
    ("b.js".toList, Utf8.encode "goog.provide('b');\n/**\n * @param x\n */\nb.f = 0;".toList),
    ("out.tar".toList, Utf8.encode "old".toList)]

/-- An archive does not outlive a run that fails. -/
theorem archive_lost_after_fault :
    let r := run Html.fragment .asFound halfway.access
      (["--tar", "out.tar", "a.js", "b.js"].map String.toList)
    r.fault? = some (.unreadableFlag "x".toList) ∧
      (halfway.after r).read? "out.tar".toList ≠ halfway.read? "out.tar".toList := by
  decide +kernel

end ScriptDocs.Command
