import Mathlib.Data.List.MinMax
import Mathlib.Data.List.Nodup
import ScriptDocs.Proofs.File.Path
import ScriptDocs.Proofs.File.Store

/-!
# What a walk comes to

A walk goes by paths, and asks at each of them anew where it leads.  What it comes to can be told
without paths: the ways down from the directory where it starts, as lists of names.  Every directory
below is at the end of exactly one of them, and no way is longer than the depth of the store.

* `IsTree`: what the files of a store have to be like.
* `locate?_spelled`: names joined to a path lead down from where it leads.
* `walk_eq`: a walk, as the ways down.
* `mem_filesBelow`, `nodup_filesBelow`: the files to which they lead, each of them once.
-/

namespace ScriptDocs.FileStore

open ScriptDocs.Path (IsName spelled)

/-- A store whose places are lists of names, with one file at most at each of them and none where a
directory is. -/
structure IsTree (s : FileStore) : Prop where
  names : ∀ p ∈ s.places, ∀ name ∈ p, IsName name
  unique : (s.files.map (·.1)).Nodup
  apart : ∀ f ∈ s.files, s.isDirectory f.1 = false

instance (s : FileStore) : Decidable s.IsTree :=
  decidable_of_iff ((∀ p ∈ s.places, ∀ name ∈ p, IsName name) ∧ (s.files.map (·.1)).Nodup ∧
      ∀ f ∈ s.files, s.isDirectory f.1 = false)
    ⟨fun h => ⟨h.1, h.2.1, h.2.2⟩, fun h => ⟨h.1, h.2, h.3⟩⟩

variable {s : FileStore} {p : Place} {path name : Text}

/-- Above or at a place of a tree there is nothing but names. -/
theorem IsTree.isName_of_prefix (hs : s.IsTree) {q : Place} (hq : q ∈ s.places) (hp : p <+: q) :
    ∀ name ∈ p, IsName name :=
  fun name hname => hs.names q hq name (hp.subset hname)

theorem exists_place_of_isDirectory (hp : s.isDirectory p = true) (hne : p ≠ []) :
    ∃ q ∈ s.places, p <+: q := by
  rcases isDirectory_iff.mp hp with rfl | ⟨f, hf, hpre, -⟩ | ⟨d, hd, hpre⟩
  · exact absurd rfl hne
  · exact ⟨f.1, List.mem_append_left _ (List.mem_map_of_mem hf), hpre⟩
  · exact ⟨d, List.mem_append_right _ hd, hpre⟩

theorem IsTree.isName_of_isDirectory (hs : s.IsTree) (hp : s.isDirectory p = true) :
    ∀ name ∈ p, IsName name := by
  by_cases hne : p = []
  · simp [hne]
  · obtain ⟨q, hq, hpre⟩ := exists_place_of_isDirectory hp hne
    exact hs.isName_of_prefix hq hpre

/-! ### Where paths lead -/

theorem step_eq_some {q : Place} :
    s.step p name = some q ↔ s.isDirectory p = true ∧ Path.follow p name = q := by
  rw [step, Option.ite_none_right_eq_some, Option.some.injEq]

theorem foldl_of_foldlM {names : List Text} {q : Place} (h : names.foldlM s.step p = some q) :
    names.foldl Path.follow p = q := by
  induction names generalizing p with
  | nil => exact Option.some.inj h
  | cons name names ih =>
    rw [List.foldlM_cons] at h
    obtain ⟨r, hr, hrest⟩ := Option.bind_eq_some_iff.mp h
    rw [List.foldl_cons, (step_eq_some.mp hr).2]
    exact ih hrest

/-- A path that leads to a place spells it. -/
theorem normal_of_locate? (h : s.locate? path = some p) :
    path ≠ [] ∧ Path.normal s.home path = p := by
  rw [locate?, Option.ite_none_left_eq_some] at h
  exact ⟨by simpa using h.1, foldl_of_foldlM h.2⟩

theorem foldlM_concat {names : List Text} {q : Place} :
    (names ++ [name]).foldlM s.step p = some q ↔
      ∃ r, names.foldlM s.step p = some r ∧ s.isDirectory r = true ∧ Path.follow r name = q := by
  simp only [List.foldlM_append, List.foldlM_cons, List.foldlM_nil, bind_pure,
    Option.bind_eq_bind, Option.bind_eq_some_iff, step_eq_some]

theorem locate?_join (h : s.locate? path = some p) (hp : s.isDirectory p = true)
    (hname : IsName name) : s.locate? (Path.join path name) = some (p ++ [name]) := by
  have hpath := (normal_of_locate? h).1
  obtain ⟨front, hjoin, hfront⟩ := Path.exists_fields_join hname hpath
  have hlead : front.foldlM s.step (Path.origin s.home path) = some p := by
    rw [locate?, Option.ite_none_left_eq_some] at h
    rcases hfront with hfront | hfront
    · rw [← hfront, h.2]
    · -- the empty field behind a last slash stays where it is
      rw [hfront, foldlM_concat] at h
      obtain ⟨-, q, hq, -, rfl⟩ := h
      exact hq
  rw [locate?, if_neg (by simpa using Path.join_ne_nil hname path), Path.origin_join hname hpath,
    hjoin, foldlM_concat]
  exact ⟨p, hlead, hp, Path.follow_name hname p⟩

/-- **Names joined to a path lead down from where it leads.** -/
theorem locate?_spelled (hs : s.IsTree) (h : s.locate? path = some p) {dir : Place}
    (hdir : s.isDirectory (p ++ dir) = true) : s.locate? (spelled path dir) = some (p ++ dir) := by
  induction dir using List.reverseRecOn with
  | nil => rw [List.append_nil]; exact h
  | append_singleton dir name ih =>
    rw [← List.append_assoc] at hdir ⊢
    have habove := isDirectory_of_prefix hdir (List.prefix_append _ _)
    rw [Path.spelled_concat]
    exact locate?_join (ih habove) habove (hs.isName_of_isDirectory hdir name (by simp))

/-! ### What is in a directory -/

theorem mem_fileNames : name ∈ s.fileNames p ↔ ∃ content, (p ++ [name], content) ∈ s.files := by
  rw [fileNames, List.mem_mergeSort, List.mem_filterMap]
  constructor
  · rintro ⟨f, hf, hname⟩
    split at hname
    · next last hpre =>
      obtain rfl := Option.some.inj hname
      rw [List.isPrefixOf?_eq_some_iff_append_eq] at hpre
      exact ⟨f.2, hpre ▸ hf⟩
    · exact nomatch hname
  · rintro ⟨content, hf⟩
    refine ⟨_, hf, ?_⟩
    rw [List.isPrefixOf?_eq_some_iff_append_eq.mpr rfl]

theorem IsTree.nodup_fileNames (hs : s.IsTree) (p : Place) : (s.fileNames p).Nodup := by
  rw [fileNames, (List.mergeSort_perm _ _).nodup_iff, List.Nodup, List.pairwise_filterMap]
  refine (List.pairwise_map.mp hs.unique).imp ?_
  intro f g hne a ha b hb hab
  subst hab
  -- one name would be that of two files at one place
  split at ha
  · next hf =>
    split at hb
    · next hg =>
      obtain rfl := (Option.some.inj ha).trans (Option.some.inj hb).symm
      rw [List.isPrefixOf?_eq_some_iff_append_eq] at hf hg
      exact hne (hf.symm.trans hg)
    · exact nomatch hb
  · exact nomatch ha

theorem mem_directoryNames : name ∈ s.directoryNames p ↔ s.isDirectory (p ++ [name]) = true := by
  rw [directoryNames, Text.mem_sortedSet, List.mem_filter, and_iff_right_iff_imp,
    List.mem_filterMap]
  intro hdir
  obtain ⟨q, hq, rest, rfl⟩ := exists_place_of_isDirectory hdir (by simp)
  refine ⟨_, hq, ?_⟩
  rw [List.append_assoc, List.isPrefixOf?_eq_some_iff_append_eq.mpr rfl]
  rfl

theorem nodup_directoryNames (s : FileStore) (p : Place) : (s.directoryNames p).Nodup :=
  Text.nodup_sortedSet _

/-! ### Ways down -/

/-- The ways from a directory down to those at and below it, to a depth. -/
def waysDown (s : FileStore) : Nat → Place → List Place
  | 0, _ => []
  | depth + 1, p =>
    [] :: (s.directoryNames p).flatMap fun name => (s.waysDown depth (p ++ [name])).map (name :: ·)

/-- **A walk takes every way down**, and joins the names on it to the path where it starts. -/
theorem walk_eq (hs : s.IsTree) (hpath : s.locate? path = some p) (hp : s.isDirectory p = true)
    (depth : Nat) :
    s.walk depth path =
      (s.waysDown depth p).map fun dir => ⟨spelled path dir, s.fileNames (p ++ dir)⟩ := by
  induction depth generalizing path p with
  | zero => rfl
  | succ depth ih =>
    have hbelow : ∀ name ∈ s.directoryNames p, s.walk depth (Path.join path name) =
        ((s.waysDown depth (p ++ [name])).map (name :: ·)).map
          fun dir => ⟨spelled path dir, s.fileNames (p ++ dir)⟩ := by
      intro name hname
      have hdir := mem_directoryNames.mp hname
      have hisName := hs.isName_of_isDirectory hdir name (by simp)
      rw [ih (locate?_join hpath hp hisName) hdir, List.map_map]
      apply List.map_congr_left
      intro dir _
      rw [Function.comp_apply, ← List.append_cons]
      rfl
    simp only [walk, hpath, if_pos hp, waysDown, List.map_cons, List.append_nil, List.map_flatMap]
    rw [List.flatMap_def, List.flatMap_def, List.map_congr_left hbelow]
    rfl

theorem mem_waysDown (hp : s.isDirectory p = true) {depth : Nat} {dir : Place} :
    dir ∈ s.waysDown depth p ↔ dir.length < depth ∧ s.isDirectory (p ++ dir) = true := by
  induction depth generalizing p dir with
  | zero => simp [waysDown]
  | succ depth ih =>
    cases dir with
    | nil => simp [waysDown, hp]
    | cons name dir =>
      simp only [waysDown, List.mem_cons, List.cons_ne_nil, false_or, List.mem_flatMap,
        List.mem_map, List.cons.injEq, List.length_cons, Nat.add_lt_add_iff_right]
      rw [List.append_cons]
      constructor
      · rintro ⟨first, hfirst, rest, hrest, rfl, rfl⟩
        exact (ih (mem_directoryNames.mp hfirst)).mp hrest
      · rintro ⟨hlt, hdir⟩
        have hfirst := isDirectory_of_prefix hdir (List.prefix_append _ _)
        exact ⟨name, mem_directoryNames.mpr hfirst, dir, (ih hfirst).mpr ⟨hlt, hdir⟩, rfl, rfl⟩

theorem nodup_waysDown (s : FileStore) (depth : Nat) (p : Place) : (s.waysDown depth p).Nodup := by
  induction depth generalizing p with
  | zero => exact List.nodup_nil
  | succ depth ih =>
    rw [waysDown, List.nodup_cons, List.nodup_flatMap]
    refine ⟨by simp, ?_, ?_⟩
    · intro name _
      exact (ih _).map (fun a b hab => (List.cons.inj hab).2)
    · -- ways that begin with different names are different
      refine (nodup_directoryNames s p).imp ?_
      intro a b hab x hx hx'
      obtain ⟨y, -, rfl⟩ := List.mem_map.mp hx
      obtain ⟨z, -, hz⟩ := List.mem_map.mp hx'
      exact hab (List.cons.inj hz).1.symm

theorem length_le_depth (hp : s.isDirectory p = true) : p.length ≤ s.depth := by
  by_cases hne : p = []
  · simp [hne]
  · obtain ⟨q, hq, hpre⟩ := exists_place_of_isDirectory hp hne
    have hlength : q.length ∈ s.places.map List.length := List.mem_map_of_mem hq
    exact Nat.le_trans hpre.length_le (List.le_max_of_le' 0 hlength le_rfl)

/-! ### The files at their ends -/

/-- The ways from a directory down to the files at any depth below it. -/
def filesBelow (s : FileStore) (p : Place) : List Place :=
  (s.waysDown (s.depth + 1) p).flatMap fun dir =>
    (s.fileNames (p ++ dir)).map fun name => dir ++ [name]

theorem isDirectory_above {content : List UInt8} {dir : Place}
    (h : (dir ++ [name], content) ∈ s.files) : s.isDirectory dir = true :=
  isDirectory_iff.mpr (Or.inr (Or.inl ⟨_, h, List.prefix_append _ _, by simp⟩))

theorem mem_filesBelow (hp : s.isDirectory p = true) {rest : Place} :
    rest ∈ s.filesBelow p ↔ rest ≠ [] ∧ ∃ content, (p ++ rest, content) ∈ s.files := by
  simp only [filesBelow, List.mem_flatMap, List.mem_map, mem_fileNames, mem_waysDown hp]
  constructor
  · rintro ⟨dir, -, name, ⟨content, hf⟩, rfl⟩
    rw [List.append_assoc] at hf
    exact ⟨by simp, content, hf⟩
  · rintro ⟨hne, content, hf⟩
    obtain ⟨dir, name, rfl⟩ := List.eq_nil_or_concat' rest |>.resolve_left hne
    rw [← List.append_assoc] at hf
    have hdir := isDirectory_above hf
    have hlength := length_le_depth hdir
    rw [List.length_append] at hlength
    exact ⟨dir, ⟨by omega, hdir⟩, name, ⟨content, hf⟩, rfl⟩

theorem IsTree.nodup_filesBelow (hs : s.IsTree) (p : Place) : (s.filesBelow p).Nodup := by
  rw [filesBelow, List.nodup_flatMap]
  constructor
  · intro dir _
    exact (hs.nodup_fileNames _).map fun a b hab => by simpa using hab
  · refine (nodup_waysDown s _ p).imp ?_
    intro a b hab x hx hx'
    obtain ⟨m, -, rfl⟩ := List.mem_map.mp hx
    obtain ⟨n, -, hn⟩ := List.mem_map.mp hx'
    exact hab (List.append_inj_left' hn rfl).symm

end ScriptDocs.FileStore
