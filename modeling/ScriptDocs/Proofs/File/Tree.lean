import ScriptDocs.File.Tree
import ScriptDocs.Proofs.File.Walk
import ScriptDocs.Proofs.Produced
import ScriptDocs.Proofs.Text.Utf8

/-!
# The scripts of a tree

A scan goes by paths: it joins names to the path of the directory, takes the endings of the joined
paths, opens them, and files what it reads under what the one path is relative to the other.  None
of this depends on how the path is spelled.  The key of a script is made of the names on the way
down to it, hence no two scripts have one key and none takes the place of another.

* `found_eq`: the files that are found, by the ways down to them.
* `foldlM_readInto`: reading scripts that have different keys.
* `scan_scripts`: what a scan gives, and when it gives something.
-/

namespace ScriptDocs.ScriptTree

open FileStore (IsTree filesBelow)
open ScriptDocs.Path (IsName spelled)

variable {s : FileStore} {root : Place} {path : Text}

/-! ### What is found -/

theorem isName_of_mem_filesBelow (hs : s.IsTree) (hroot : s.isDirectory root = true) {rest : Place}
    (hrest : rest ∈ filesBelow s root) : ∀ name ∈ rest, IsName name := by
  obtain ⟨-, content, hf⟩ := (FileStore.mem_filesBelow hroot).mp hrest
  intro name hname
  exact hs.names _ (List.mem_append_left _ (List.mem_map_of_mem hf)) name
    (List.mem_append_right _ hname)

/-- **The files found are those at the ends of the ways down**, with the names on the way as their
keys. -/
theorem found_eq (hs : s.IsTree) (hpath : s.locate? path = some root)
    (hroot : s.isDirectory root = true) :
    found s path =
      (filesBelow s root).map fun rest => ⟨List.intercalate ['/'] rest, spelled path rest⟩ := by
  obtain ⟨hne, hnormal⟩ := FileStore.normal_of_locate? hpath
  have hkey : ∀ rest ∈ filesBelow s root,
      Path.relative s.home (spelled path rest) path = List.intercalate ['/'] rest := by
    intro rest hrest
    have hnames := isName_of_mem_filesBelow hs hroot hrest
    exact Path.relative_eq ((FileStore.mem_filesBelow hroot).mp hrest).1 hnames
      (Path.normal_spelled hnames hne s.home)
  have hfound : found s path = (filesBelow s root).map fun rest =>
      ⟨Path.relative s.home (spelled path rest) path, spelled path rest⟩ := by
    rw [found, FileStore.walkAll, FileStore.walk_eq hs hpath hroot, filesBelow, List.map_flatMap,
      List.flatMap_map]
    simp only [List.map_map, Function.comp_def, Path.spelled_concat]
  rw [hfound]
  apply List.map_congr_left
  intro rest hrest
  rw [hkey rest hrest]

/-- The ways from a directory down to the scripts below it. -/
def scriptsBelow (s : FileStore) (root : Place) : List Place :=
  (filesBelow s root).filter fun rest => Path.extension (rest.getLastD []) = ".js".toList

theorem foundScripts_eq (hs : s.IsTree) (hpath : s.locate? path = some root)
    (hroot : s.isDirectory root = true) :
    foundScripts s path =
      (scriptsBelow s root).map fun rest => ⟨List.intercalate ['/'] rest, spelled path rest⟩ := by
  have hne := (FileStore.normal_of_locate? hpath).1
  rw [foundScripts, found_eq hs hpath hroot, List.filter_map, scriptsBelow]
  congr 1
  apply List.filter_congr
  intro rest hrest
  have hnames := isName_of_mem_filesBelow hs hroot hrest
  obtain ⟨dir, name, rfl⟩ :=
    (List.eq_nil_or_concat' rest).resolve_left ((FileStore.mem_filesBelow hroot).mp hrest).1
  have hdir := Path.spelled_ne_nil (fun n hn => hnames n (List.mem_append_left _ hn)) hne
  rw [Function.comp_apply, Path.spelled_concat, Path.extension_join (hnames name (by simp)) hdir,
    List.getLastD_concat]

/-- No two scripts have one key. -/
theorem nodup_keys (hs : s.IsTree) (hroot : s.isDirectory root = true) :
    ((scriptsBelow s root).map (List.intercalate ['/'])).Nodup := by
  have hsub : ∀ rest ∈ scriptsBelow s root, rest ∈ filesBelow s root :=
    fun rest hrest => (List.mem_filter.mp hrest).1
  refine ((hs.nodup_filesBelow root).filter _).map_on ?_
  intro a ha b hb hab
  have ha := hsub a ha
  have hb := hsub b hb
  exact Path.intercalate_injective (isName_of_mem_filesBelow hs hroot ha)
    (isName_of_mem_filesBelow hs hroot hb) ((FileStore.mem_filesBelow hroot).mp ha).1
    ((FileStore.mem_filesBelow hroot).mp hb).1 hab

/-! ### What is read -/

theorem contentAt?_of_mem (hs : s.IsTree) {p : Place} {content : List UInt8}
    (h : (p, content) ∈ s.files) : s.contentAt? p = some content := by
  rw [FileStore.contentAt?]
  cases hfind : s.files.find? fun f => f.1 = p with
  | none => simpa using List.find?_eq_none.mp hfind _ h
  | some f =>
    have hplace : f.1 = p := by simpa using List.find?_some hfind
    rw [List.inj_on_of_nodup_map hs.unique (List.mem_of_find?_eq_some hfind) h hplace]
    rfl

theorem readText_spelled (hs : s.IsTree) (hpath : s.locate? path = some root) {rest : Place}
    (hne : rest ≠ []) {content : List UInt8} (h : (root ++ rest, content) ∈ s.files) :
    s.readText (spelled path rest) = FileStore.textOf content := by
  obtain ⟨dir, name, rfl⟩ := (List.eq_nil_or_concat' rest).resolve_left hne
  have hcontent := contentAt?_of_mem hs h
  have hplace : root ++ (dir ++ [name]) ∈ s.places :=
    List.mem_append_left _ (List.mem_map_of_mem h)
  have hname : IsName name := hs.names _ hplace name (by simp)
  rw [← List.append_assoc] at h hcontent
  have hdir := FileStore.isDirectory_above h
  have hlocate := FileStore.locate?_join (FileStore.locate?_spelled hs hpath hdir) hdir hname
  rw [FileStore.readText, FileStore.read?, Path.spelled_concat, hlocate, Option.bind_some, hcontent]

theorem textOf_eq_ok_iff {content : List UInt8} {t : Text} :
    FileStore.textOf content = .ok t ↔ ∃ u, content = Utf8.encode u ∧ t = Text.unixBreaks u := by
  rw [← Utf8.fileText_eq_ok_iff, FileStore.textOf]
  cases Utf8.fileText content with
  | error f => simp
  | ok u => simp

/-! ### What is filed -/

def entryOf (s : FileStore) (f : Found) : Except Fault Entry :=
  (s.readText f.path).map (Entry.mk f.key)

theorem setEntry_of_notMem {e : Entry} {es : List Entry} (h : e.path ∉ es.map (·.path)) :
    setEntry e es = es ++ [e] := by
  induction es with
  | nil => rfl
  | cons first es ih =>
    rw [List.map_cons, List.mem_cons, not_or] at h
    rw [setEntry, if_neg (Ne.symm h.1), ih h.2, List.cons_append]

/-- Scripts that have different keys are filed one behind the other. -/
theorem foldlM_readInto (s : FileStore) {fs : List Found} {l : Listing}
    (h : (l.entries.map (·.path) ++ fs.map (·.key)).Nodup) :
    fs.foldlM (readInto s) l = (fs.mapM (entryOf s)).map fun es =>
      ⟨l.entries ++ es, l.notes ++ es.map fun e => .info ("Reading file: ".toList ++ e.path)⟩ := by
  induction fs generalizing l with
  | nil => simp [Except.map, pure, Except.pure]
  | cons f fs ih =>
    rw [List.foldlM_cons, List.mapM_cons]
    cases ht : s.readText f.path with
    | error e => simp [readInto, entryOf, ht, Except.map, bind, Except.bind]
    | ok t =>
      have hnew : f.key ∉ l.entries.map (·.path) := by
        intro hmem
        exact (List.nodup_append.mp h).2.2 _ hmem _ List.mem_cons_self rfl
      have hread : readInto s l f = .ok ⟨l.entries ++ [⟨f.key, t⟩],
          l.notes ++ [.info ("Reading file: ".toList ++ f.key)]⟩ := by
        rw [readInto, ht, Except.map, setEntry_of_notMem hnew]
      have hentry : entryOf s f = .ok ⟨f.key, t⟩ := by rw [entryOf, ht, Except.map]
      rw [hread, hentry]
      show fs.foldlM (readInto s) _ = _
      rw [ih (by simpa using h)]
      cases fs.mapM (entryOf s) with
      | error e => rfl
      | ok es => simp [Except.map, bind, Except.bind, pure, Except.pure]

theorem scan_eq (hs : s.IsTree) (hpath : s.locate? path = some root)
    (hroot : s.isDirectory root = true) :
    scan s path = ((foundScripts s path).mapM (entryOf s)).map fun es =>
      ⟨es, es.map fun e => .info ("Reading file: ".toList ++ e.path)⟩ := by
  have hkeys : ((foundScripts s path).map (·.key)).Nodup := by
    rw [foundScripts_eq hs hpath hroot, List.map_map]
    exact nodup_keys hs hroot
  rw [scan, foldlM_readInto s (by simpa using hkeys)]
  simp only [List.nil_append]

/-! ### The scripts among the files of a store -/

/-- The scripts at any depth below a place, with their contents. -/
def scriptFiles (s : FileStore) (root : Place) : List (Place × List UInt8) :=
  s.files.filter fun f =>
    root.isPrefixOf f.1 && Path.extension (f.1.getLastD []) = ".js".toList

/-- The names between a place and a file below it, with slashes between them. -/
def keyOf (root : Place) (f : Place × List UInt8) : Text :=
  List.intercalate ['/'] (f.1.drop root.length)

theorem mem_scriptFiles {f : Place × List UInt8} (hs : s.IsTree)
    (hroot : s.isDirectory root = true) :
    f ∈ scriptFiles s root ↔ f ∈ s.files ∧ ∃ dir name, f.1 = root ++ (dir ++ [name]) ∧
      Path.extension name = ".js".toList := by
  rw [scriptFiles, List.mem_filter, Bool.and_eq_true, List.isPrefixOf_iff_prefix,
    decide_eq_true_eq, and_congr_right_iff]
  intro hf
  constructor
  · rintro ⟨⟨rest, hrest⟩, hext⟩
    have hne : rest ≠ [] := by
      rintro rfl
      have hfile := hs.apart f hf
      rw [← hrest, List.append_nil, hroot] at hfile
      exact nomatch hfile
    obtain ⟨dir, name, rfl⟩ := (List.eq_nil_or_concat' rest).resolve_left hne
    rw [← hrest, ← List.append_assoc, List.getLastD_concat] at hext
    exact ⟨dir, name, hrest.symm, hext⟩
  · rintro ⟨dir, name, hplace, hext⟩
    rw [hplace]
    refine ⟨List.prefix_append _ _, ?_⟩
    rw [← List.append_assoc, List.getLastD_concat, hext]

theorem mem_scriptFiles_iff {f : Place × List UInt8} (hs : s.IsTree)
    (hroot : s.isDirectory root = true) :
    f ∈ scriptFiles s root ↔ f ∈ s.files ∧ ∃ dir stem,
      f.1 = root ++ (dir ++ [stem ++ ".js".toList]) ∧ ∃ c ∈ stem, c ≠ '.' := by
  rw [mem_scriptFiles hs hroot, and_congr_right_iff]
  intro hf
  have hnames := hs.names f.1 (List.mem_append_left _ (List.mem_map_of_mem hf))
  have hjs : '.' ∉ "js".toList := by decide
  constructor
  · rintro ⟨dir, name, hplace, hext⟩
    have hname : IsName name := hnames name (by rw [hplace]; simp)
    obtain ⟨stem, rfl, hstem⟩ := (Path.extension_eq_iff hname hjs).mp hext
    exact ⟨dir, stem, hplace, hstem⟩
  · rintro ⟨dir, stem, hplace, hstem⟩
    have hname : IsName (stem ++ ".js".toList) := hnames _ (by rw [hplace]; simp)
    exact ⟨dir, _, hplace, (Path.extension_eq_iff hname hjs).mpr ⟨stem, rfl, hstem⟩⟩

theorem mem_scriptsBelow (hs : s.IsTree) (hroot : s.isDirectory root = true) {rest : Place} :
    rest ∈ scriptsBelow s root ↔ ∃ content, (root ++ rest, content) ∈ scriptFiles s root := by
  rw [scriptsBelow, List.mem_filter, decide_eq_true_eq, FileStore.mem_filesBelow hroot]
  simp only [mem_scriptFiles hs hroot, List.append_cancel_left_eq]
  constructor
  · rintro ⟨⟨hne, content, hf⟩, hext⟩
    obtain ⟨dir, name, rfl⟩ := (List.eq_nil_or_concat' rest).resolve_left hne
    rw [List.getLastD_concat] at hext
    exact ⟨content, hf, dir, name, rfl, hext⟩
  · rintro ⟨content, hf, dir, name, rfl, hext⟩
    rw [List.getLastD_concat]
    exact ⟨⟨by simp, content, hf⟩, hext⟩

theorem append_drop_of_mem {f : Place × List UInt8} (hf : f ∈ scriptFiles s root) :
    root ++ f.1.drop root.length = f.1 := by
  have hprefix := (Bool.and_eq_true_iff.mp (List.mem_filter.mp hf).2).1
  exact (List.prefix_iff_eq_append.mp (List.isPrefixOf_iff_prefix.mp hprefix))

theorem perm_scriptsBelow (hs : s.IsTree) (hroot : s.isDirectory root = true) :
    (scriptsBelow s root).Perm ((scriptFiles s root).map fun f => f.1.drop root.length) := by
  have hleft : (scriptsBelow s root).Nodup := (hs.nodup_filesBelow root).filter _
  have hright : ((scriptFiles s root).map fun f => f.1.drop root.length).Nodup := by
    refine ((List.Nodup.of_map _ hs.unique).filter _).map_on ?_
    intro f hf g hg hfg
    have hplace : f.1 = g.1 := by rw [← append_drop_of_mem hf, hfg, append_drop_of_mem hg]
    exact List.inj_on_of_nodup_map hs.unique (List.mem_filter.mp hf).1 (List.mem_filter.mp hg).1
      hplace
  rw [List.perm_ext_iff_of_nodup hleft hright]
  intro rest
  rw [mem_scriptsBelow hs hroot, List.mem_map]
  constructor
  · rintro ⟨content, hf⟩
    exact ⟨_, hf, List.drop_left⟩
  · rintro ⟨f, hf, rfl⟩
    refine ⟨f.2, ?_⟩
    rw [append_drop_of_mem hf]
    exact hf

/-- What a scan finds is what the store has: under each key, the file that is read is the one to
which the key belongs. -/
theorem mem_foundScripts (hs : s.IsTree) (hpath : s.locate? path = some root)
    (hroot : s.isDirectory root = true) {g : Found} :
    g ∈ foundScripts s path ↔
      ∃ f ∈ scriptFiles s root, g = ⟨keyOf root f, spelled path (f.1.drop root.length)⟩ := by
  rw [foundScripts_eq hs hpath hroot, List.mem_map]
  simp only [(perm_scriptsBelow hs hroot).mem_iff, List.mem_map]
  constructor
  · rintro ⟨-, ⟨f, hf, rfl⟩, rfl⟩
    exact ⟨f, hf, rfl⟩
  · rintro ⟨f, hf, rfl⟩
    exact ⟨_, ⟨f, hf, rfl⟩, rfl⟩

theorem entryOf_eq_ok_iff (hs : s.IsTree) (hpath : s.locate? path = some root)
    (hroot : s.isDirectory root = true) {f : Place × List UInt8} (hf : f ∈ scriptFiles s root)
    {e : Entry} :
    entryOf s ⟨keyOf root f, spelled path (f.1.drop root.length)⟩ = .ok e ↔
      ∃ t, f.2 = Utf8.encode t ∧ e = ⟨keyOf root f, Text.unixBreaks t⟩ := by
  obtain ⟨hmem, dir, name, hplace, -⟩ := (mem_scriptFiles hs hroot).mp hf
  have hne : f.1.drop root.length ≠ [] := by
    rw [hplace, List.drop_left]
    simp
  have hfile : (root ++ f.1.drop root.length, f.2) ∈ s.files := by
    rw [append_drop_of_mem hf]
    exact hmem
  rw [entryOf, readText_spelled hs hpath hne hfile, map_eq_ok_iff]
  simp only [textOf_eq_ok_iff]
  constructor
  · rintro ⟨-, ⟨t, ht, rfl⟩, rfl⟩
    exact ⟨t, ht, rfl⟩
  · rintro ⟨t, ht, rfl⟩
    exact ⟨_, ⟨t, ht, rfl⟩, rfl⟩

theorem exists_scan_iff (hs : s.IsTree) (hpath : s.locate? path = some root)
    (hroot : s.isDirectory root = true) :
    (∃ l, scan s path = .ok l) ↔ ∀ f ∈ scriptFiles s root, ∃ t, f.2 = Utf8.encode t := by
  have hread : (∃ l, scan s path = .ok l) ↔
      ∃ es, (foundScripts s path).mapM (entryOf s) = .ok es := by
    rw [scan_eq hs hpath hroot]
    simp only [map_eq_ok_iff]
    exact ⟨fun ⟨_, es, hes, _⟩ => ⟨es, hes⟩, fun ⟨es, hes⟩ => ⟨_, es, hes, rfl⟩⟩
  rw [hread, exists_mapM_iff]
  constructor
  · intro h f hf
    obtain ⟨e, he⟩ := h _ ((mem_foundScripts hs hpath hroot).mpr ⟨f, hf, rfl⟩)
    obtain ⟨t, ht, -⟩ := (entryOf_eq_ok_iff hs hpath hroot hf).mp he
    exact ⟨t, ht⟩
  · intro h g hg
    obtain ⟨f, hf, rfl⟩ := (mem_foundScripts hs hpath hroot).mp hg
    obtain ⟨t, ht⟩ := h f hf
    exact ⟨_, (entryOf_eq_ok_iff hs hpath hroot hf).mpr ⟨t, ht, rfl⟩⟩

theorem map_path_of_scan (hs : s.IsTree) (hpath : s.locate? path = some root)
    (hroot : s.isDirectory root = true) {l : Listing} (h : scan s path = .ok l) :
    l.entries.map (·.path) = (scriptsBelow s root).map (List.intercalate ['/']) := by
  rw [scan_eq hs hpath hroot, map_eq_ok_iff] at h
  obtain ⟨es, hes, rfl⟩ := h
  have hkey : ∀ g e, entryOf s g = .ok e → e.path = g.key := by
    intro g e he
    obtain ⟨t, -, rfl⟩ := map_eq_ok_iff.mp he
    rfl
  rw [Produced.map_eq_of_map_ok hkey ((mapM_eq_ok_iff _ _ _).mp hes),
    foundScripts_eq hs hpath hroot, List.map_map]
  rfl

theorem mem_entries_of_scan (hs : s.IsTree) (hpath : s.locate? path = some root)
    (hroot : s.isDirectory root = true) {l : Listing} (h : scan s path = .ok l)
    {f : Place × List UInt8} (hf : f ∈ scriptFiles s root) :
    ∃ t, f.2 = Utf8.encode t ∧ ⟨keyOf root f, Text.unixBreaks t⟩ ∈ l.entries := by
  rw [scan_eq hs hpath hroot, map_eq_ok_iff] at h
  obtain ⟨es, hes, rfl⟩ := h
  have hfound := (mem_foundScripts hs hpath hroot).mpr ⟨f, hf, rfl⟩
  obtain ⟨e, he⟩ := exists_of_mapM hes hfound
  have hmem := (mem_of_mapM hes).mpr ⟨_, hfound, he⟩
  obtain ⟨t, ht, rfl⟩ := (entryOf_eq_ok_iff hs hpath hroot hf).mp he
  exact ⟨t, ht, hmem⟩

/-- **A scan files every script below a directory, and nothing else**, by whatever path it comes to
the directory.  A script is a file with more than dots before its ending.  If all of them hold
texts, each has one entry, under the names on the way down to it; if one of them does not, there is
no listing. -/
theorem scan_scripts (hs : s.IsTree) (hpath : s.locate? path = some root)
    (hroot : s.isDirectory root = true) :
    (∀ f, f ∈ scriptFiles s root ↔ f ∈ s.files ∧ ∃ dir stem,
      f.1 = root ++ (dir ++ [stem ++ ".js".toList]) ∧ ∃ c ∈ stem, c ≠ '.') ∧
    ((∃ l, scan s path = .ok l) ↔ ∀ f ∈ scriptFiles s root, ∃ t, f.2 = Utf8.encode t) ∧
    ∀ l, scan s path = .ok l →
      (l.entries.map (·.path)).Nodup ∧
      (l.entries.map (·.path)).Perm ((scriptFiles s root).map (keyOf root)) ∧
      ∀ f ∈ scriptFiles s root, ∃ t, f.2 = Utf8.encode t ∧
        ⟨keyOf root f, Text.unixBreaks t⟩ ∈ l.entries := by
  refine ⟨fun f => mem_scriptFiles_iff hs hroot, exists_scan_iff hs hpath hroot, ?_⟩
  intro l hl
  rw [map_path_of_scan hs hpath hroot hl]
  refine ⟨nodup_keys hs hroot, ?_, fun f hf => mem_entries_of_scan hs hpath hroot hl hf⟩
  have hperm := (perm_scriptsBelow hs hroot).map (List.intercalate ['/'])
  rw [List.map_map] at hperm
  exact hperm

/-- Two scripts below `lib`.  What else is there holds no text: a file named by its ending, one with
another ending, and a script of a directory whose name begins with that of `lib`. -/
def scattered : FileStore where
  files := [
    (["home".toList, "lib".toList, "a.js".toList], Utf8.encode "a\r\nb".toList),
    (["home".toList, "lib".toList, "sub".toList, "c.js".toList], Utf8.encode "é".toList),
    (["home".toList, "lib".toList, "sub".toList, ".js".toList], [0xFF]),
    (["home".toList, "lib".toList, "notes.txt".toList], [0xFF]),
    (["home".toList, "library".toList, "d.js".toList], [0xFF])]
  directories := [["home".toList, "lib".toList, "none".toList]]
  home := ["home".toList]

theorem scan_scripts_scattered :
    scattered.IsTree ∧ scattered.locate? "/home/./lib/sub/..//".toList =
        some ["home".toList, "lib".toList] ∧
      scattered.isDirectory ["home".toList, "lib".toList] = true ∧
      ∃ l, scan scattered "/home/./lib/sub/..//".toList = .ok l ∧
        (l.entries.map (·.path)).Perm ["a.js".toList, "sub/c.js".toList] ∧
        ⟨"a.js".toList, "a\nb".toList⟩ ∈ l.entries := by
  have hs : scattered.IsTree := by decide
  have hpath : scattered.locate? "/home/./lib/sub/..//".toList =
      some ["home".toList, "lib".toList] := by decide
  have hroot : scattered.isDirectory ["home".toList, "lib".toList] = true := by decide
  have hfiles : scriptFiles scattered ["home".toList, "lib".toList] =
      [(["home".toList, "lib".toList, "a.js".toList], Utf8.encode "a\r\nb".toList),
        (["home".toList, "lib".toList, "sub".toList, "c.js".toList], Utf8.encode "é".toList)] := by
    decide
  obtain ⟨-, hsuccess, hlisting⟩ := scan_scripts hs hpath hroot
  rw [hfiles] at hsuccess hlisting
  obtain ⟨l, hl⟩ := hsuccess.mpr (by simp)
  obtain ⟨-, hkeys, hentries⟩ := hlisting l hl
  obtain ⟨t, ht, hmem⟩ := hentries _ List.mem_cons_self
  have htext : Except.ok "a\r\nb".toList = Except.ok t :=
    (Utf8.decode_eq_ok_iff.mpr rfl).symm.trans (Utf8.decode_eq_ok_iff.mpr ht)
  obtain rfl := Except.ok.inj htext
  exact ⟨hs, hpath, hroot, l, hl, hkeys, hmem⟩

end ScriptDocs.ScriptTree
