import ScriptDocs.File.Path
import ScriptDocs.Proofs.Text

/-!
# Paths and the places they spell

A name joined to a path adds one name to the place that the path spells, whatever the path looks
like: it may begin at the top or not, end in slashes, stay where it is or go up and come back.  So
two paths that spell one place lead to the same places below it, and the way from the one to the
other is told by names alone.

* `normal_join`: a name joined to a path.
* `relative_eq`: the path from a place to one below it, as the names between them.
* `intercalate_injective`: no two lists of names are spelled the same.
* `extension_eq_iff`: what stands before an ending.
-/

namespace ScriptDocs.Path

/-- A text that can be the name of a file or a directory. -/
structure IsName (name : Text) : Prop where
  ne_nil : name ≠ []
  no_slash : '/' ∉ name
  ne_dot : name ≠ ".".toList
  ne_dots : name ≠ "..".toList

instance (name : Text) : Decidable (IsName name) :=
  decidable_of_iff (name ≠ [] ∧ '/' ∉ name ∧ name ≠ ".".toList ∧ name ≠ "..".toList)
    ⟨fun h => ⟨h.1, h.2.1, h.2.2.1, h.2.2.2⟩, fun h => ⟨h.1, h.2, h.3, h.4⟩⟩

variable {name path : Text}

theorem follow_name (h : IsName name) (p : Place) : follow p name = p ++ [name] := by
  simp only [follow, h.ne_nil, h.ne_dot, h.ne_dots, decide_false, Bool.or_false, Bool.false_eq_true,
    if_false]

theorem follow_nil (p : Place) : follow p [] = p := rfl

/-! ### Joining a name -/

theorem isAbsolute_name (h : IsName name) : isAbsolute name = false := by
  rw [isAbsolute, decide_eq_false_iff_not]
  intro hhead
  exact h.no_slash (List.mem_of_mem_head? hhead)

theorem join_name (h : IsName name) (path : Text) :
    join path name =
      if path.isEmpty || path.getLast? = some '/' then path ++ name else path ++ '/' :: name := by
  rw [join, isAbsolute_name h, if_neg Bool.false_ne_true]

theorem join_ne_nil (h : IsName name) (path : Text) : join path name ≠ [] := by
  rw [join_name h]
  split
  · simp [h.ne_nil]
  · simp

/-- A name joined to a path is its last field.  The fields before it are those of the path, but for
the empty one behind a slash at its end. -/
theorem exists_fields_join (h : IsName name) (hpath : path ≠ []) :
    ∃ front, Text.fields '/' (join path name) = front ++ [name] ∧
      (Text.fields '/' path = front ∨ Text.fields '/' path = front ++ [[]]) := by
  have hname : Text.fields '/' name = [name] := Text.fields_of_notMem h.no_slash
  rw [join_name h, List.isEmpty_eq_false_iff.mpr hpath, Bool.false_or]
  by_cases hlast : path.getLast? = some '/'
  · obtain ⟨front, rfl⟩ := List.getLast?_eq_some_iff.mp hlast
    refine ⟨Text.fields '/' front, ?_, Or.inr (Text.fields_append_cons '/' front [])⟩
    rw [if_pos (decide_eq_true hlast), List.append_assoc, List.singleton_append,
      Text.fields_append_cons, hname]
  · refine ⟨Text.fields '/' path, ?_, Or.inl rfl⟩
    rw [if_neg (by simpa using hlast), Text.fields_append_cons, hname]

theorem origin_join (h : IsName name) (hpath : path ≠ []) (home : Place) :
    origin home (join path name) = origin home path := by
  cases path with
  | nil => exact absurd rfl hpath
  | cons c cs =>
    rw [join_name h, List.isEmpty_cons, Bool.false_or]
    split <;> rfl

/-- **A name joined to a path leads one name further.** -/
theorem normal_join (h : IsName name) (hpath : path ≠ []) (home : Place) :
    normal home (join path name) = normal home path ++ [name] := by
  obtain ⟨front, hjoin, hfront⟩ := exists_fields_join h hpath
  have hnormal : normal home path = front.foldl follow (origin home path) := by
    rw [normal]
    rcases hfront with hfront | hfront
    · rw [hfront]
    · rw [hfront, List.foldl_append, List.foldl_cons, follow_nil, List.foldl_nil]
  rw [normal, origin_join h hpath, hjoin, List.foldl_append, ← hnormal, List.foldl_cons,
    follow_name h, List.foldl_nil]

/-! ### Joining names -/

/-- The path, with names joined to it one after the other. -/
def spelled (path : Text) (names : Place) : Text := names.foldl join path

theorem spelled_concat (path : Text) (names : Place) (name : Text) :
    spelled path (names ++ [name]) = join (spelled path names) name := by
  rw [spelled, List.foldl_append]
  rfl

theorem spelled_ne_nil {names : Place} (hnames : ∀ n ∈ names, IsName n) (hpath : path ≠ []) :
    spelled path names ≠ [] := by
  induction names using List.reverseRecOn with
  | nil => exact hpath
  | append_singleton names name _ =>
    rw [spelled_concat]
    exact join_ne_nil (hnames name (by simp)) _

theorem normal_spelled {names : Place} (hnames : ∀ n ∈ names, IsName n) (hpath : path ≠ [])
    (home : Place) : normal home (spelled path names) = normal home path ++ names := by
  induction names using List.reverseRecOn with
  | nil => exact (List.append_nil _).symm
  | append_singleton names name ih =>
    have hfront : ∀ n ∈ names, IsName n := fun n hn => hnames n (List.mem_append_left _ hn)
    rw [spelled_concat, normal_join (hnames name (by simp)) (spelled_ne_nil hfront hpath),
      ih hfront, List.append_assoc]

theorem intercalate_append_cons (sep a b : Text) (ts : List Text) :
    List.intercalate sep ((a ++ b) :: ts) = a ++ List.intercalate sep (b :: ts) := by
  cases ts with
  | nil => simp
  | cons t ts => simp [List.append_assoc]

theorem getLast?_name_ne (h : IsName name) (front : Text) :
    (front ++ name).getLast? ≠ some '/' := by
  intro hlast
  rw [List.getLast?_append_of_ne_nil _ h.ne_nil] at hlast
  exact h.no_slash (List.mem_of_getLast? hlast)

theorem spelled_eq_intercalate {names : Place} (hnames : ∀ n ∈ names, IsName n) (hpath : path ≠ [])
    (hlast : path.getLast? ≠ some '/') :
    spelled path names = List.intercalate ['/'] (path :: names) := by
  induction names generalizing path with
  | nil => exact List.intercalate_singleton.symm
  | cons name names ih =>
    have hname := hnames name List.mem_cons_self
    have hjoin : join path name = path ++ ['/'] ++ name := by
      rw [join_name hname, if_neg (by simp [hpath, hlast]), List.append_assoc]
      rfl
    rw [spelled, List.foldl_cons, hjoin, ← spelled,
      ih (fun n hn => hnames n (List.mem_cons_of_mem _ hn)) (by simp) (getLast?_name_ne hname _),
      List.intercalate_cons_of_ne_nil (List.cons_ne_nil _ _), intercalate_append_cons]

/-- Names joined to each other have slashes between them, and no others. -/
theorem spelled_nil {names : Place} (hnames : ∀ n ∈ names, IsName n) :
    spelled [] names = List.intercalate ['/'] names := by
  cases names with
  | nil => rfl
  | cons name names =>
    have hname := hnames name List.mem_cons_self
    have hjoin : join [] name = name := by
      rw [join_name hname]
      rfl
    rw [spelled, List.foldl_cons, hjoin]
    exact spelled_eq_intercalate (fun n hn => hnames n (List.mem_cons_of_mem _ hn)) hname.ne_nil
      (getLast?_name_ne hname [])

/-- **No two lists of names are spelled the same.** -/
theorem intercalate_injective {as bs : Place} (has : ∀ n ∈ as, IsName n) (hbs : ∀ n ∈ bs, IsName n)
    (ha : as ≠ []) (hb : bs ≠ []) (h : List.intercalate ['/'] as = List.intercalate ['/'] bs) :
    as = bs := by
  rw [← Text.fields_intercalate (fun n hn => (has n hn).no_slash) ha, h,
    Text.fields_intercalate (fun n hn => (hbs n hn).no_slash) hb]

/-! ### From one place to another -/

theorem shared_append (base rest : Place) : shared (base ++ rest) base = base.length := by
  induction base with
  | nil => cases rest <;> rfl
  | cons name base ih => rw [List.cons_append, shared, if_pos rfl, ih, List.length_cons]

/-- **The path from a place to one below it is spelled by the names between them**, however the
two are spelled. -/
theorem relative_eq {home : Place} {start : Text} {rest : Place} (hrest : rest ≠ [])
    (hnames : ∀ n ∈ rest, IsName n) (h : normal home path = normal home start ++ rest) :
    relative home path start = List.intercalate ['/'] rest := by
  have hup : (normal home start).length - shared (normal home path) (normal home start) = 0 := by
    rw [h, shared_append, Nat.sub_self]
  have hdown : (normal home path).drop (shared (normal home path) (normal home start)) = rest := by
    rw [h, shared_append, List.drop_left]
  simp only [relative, hup, hdown, List.replicate_zero, List.nil_append]
  rw [if_neg (by simpa using hrest)]
  exact spelled_nil hnames

/-! ### Endings -/

theorem fileName_join (h : IsName name) (hpath : path ≠ []) : fileName (join path name) = name := by
  obtain ⟨front, hjoin, -⟩ := exists_fields_join h hpath
  rw [fileName, hjoin, List.getLastD_concat]

theorem fileName_name (h : IsName name) : fileName name = name := by
  rw [fileName, Text.fields_of_notMem h.no_slash]
  rfl

theorem extension_join (h : IsName name) (hpath : path ≠ []) :
    extension (join path name) = extension name := by
  rw [extension, extension, fileName_join h hpath, fileName_name h]

theorem fields_getLastD_append (a : Text) {ending : Text} (h : '.' ∉ ending) :
    (Text.fields '.' (a ++ '.' :: ending)).getLastD [] = ending := by
  rw [Text.fields_append_cons, Text.fields_of_notMem h, List.getLastD_concat]

theorem exists_last_dot {t : Text} (h : '.' ∈ t) : ∃ a b, t = a ++ '.' :: b ∧ '.' ∉ b := by
  obtain ⟨b, a, hab, hb⟩ := List.eq_append_cons_of_mem (List.mem_reverse.mpr h)
  refine ⟨a.reverse, b.reverse, ?_, fun hmem => hb (List.mem_reverse.mp hmem)⟩
  rw [← List.reverse_reverse t, hab, List.reverse_append, List.reverse_cons, List.append_assoc,
    List.singleton_append]

/-- **Before the ending of a name stands more than dots.** -/
theorem extension_eq_iff (h : IsName name) {ending : Text} (hending : '.' ∉ ending) :
    extension name = '.' :: ending ↔
      ∃ stem, name = stem ++ '.' :: ending ∧ ∃ c ∈ stem, c ≠ '.' := by
  rw [extension, fileName_name h]
  constructor
  · intro hext
    by_cases hdot : '.' ∈ name.dropWhile (· = '.')
    · obtain ⟨stem, last, hdrop, hlast⟩ := exists_last_dot hdot
      simp only [hdrop] at hext
      rw [if_pos (by simp), fields_getLastD_append _ hlast] at hext
      obtain rfl := (List.cons.inj hext).2
      have hhead := List.head?_dropWhile_not (· = '.') name
      rw [hdrop] at hhead
      cases stem with
      | nil => simp at hhead
      | cons c stem =>
        refine ⟨name.takeWhile (· = '.') ++ c :: stem, ?_, c, by simp, by simpa using hhead⟩
        rw [List.append_assoc, ← hdrop, List.takeWhile_append_dropWhile]
    · rw [if_neg (by simpa using hdot)] at hext
      exact absurd hext (List.cons_ne_nil _ _).symm
  · rintro ⟨stem, rfl, c, hc, hdot⟩
    have hstem : stem.dropWhile (· = '.') ≠ [] := by
      rw [Ne, List.dropWhile_eq_nil_iff]
      intro hall
      exact hdot (of_decide_eq_true (hall c hc))
    have hdrop : (stem ++ '.' :: ending).dropWhile (· = '.') =
        stem.dropWhile (· = '.') ++ '.' :: ending := by
      rw [List.dropWhile_append, if_neg (by simpa using hstem)]
    simp only [hdrop]
    rw [if_pos (by simp), fields_getLastD_append _ hending]

end ScriptDocs.Path
