import ScriptDocs.File.Store

/-!
# Writing a file

A file is only written into a directory that is there, so writing it makes no directory and takes
none away.  Hence paths spell the same places before and after, and what changes is the content at
one place.

* `FileStore.isDirectory_put`: the directories stay.
* `FileStore.read?_put_self`, `FileStore.read?_put_of_ne`: the contents afterwards.
-/

namespace ScriptDocs.FileStore

variable {s : FileStore} {p q : Place} {path : Text}

theorem writePlace?_eq_some :
    s.writePlace? path = some p ↔
      s.locate? path = some p ∧ s.isDirectory p = false ∧ s.isDirectory p.dropLast = true := by
  unfold writePlace?
  cases s.locate? path with
  | none => simp
  | some q =>
    simp only [Option.ite_none_left_eq_some, Option.some.injEq, Bool.or_eq_true, not_or,
      Bool.not_eq_true, Bool.not_eq_eq_eq_not, Bool.not_true, Bool.not_eq_false]
    constructor
    · rintro ⟨⟨hq, hd⟩, rfl⟩
      exact ⟨rfl, hq, hd⟩
    · rintro ⟨rfl, hq, hd⟩
      exact ⟨⟨hq, hd⟩, rfl⟩

/-- A file that can be opened has a place to be written to. -/
theorem isSome_writePlace? (h : s.openFault? path = none) : (s.writePlace? path).isSome = true := by
  unfold openFault? at h
  dsimp only at h
  split at h
  · cases h
  split at h
  · assumption
  split at h
  · cases h
  · cases h

/-! ### Directories -/

theorem isDirectory_iff :
    s.isDirectory p = true ↔ p = [] ∨ (∃ f ∈ s.files, p <+: f.1 ∧ p.length < f.1.length) ∨
      ∃ d ∈ s.directories, p <+: d := by
  simp [isDirectory, or_assoc]

/-- What is above a directory is one. -/
theorem isDirectory_of_prefix (h : s.isDirectory p = true) (hq : q <+: p) :
    s.isDirectory q = true := by
  rw [isDirectory_iff] at h ⊢
  rcases h with rfl | ⟨f, hf, hp, hlt⟩ | ⟨d, hd, hp⟩
  · exact Or.inl (List.prefix_nil.mp hq)
  · exact Or.inr (Or.inl ⟨f, hf, hq.trans hp, Nat.lt_of_le_of_lt hq.length_le hlt⟩)
  · exact Or.inr (Or.inr ⟨d, hd, hq.trans hp⟩)

theorem isDirectory_put (h : s.isDirectory p.dropLast = true) (content : List UInt8) (q : Place) :
    (s.put p content).isDirectory q = s.isDirectory q := by
  rw [Bool.eq_iff_iff]
  constructor
  · intro hq
    rcases isDirectory_iff.mp hq with rfl | ⟨f, hf, hpre, hlt⟩ | hlisted
    · exact isDirectory_iff.mpr (Or.inl rfl)
    · rcases List.mem_append.mp hf with hf | hf
      · exact isDirectory_iff.mpr (Or.inr (Or.inl ⟨f, (List.mem_filter.mp hf).1, hpre, hlt⟩))
      · -- above the file that is written there is only the directory that holds it
        obtain rfl := List.mem_singleton.mp hf
        apply isDirectory_of_prefix h
        apply List.prefix_of_prefix_length_le hpre (List.dropLast_prefix p)
        rw [List.length_dropLast]
        exact Nat.le_sub_one_of_lt hlt
    · exact isDirectory_iff.mpr (Or.inr (Or.inr hlisted))
  · intro hq
    rcases isDirectory_iff.mp hq with rfl | ⟨f, hf, hpre, hlt⟩ | hlisted
    · exact isDirectory_iff.mpr (Or.inl rfl)
    · by_cases hfp : f.1 = p
      · rw [hfp] at hpre hlt
        exact isDirectory_iff.mpr (Or.inr (Or.inl
          ⟨(p, content), List.mem_append_right _ List.mem_cons_self, hpre, hlt⟩))
      · have hkept : f ∈ s.files.filter (fun f => f.1 ≠ p) :=
          List.mem_filter.mpr ⟨hf, decide_eq_true hfp⟩
        exact isDirectory_iff.mpr (Or.inr (Or.inl ⟨f, List.mem_append_left _ hkept, hpre, hlt⟩))
    · exact isDirectory_iff.mpr (Or.inr (Or.inr hlisted))

theorem locate?_put (h : s.isDirectory p.dropLast = true) (content : List UInt8) (path : Text) :
    (s.put p content).locate? path = s.locate? path := by
  have hstep : (s.put p content).step = s.step := by
    funext q name
    simp only [step, isDirectory_put h]
  rw [locate?, locate?, hstep]
  rfl

/-! ### Contents -/

theorem contentAt?_put_self (s : FileStore) (p : Place) (content : List UInt8) :
    (s.put p content).contentAt? p = some content := by
  have hnone : (s.files.filter fun f => f.1 ≠ p).find? (fun f => f.1 = p) = none := by
    rw [List.find?_eq_none]
    intro f hf
    simpa using (List.mem_filter.mp hf).2
  rw [contentAt?, put, List.find?_append, hnone]
  simp

theorem contentAt?_put_of_ne (s : FileStore) (content : List UInt8) (h : q ≠ p) :
    (s.put p content).contentAt? q = s.contentAt? q := by
  have hlast : ¬ p = q := fun he => h he.symm
  have hfilter : (s.files.filter fun f => f.1 ≠ p).find? (fun f => f.1 = q) =
      s.files.find? (fun f => f.1 = q) := by
    rw [List.find?_filter]
    congr 1
    funext f
    by_cases hf : f.1 = q
    · simp [hf, h]
    · simp [hf]
  rw [contentAt?, put, List.find?_append, hfilter]
  simp [contentAt?, hlast]

theorem read?_put_self (h : s.writePlace? path = some p) (content : List UInt8) :
    (s.put p content).read? path = some content := by
  obtain ⟨hpath, -, hd⟩ := writePlace?_eq_some.mp h
  rw [read?, locate?_put hd, hpath, Option.bind_some, contentAt?_put_self]

theorem read?_put_of_ne (h : s.writePlace? path = some p) (content : List UInt8) {other : Text}
    (hne : s.locate? other ≠ some p) : (s.put p content).read? other = s.read? other := by
  obtain ⟨-, -, hd⟩ := writePlace?_eq_some.mp h
  rw [read?, read?, locate?_put hd]
  cases hother : s.locate? other with
  | none => rfl
  | some q =>
    have hq : q ≠ p := fun he => hne (hother.trans (congrArg some he))
    exact contentAt?_put_of_ne s content hq

end ScriptDocs.FileStore
