import Mathlib.Data.List.Induction
import Mathlib.Data.List.Perm.Basic
import ScriptDocs.Catalog

/-!
# What a catalog keeps

`Catalog.collect` takes symbols one after the other and compares each with those that it has
collected.  Read from outside, a symbol survives if the catalog has a place for its identifier and
no earlier symbol has the same one: `survivors` says so by positions, without the catalog, and
`collect_symbols` that it is what the fold computes.

* `enter_cases`: the four things that become of one symbol.
* `collect_symbols`, `length_eq_collect`: the symbols of a catalog, and where all the others went.
* `Group.ofSymbols_eq_ok`: the groups of symbols that all have owners, in closed form, from which
  the laws of the groups are read off.
-/

namespace ScriptDocs

namespace Catalog

/-! ### The symbols that survive -/

/-- Whether a catalog has a place for an identifier. -/
def admits (identifier : Text) : Bool :=
  !ignored.contains identifier && !Source.isOfThis identifier

/-- Whether a symbol survives that comes behind the `earlier` ones. -/
def survives (earlier : List Symbol) (s : Symbol) : Bool :=
  admits s.identifier && earlier.all fun e => e.identifier ≠ s.identifier

/-- The symbols that survive, each judged by the symbols in front of it. -/
def survivors (symbols : List Symbol) : List Symbol :=
  (symbols.zipIdx.filter fun x => survives (symbols.take x.2) x.1).map Prod.fst

theorem survives_iff {earlier : List Symbol} {s : Symbol} :
    survives earlier s = true ↔
      admits s.identifier = true ∧ ∀ e ∈ earlier, e.identifier ≠ s.identifier := by
  simp [survives]

theorem survivors_concat (symbols : List Symbol) (s : Symbol) :
    survivors (symbols ++ [s]) =
      survivors symbols ++ if survives symbols s then [s] else [] := by
  have hfront : (symbols.zipIdx.filter fun x => survives ((symbols ++ [s]).take x.2) x.1) =
      symbols.zipIdx.filter fun x => survives (symbols.take x.2) x.1 := by
    apply List.filter_congr
    rintro ⟨t, i⟩ hmem
    have hi : i < symbols.length := by simpa using (List.mem_zipIdx hmem).2.1
    rw [List.take_append_of_le_length (Nat.le_of_lt hi)]
  rw [survivors, survivors, List.zipIdx_append, List.filter_append, hfront, List.map_append]
  congr 1
  by_cases hs : survives symbols s
  · simp [hs]
  · simp [hs]

theorem survivors_subset (symbols : List Symbol) : survivors symbols ⊆ symbols := by
  intro s hs
  obtain ⟨⟨t, i⟩, hmem, rfl⟩ := List.mem_map.mp hs
  exact List.fst_mem_of_mem_zipIdx (List.mem_filter.mp hmem).1

/-- An identifier that has a place is among the survivors as soon as it is among the symbols: the
first symbol that has it survives. -/
theorem exists_survivor {symbols : List Symbol} {s : Symbol} (h : s ∈ symbols)
    (ha : admits s.identifier = true) :
    ∃ e ∈ survivors symbols, e.identifier = s.identifier := by
  induction symbols using List.reverseRecOn generalizing s with
  | nil => exact absurd h List.not_mem_nil
  | append_singleton front t ih =>
    rw [survivors_concat]
    by_cases hfront : ∃ e ∈ front, e.identifier = s.identifier
    · obtain ⟨e, he, heq⟩ := hfront
      obtain ⟨f, hf, hfe⟩ := ih he (heq ▸ ha)
      exact ⟨f, List.mem_append_left _ hf, hfe.trans heq⟩
    · -- the identifier is new, so the last symbol is the one that has it
      have hst : s = t := by
        rcases List.mem_append.mp h with hs | hs
        · exact absurd ⟨s, hs, rfl⟩ hfront
        · exact List.mem_singleton.mp hs
      subst hst
      have hsurvives : survives front s = true :=
        survives_iff.mpr ⟨ha, fun e he heq => hfront ⟨e, he, heq⟩⟩
      rw [if_pos hsurvives]
      exact ⟨s, List.mem_append_right _ (List.mem_singleton_self s), rfl⟩

/-- **Survivors have identifiers of their own.** -/
theorem nodup_survivors (symbols : List Symbol) :
    ((survivors symbols).map (·.identifier)).Nodup := by
  induction symbols using List.reverseRecOn with
  | nil => exact List.nodup_nil
  | append_singleton front t ih =>
    rw [survivors_concat]
    split
    · rename_i hsurvives
      rw [List.map_append, List.nodup_append]
      refine ⟨ih, by simp, ?_⟩
      intro x hx y hy hxy
      obtain ⟨e, he, rfl⟩ := List.mem_map.mp hx
      have hyt : y = t.identifier := by simpa using hy
      exact (survives_iff.mp hsurvives).2 e (survivors_subset front he) (hxy.trans hyt)
    · rw [List.append_nil]
      exact ih

/-- Where no identifier comes twice, its place alone decides whether a symbol survives. -/
theorem survivors_eq_filter {symbols : List Symbol}
    (h : (symbols.map (·.identifier)).Nodup) :
    survivors symbols = symbols.filter fun s => admits s.identifier := by
  induction symbols using List.reverseRecOn with
  | nil => rfl
  | append_singleton front s ih =>
    rw [List.map_append, List.nodup_append] at h
    obtain ⟨hfront, -, hnew⟩ := h
    have hsurvives : survives front s = admits s.identifier := by
      have hall : (front.all fun e => e.identifier ≠ s.identifier) = true := by
        rw [List.all_eq_true]
        intro e he
        simpa using hnew e.identifier (List.mem_map_of_mem he) s.identifier (by simp)
      rw [survives, hall, Bool.and_true]
    rw [survivors_concat, hsurvives, List.filter_append, ih hfront]
    by_cases ha : admits s.identifier = true
    · simp [ha]
    · simp [ha]

/-! ### One symbol after the other -/

variable (siblings : Symbol → List Symbol)

theorem collect_concat (symbols : List Symbol) (s : Symbol) :
    collect siblings (symbols ++ [s]) = (collect siblings symbols).enter siblings s := by
  rw [collect, collect, List.foldl_append]
  rfl

/-- **What becomes of one symbol.**  It has an identifier to be passed over, or it is a property of
`this`, or an earlier symbol has its identifier, or it is collected. -/
theorem enter_cases (c : Catalog) (s : Symbol) :
    (s.identifier ∈ ignored ∧ c.enter siblings s = c) ∨
    (s.identifier ∉ ignored ∧ Source.isOfThis s.identifier = true ∧
      c.enter siblings s = ⟨c.symbols, c.notes ++
        [.info ("Skipping \"this\" identifier ".toList ++ s.identifier)]⟩) ∨
    (admits s.identifier = true ∧ ∃ first ∈ c.symbols, first.identifier = s.identifier ∧
      c.enter siblings s =
        ⟨c.symbols, c.notes ++ [.warning (Duplicate.fault siblings ⟨s, first⟩).message]⟩) ∨
    (admits s.identifier = true ∧ (∀ e ∈ c.symbols, e.identifier ≠ s.identifier) ∧
      c.enter siblings s = ⟨c.symbols ++ [s], c.notes⟩) := by
  by_cases hignored : s.identifier ∈ ignored
  · exact Or.inl ⟨hignored, by simp [enter, verdict, hignored]⟩
  by_cases hthis : Source.isOfThis s.identifier = true
  · exact Or.inr (Or.inl ⟨hignored, hthis, by simp [enter, verdict, hignored, hthis]⟩)
  have hadmits : admits s.identifier = true := by simp [admits, hignored, hthis]
  refine Or.inr (Or.inr ?_)
  cases hfind : c.symbols.find? (fun e => decide (e.identifier = s.identifier)) with
  | some first =>
    refine Or.inl ⟨hadmits, first, List.mem_of_find?_eq_some hfind, ?_, ?_⟩
    · simpa using List.find?_some hfind
    · simp [enter, verdict, hignored, hthis, hfind]
  | none =>
    refine Or.inr ⟨hadmits, ?_, ?_⟩
    · simpa using hfind
    · simp [enter, verdict, hignored, hthis, hfind]

/-- **A catalog holds the survivors.** -/
theorem collect_symbols (symbols : List Symbol) :
    (collect siblings symbols).symbols = survivors symbols := by
  induction symbols using List.reverseRecOn with
  | nil => rfl
  | append_singleton front s ih =>
    rw [collect_concat, survivors_concat]
    rcases enter_cases siblings (collect siblings front) s with
      ⟨hi, he⟩ | ⟨-, ht, he⟩ | ⟨ha, first, hfirst, hid, he⟩ | ⟨ha, hnew, he⟩
    · have hs : survives front s = false := by simp [survives, admits, hi]
      simp [he, ih, hs]
    · have hs : survives front s = false := by simp [survives, admits, ht]
      simp [he, ih, hs]
    · have hs : ¬ survives front s = true := by
        intro hs
        rw [ih] at hfirst
        exact (survives_iff.mp hs).2 first (survivors_subset front hfirst) hid
      simp [he, ih, hs]
    · have hs : survives front s = true := by
        refine survives_iff.mpr ⟨ha, fun e hmem heq => ?_⟩
        obtain ⟨f, hf, hfe⟩ := exists_survivor hmem (heq ▸ ha)
        exact hnew f (ih ▸ hf) (hfe.trans heq)
      simp [he, ih, hs]

theorem isOfThis_of_mem_ignored {identifier : Text} (h : identifier ∈ ignored) :
    Source.isOfThis identifier = false := by
  revert identifier
  decide

/-- **No symbol is lost.**  Each is in the catalog, has an identifier to be passed over, is a
property of `this`, or was warned about. -/
theorem length_eq_collect (symbols : List Symbol) :
    symbols.length = (collect siblings symbols).symbols.length +
      symbols.countP (fun s => s.identifier ∈ ignored) +
      symbols.countP (fun s => Source.isOfThis s.identifier) +
      (collect siblings symbols).notes.countP (fun n => n.level = .warning) := by
  induction symbols using List.reverseRecOn with
  | nil => rfl
  | append_singleton front s ih =>
    rw [collect_concat, List.countP_append, List.countP_append, List.length_append,
      List.length_singleton]
    rcases enter_cases siblings (collect siblings front) s with
      ⟨hi, he⟩ | ⟨hi, ht, he⟩ | ⟨ha, first, -, -, he⟩ | ⟨ha, -, he⟩
    · have ht := isOfThis_of_mem_ignored hi
      simp [he, hi, ht]
      omega
    · simp [he, hi, ht, List.countP_append, LogEntry.info]
      omega
    · obtain ⟨hi, ht⟩ : s.identifier ∉ ignored ∧ Source.isOfThis s.identifier = false := by
        simpa [admits] using ha
      simp [he, hi, ht, List.countP_append, LogEntry.warning]
      omega
    · obtain ⟨hi, ht⟩ : s.identifier ∉ ignored ∧ Source.isOfThis s.identifier = false := by
        simpa [admits] using ha
      simp [he, hi, ht]
      omega

end Catalog

namespace Group

/-! ### Groups in closed form -/

def owners (symbols : List Symbol) : List Text :=
  (symbols.filterMap (·.owner?)).eraseDups

def owned (symbols : List Symbol) (owner : Text) : List Symbol :=
  symbols.filter fun s => s.owner? = some owner

/-- The groups of symbols: one for each owner, with all that it owns. -/
def grouping (symbols : List Symbol) : List Group :=
  (owners symbols).map fun owner => ⟨owner, owned symbols owner⟩

theorem mem_owners {symbols : List Symbol} {owner : Text} :
    owner ∈ owners symbols ↔ ∃ s ∈ symbols, s.owner? = some owner := by
  rw [owners, List.mem_eraseDups, List.mem_filterMap]

theorem owners_concat_none (symbols : List Symbol) {s : Symbol} (h : s.owner? = none) :
    owners (symbols ++ [s]) = owners symbols := by
  simp [owners, h]

theorem owners_concat_some (symbols : List Symbol) {s : Symbol} {owner : Text}
    (h : s.owner? = some owner) :
    owners (symbols ++ [s]) =
      owners symbols ++ if owner ∈ owners symbols then [] else [owner] := by
  have hlast : [s].filterMap (·.owner?) = [owner] := by simp [h]
  rw [owners, List.filterMap_append, hlast, List.eraseDups_append, ← owners]
  congr 1
  by_cases hmem : owner ∈ owners symbols
  · simp [List.removeAll, hmem, mem_owners.mp hmem]
  · simp [List.removeAll, List.eraseDups_cons, hmem, mt mem_owners.mpr hmem]

theorem nodup_owners (symbols : List Symbol) : (owners symbols).Nodup := by
  induction symbols using List.reverseRecOn with
  | nil => exact List.nodup_nil
  | append_singleton front s ih =>
    cases ho : s.owner? with
    | none =>
      rw [owners_concat_none front ho]
      exact ih
    | some owner =>
      rw [owners_concat_some front ho]
      by_cases hmem : owner ∈ owners front
      · simpa [hmem] using ih
      · rw [if_neg hmem, List.nodup_append]
        refine ⟨ih, by simp, ?_⟩
        rintro x hx y hy rfl
        exact hmem (List.mem_singleton.mp hy ▸ hx)

theorem owned_concat (symbols : List Symbol) {s : Symbol} {owner : Text}
    (h : s.owner? = some owner) (p : Text) :
    owned (symbols ++ [s]) p = owned symbols p ++ if p = owner then [s] else [] := by
  rw [owned, List.filter_append, owned]
  congr 1
  by_cases hp : p = owner
  · simp [h, hp]
  · simp [h, hp, Ne.symm hp]

theorem owned_ne_nil {symbols : List Symbol} {owner : Text} (h : owner ∈ owners symbols) :
    owned symbols owner ≠ [] := by
  obtain ⟨s, hs, ho⟩ := mem_owners.mp h
  have hmem : s ∈ owned symbols owner := List.mem_filter.mpr ⟨hs, by simpa using ho⟩
  exact List.ne_nil_of_mem hmem

/-! ### One insertion -/

theorem insert_of_mem {os : List Text} (hnodup : os.Nodup) {owner : Text} (h : owner ∈ os)
    (s : Symbol) (f : Text → List Symbol) :
    insert owner s (os.map fun p => ⟨p, f p⟩) =
      os.map fun p => ⟨p, f p ++ if p = owner then [s] else []⟩ := by
  induction os with
  | nil => exact absurd h List.not_mem_nil
  | cons p os ih =>
    obtain ⟨hp, hnodup⟩ := List.nodup_cons.mp hnodup
    rw [List.map_cons, List.map_cons, insert]
    by_cases heq : p = owner
    · -- the group is found, and the owners behind it are others
      subst heq
      rw [if_pos rfl, if_pos rfl]
      congr 1
      apply List.map_congr_left
      intro q hq
      have hne : q ≠ p := fun hqp => hp (hqp ▸ hq)
      rw [if_neg hne, List.append_nil]
    · have hmem : owner ∈ os := (List.mem_cons.mp h).resolve_left (Ne.symm heq)
      rw [if_neg heq, if_neg heq, List.append_nil, ih hnodup hmem]

theorem insert_of_notMem {os : List Text} {owner : Text} (h : owner ∉ os) (s : Symbol)
    (f : Text → List Symbol) :
    insert owner s (os.map fun p => ⟨p, f p⟩) =
      (os.map fun p => ⟨p, f p⟩) ++ [⟨owner, [s]⟩] := by
  induction os with
  | nil => rfl
  | cons p os ih =>
    obtain ⟨hne, hmem⟩ : owner ≠ p ∧ owner ∉ os := by simpa using h
    rw [List.map_cons, insert, if_neg (Ne.symm hne), ih hmem, List.cons_append]

/-- **Inserting one more symbol.**  The groups stay in closed form. -/
theorem insert_grouping (symbols : List Symbol) {s : Symbol} {owner : Text}
    (h : s.owner? = some owner) :
    insert owner s (grouping symbols) = grouping (symbols ++ [s]) := by
  rw [grouping, grouping, owners_concat_some symbols h]
  simp only [owned_concat symbols h]
  by_cases hmem : owner ∈ owners symbols
  · rw [if_pos hmem, List.append_nil, insert_of_mem (nodup_owners symbols) hmem]
  · rw [if_neg hmem, insert_of_notMem hmem, List.map_append]
    congr 1
    · apply List.map_congr_left
      intro p hp
      have hne : p ≠ owner := fun hpo => hmem (hpo ▸ hp)
      rw [if_neg hne, List.append_nil]
    · -- nothing was owned by a new owner
      have hnone : owned symbols owner = [] := by
        rw [owned, List.filter_eq_nil_iff]
        intro t ht hto
        exact hmem (mem_owners.mpr ⟨t, ht, by simpa using hto⟩)
      simp [hnone]

/-- Inserting a symbol adds it to the members and leaves the others alone. -/
theorem members_insert (owner : Text) (s : Symbol) (gs : List Group) :
    ((insert owner s gs).flatMap (·.members)).Perm (gs.flatMap (·.members) ++ [s]) := by
  induction gs with
  | nil => exact List.Perm.refl _
  | cons g gs ih =>
    rw [insert]
    split
    · simp only [List.flatMap_cons, List.append_assoc]
      exact List.perm_append_comm.append_left g.members
    · simp only [List.flatMap_cons, List.append_assoc]
      exact ih.append_left g.members

/-! ### All symbols -/

theorem ofSymbols_concat (symbols : List Symbol) (s : Symbol) :
    ofSymbols (symbols ++ [s]) = (ofSymbols symbols).bind fun gs =>
      match s.owner? with
      | none => .error .unownedSymbol
      | some owner => .ok (insert owner s gs) := by
  rw [ofSymbols, List.foldlM_append]
  simp only [List.foldlM_cons, List.foldlM_nil, bind_pure]
  rfl

/-- **Symbols that all have owners can be grouped.** -/
theorem ofSymbols_eq_ok {symbols : List Symbol} (h : ∀ s ∈ symbols, s.owner? ≠ none) :
    ofSymbols symbols = .ok (grouping symbols) := by
  induction symbols using List.reverseRecOn with
  | nil => rfl
  | append_singleton front s ih =>
    have hfront : ofSymbols front = .ok (grouping front) :=
      ih fun t ht => h t (List.mem_append_left _ ht)
    obtain ⟨owner, ho⟩ := Option.ne_none_iff_exists'.mp (h s (by simp))
    rw [ofSymbols_concat, hfront, ho, ← insert_grouping front ho]
    rfl

theorem ofSymbols_eq_error {symbols : List Symbol} {s : Symbol} (h : s ∈ symbols)
    (hs : s.owner? = none) : ∃ f, ofSymbols symbols = .error f := by
  induction symbols using List.reverseRecOn with
  | nil => exact absurd h List.not_mem_nil
  | append_singleton front t ih =>
    rw [ofSymbols_concat]
    cases hfront : ofSymbols front with
    | error f => exact ⟨f, rfl⟩
    | ok gs =>
      rcases List.mem_append.mp h with hmem | hmem
      · obtain ⟨f, hf⟩ := ih hmem
        rw [hf] at hfront
        exact nomatch hfront
      · rw [← List.mem_singleton.mp hmem, hs]
        exact ⟨_, rfl⟩

/-- **Nothing is lost in groups, and nothing comes twice.** -/
theorem members_grouping {symbols : List Symbol} (h : ∀ s ∈ symbols, s.owner? ≠ none) :
    ((grouping symbols).flatMap (·.members)).Perm symbols := by
  induction symbols using List.reverseRecOn with
  | nil => exact List.Perm.refl _
  | append_singleton front s ih =>
    obtain ⟨owner, ho⟩ := Option.ne_none_iff_exists'.mp (h s (by simp))
    rw [← insert_grouping front ho]
    exact (members_insert owner s _).trans
      ((ih fun t ht => h t (List.mem_append_left _ ht)).append_right [s])

/-! ### What groups are -/

/-- Groups that hold each of the symbols once, under its owner, and come in the order in which the
owners first come up. -/
structure Partition (symbols : List Symbol) (gs : List Group) : Prop where
  members : (gs.flatMap (·.members)).Perm symbols
  unique : ∀ s ∈ symbols, ∃! g, g ∈ gs ∧ s ∈ g.members
  owned : ∀ g ∈ gs, ∀ s ∈ g.members, s.owner? = some g.owner
  nonempty : ∀ g ∈ gs, g.members ≠ []
  ordered : gs.map (·.owner) = owners symbols

theorem map_owner_grouping (symbols : List Symbol) :
    (grouping symbols).map (·.owner) = owners symbols := by
  rw [grouping, List.map_map]
  exact List.map_id _

theorem partition_grouping {symbols : List Symbol} (h : ∀ s ∈ symbols, s.owner? ≠ none) :
    Partition symbols (grouping symbols) := by
  refine ⟨members_grouping h, ?_, ?_, ?_, map_owner_grouping symbols⟩
  · intro s hs
    obtain ⟨owner, ho⟩ := Option.ne_none_iff_exists'.mp (h s hs)
    refine ⟨⟨owner, owned symbols owner⟩, ⟨?_, ?_⟩, ?_⟩
    · exact List.mem_map_of_mem (mem_owners.mpr ⟨s, hs, ho⟩)
    · exact List.mem_filter.mpr ⟨hs, by simpa using ho⟩
    · rintro g ⟨hg, hsg⟩
      obtain ⟨p, -, rfl⟩ := List.mem_map.mp hg
      have hp : s.owner? = some p := by simpa using (List.mem_filter.mp hsg).2
      rw [Option.some.inj (hp.symm.trans ho)]
  · intro g hg s hs
    obtain ⟨p, -, rfl⟩ := List.mem_map.mp hg
    simpa using (List.mem_filter.mp hs).2
  · intro g hg
    obtain ⟨p, hp, rfl⟩ := List.mem_map.mp hg
    exact owned_ne_nil hp

end Group

end ScriptDocs
