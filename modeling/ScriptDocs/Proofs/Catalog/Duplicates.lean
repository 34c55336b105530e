import ScriptDocs.Proofs.Catalog

/-!
# Duplicates reported and refused

`Catalog.collect` reports a duplicate and goes on, `Catalog.collectStrictly` stops at it.  Both look
for the identifier among the symbols collected so far.  `duplicates` looks among all symbols in
front instead, so it is the same list for both, and each of the two is read off it: the reports are
its wordings in order, the refusal is its head.

* `duplicate?_survivors`: the symbols in front and those collected of them show the same duplicate.
* `enterStrictly_eq`, `warnings_enter`: one more symbol, refused or reported.
* `collectStrictly_eq`, `warnings_collect`: all symbols.
* `Names`, `message_fault`: which two symbols the wording of a duplicate names.
* `collectStrictly_agrees`: the two ways agree.
-/

namespace ScriptDocs.Catalog

/-! ### Duplicates among symbols -/

/-- The duplicate that a symbol is behind the `earlier` ones.  An identifier for which a catalog has
no place makes none. -/
def duplicate? (earlier : List Symbol) (s : Symbol) : Option Duplicate :=
  if admits s.identifier then
    (earlier.find? fun e => e.identifier = s.identifier).map fun first => ⟨s, first⟩
  else none

/-- The duplicates among symbols, each with the first symbol that has its identifier. -/
def duplicates (symbols : List Symbol) : List Duplicate :=
  symbols.zipIdx.filterMap fun x => duplicate? (symbols.take x.2) x.1

theorem duplicates_concat (symbols : List Symbol) (s : Symbol) :
    duplicates (symbols ++ [s]) = duplicates symbols ++ (duplicate? symbols s).toList := by
  have hfront : (symbols.zipIdx.filterMap fun x => duplicate? ((symbols ++ [s]).take x.2) x.1) =
      symbols.zipIdx.filterMap fun x => duplicate? (symbols.take x.2) x.1 := by
    apply List.filterMap_congr
    intro x hx
    have hi : x.2 < symbols.length := by
      simpa using (List.mem_zipIdx (x := x.1) (i := x.2) hx).2.1
    rw [List.take_append_of_le_length (Nat.le_of_lt hi)]
  rw [duplicates, duplicates, List.zipIdx_append, List.filterMap_append, hfront]
  congr 1
  cases hs : duplicate? symbols s with
  | none => simp [hs]
  | some d => simp [hs]

/-- The first symbol that has an identifier is collected, so it is found among the survivors too. -/
theorem find?_survivors (symbols : List Symbol) {identifier : Text}
    (h : admits identifier = true) :
    (survivors symbols).find? (fun e => e.identifier = identifier) =
      symbols.find? fun e => e.identifier = identifier := by
  induction symbols using List.reverseRecOn with
  | nil => rfl
  | append_singleton front t ih =>
    rw [survivors_concat, List.find?_append, List.find?_append, ih]
    cases hfront : front.find? fun e => e.identifier = identifier with
    | some first => rfl
    | none =>
      rw [Option.none_or, Option.none_or]
      by_cases ht : t.identifier = identifier
      · -- nothing in front has the identifier, so `t` survives
        have hsurvives : survives front t = true := by
          refine survives_iff.mpr ⟨ht ▸ h, fun e he => ?_⟩
          rw [ht]
          simpa using List.find?_eq_none.mp hfront e he
        rw [if_pos hsurvives]
      · split
        · rfl
        · simp [ht]

theorem duplicate?_survivors (symbols : List Symbol) (s : Symbol) :
    duplicate? (survivors symbols) s = duplicate? symbols s := by
  unfold duplicate?
  by_cases ha : admits s.identifier = true
  · rw [if_pos ha, if_pos ha, find?_survivors symbols ha]
  · rw [if_neg ha, if_neg ha]

/-! ### One symbol more -/

def warnings (c : Catalog) : List LogEntry := c.notes.filter fun n => n.level = .warning

variable (siblings : Symbol → List Symbol)

/-- What becomes of a symbol is what `duplicate?` says, or it is no duplicate. -/
theorem verdict_cases (collected : List Symbol) (s : Symbol) :
    (∃ first, verdict collected s = .duplicate first ∧
      duplicate? collected s = some ⟨s, first⟩) ∨
    ((∀ first, verdict collected s ≠ .duplicate first) ∧ duplicate? collected s = none) := by
  by_cases hignored : s.identifier ∈ ignored
  · right
    simp [verdict, duplicate?, admits, hignored]
  by_cases hthis : Source.isOfThis s.identifier = true
  · right
    simp [verdict, duplicate?, admits, hignored, hthis]
  cases hfind : collected.find? (fun e => decide (e.identifier = s.identifier)) with
  | some first =>
    left
    exact ⟨first, by simp [verdict, duplicate?, admits, hignored, hthis, hfind]⟩
  | none =>
    right
    simp [verdict, duplicate?, admits, hignored, hthis, hfind]

/-- **One symbol, strictly.**  A duplicate is refused, and any other symbol is entered as ever. -/
theorem enterStrictly_eq (c : Catalog) (s : Symbol) :
    c.enterStrictly siblings s =
      (duplicate? c.symbols s).elim (.ok (c.enter siblings s))
        fun d => .error (d.fault siblings) := by
  unfold enterStrictly
  rcases verdict_cases c.symbols s with ⟨first, hv, hd⟩ | ⟨hv, hd⟩
  · rw [hv, hd]
    rfl
  · rw [hd]
    cases hverdict : verdict c.symbols s with
    | duplicate first => exact absurd hverdict (hv first)
    | added => rfl
    | passedOver => rfl
    | ofThis => rfl

/-- **One symbol, reported.**  A duplicate makes one warning, and any other symbol makes none. -/
theorem warnings_enter (c : Catalog) (s : Symbol) :
    (c.enter siblings s).warnings = c.warnings ++
      (duplicate? c.symbols s).toList.map fun d => .warning (d.fault siblings).message := by
  unfold enter
  rcases verdict_cases c.symbols s with ⟨first, hv, hd⟩ | ⟨hv, hd⟩
  · rw [hv, hd]
    simp [warnings, LogEntry.warning]
  · rw [hd]
    cases hverdict : verdict c.symbols s with
    | duplicate first => exact absurd hverdict (hv first)
    | added => simp [warnings]
    | passedOver => simp
    | ofThis => simp [warnings, LogEntry.info]

/-! ### All symbols -/

theorem collectStrictly_concat (symbols : List Symbol) (s : Symbol) :
    collectStrictly siblings (symbols ++ [s]) =
      (collectStrictly siblings symbols).bind fun c => c.enterStrictly siblings s := by
  rw [collectStrictly, List.foldlM_append]
  simp only [List.foldlM_cons, List.foldlM_nil, bind_pure]
  rfl

/-- **The first duplicate is refused.**  Without one the catalog is that of `collect`. -/
theorem collectStrictly_eq (symbols : List Symbol) :
    collectStrictly siblings symbols =
      (duplicates symbols).head?.elim (.ok (collect siblings symbols))
        fun d => .error (d.fault siblings) := by
  induction symbols using List.reverseRecOn with
  | nil => rfl
  | append_singleton front s ih =>
    rw [collectStrictly_concat, ih, duplicates_concat]
    cases hfront : duplicates front with
    | cons d ds => rfl
    | nil =>
      -- so far both ways have the same catalog, and `s` alone decides
      have hstep : (collect siblings front).enterStrictly siblings s =
          (duplicate? front s).elim (.ok (collect siblings (front ++ [s])))
            fun d => .error (d.fault siblings) := by
        rw [enterStrictly_eq, collect_symbols, duplicate?_survivors, collect_concat]
      rw [List.nil_append, Option.head?_toList]
      exact hstep

/-- **All duplicates are reported.** -/
theorem warnings_collect (symbols : List Symbol) :
    (collect siblings symbols).warnings =
      (duplicates symbols).map fun d => .warning (d.fault siblings).message := by
  induction symbols using List.reverseRecOn with
  | nil => rfl
  | append_singleton front s ih =>
    rw [collect_concat, warnings_enter, ih, collect_symbols, duplicate?_survivors,
      duplicates_concat, List.map_append]

/-! ### The wording of a duplicate -/

/-- A text that names a symbol: it begins with the record of the symbol, whose identifier and
position come first. -/
def Names (s : Symbol) (text : Text) : Prop :=
  "Symbol(identifier=".toList ++ (Text.quoted s.identifier ++ (", start=".toList ++
    (Text.integer s.start ++ (", end=".toList ++ (Text.integer s.stop ++ ", source=".toList))))) <+:
      text

theorem names_described (symbols : List Symbol) (s : Symbol) : Names s (s.described symbols) := by
  have hopening : "Symbol(identifier=".toList =
      "Symbol".toList ++ '(' :: ("identifier".toList ++ ['=']) := rfl
  have hstart : ", start=".toList = ", ".toList ++ ("start".toList ++ ['=']) := rfl
  have hend : ", end=".toList = ", ".toList ++ ("end".toList ++ ['=']) := rfl
  have hsource : ", source=".toList = ", ".toList ++ ("source".toList ++ ['=']) := rfl
  rw [Names, hopening, hstart, hend, hsource, Symbol.described, Symbol.shownWith, record]
  generalize "Symbol".toList = name, ", ".toList = comma
  simp only [List.map_cons, List.intercalate_cons_cons, List.append_assoc, List.cons_append,
    List.nil_append, List.prefix_append_right_inj, List.cons_prefix_cons, true_and]
  exact List.nil_prefix

theorem message_fault (d : Duplicate) :
    (d.fault siblings).message =
      "Symbol duplicated\n".toList ++ (d.again.described (siblings d.again) ++
        '\n' :: d.first.described (siblings d.first)) :=
  List.append_assoc "Symbol duplicated\n".toList _ _

/-- The wording of every duplicate begins in the same way. -/
theorem message_begins (d : Duplicate) :
    "Symbol duplicated\n".toList <+: (d.fault siblings).message := by
  rw [message_fault]
  exact List.prefix_append _ _

/-- **Reporting and refusing agree.**  Symbols are refused exactly if collecting them reports a
duplicate.  Then the error is about the first duplicate among the symbols and describes both symbols
of it, and the first warning has the same wording.  Symbols that are not refused give the same
catalog either way. -/
theorem collectStrictly_agrees (symbols : List Symbol) :
    ((∃ f, collectStrictly siblings symbols = .error f) ↔
      ∃ n ∈ (collect siblings symbols).notes,
        n.level = .warning ∧ "Symbol duplicated\n".toList <+: n.message) ∧
    (∀ f, collectStrictly siblings symbols = .error f →
      ∃ d, (duplicates symbols).head? = some d ∧
        f.message = "Symbol duplicated\n".toList ++ (d.again.described (siblings d.again) ++
          '\n' :: d.first.described (siblings d.first)) ∧
        Names d.again (d.again.described (siblings d.again)) ∧
        Names d.first (d.first.described (siblings d.first)) ∧
        (collect siblings symbols).warnings =
          (duplicates symbols).map (fun e => .warning (e.fault siblings).message) ∧
        (collect siblings symbols).notes.find? (fun n => n.level = .warning) =
          some (.warning f.message)) ∧
    ∀ c, collectStrictly siblings symbols = .ok c → c = collect siblings symbols := by
  have hwarnings := warnings_collect siblings symbols
  rw [collectStrictly_eq]
  cases hd : duplicates symbols with
  | nil =>
    rw [hd, List.map_nil, warnings, List.filter_eq_nil_iff] at hwarnings
    refine ⟨⟨?_, ?_⟩, ?_, ?_⟩
    · intro h
      obtain ⟨f, hrefused⟩ := h
      cases hrefused
    · intro h
      obtain ⟨n, hn, hlevel, -⟩ := h
      exact absurd hlevel (by simpa using hwarnings n hn)
    · intro f hrefused
      cases hrefused
    · intro c hc
      exact (Except.ok.inj hc).symm
  | cons d ds =>
    rw [hd] at hwarnings
    have hfirst : (collect siblings symbols).notes.find? (fun n => n.level = .warning) =
        some (.warning (d.fault siblings).message) := by
      rw [← List.head?_filter]
      exact congrArg List.head? hwarnings
    refine ⟨⟨fun _ => ?_, fun _ => ⟨d.fault siblings, rfl⟩⟩, ?_, ?_⟩
    · exact ⟨_, List.mem_of_find?_eq_some hfirst, rfl, message_begins siblings d⟩
    · intro f hf
      obtain rfl := Except.error.inj hf
      exact ⟨d, rfl, message_fault siblings d, names_described _ _, names_described _ _,
        hwarnings, hfirst⟩
    · intro c hc
      cases hc

/-- Symbols of which one that is passed over and one of `this` come again before the first
duplicate, and another duplicate comes behind it. -/
def repeating : List Symbol :=
  [("goog.require", 0), ("a.f", 1), ("this.x", 2), ("goog.require", 3), ("this.x", 4), ("a.f", 5),
    ("a.g", 6), ("a.f", 7), ("a.g", 8)].map fun x => Symbol.bare x.1.toList x.2 (x.2 + 1)

theorem collectStrictly_agrees_repeating :
    (duplicates repeating).map (fun d => (d.again.start, d.first.start)) =
      [(5, 1), (7, 1), (8, 6)] ∧
    ∃ f, collectStrictly (fun _ => []) repeating = .error f ∧
      f.message = ["Symbol duplicated\n", "Symbol(identifier='a.f', start=5, end=6, ",
        "source=None, comment=None, namespace=None, ", "property=None, type=None, static=None) ",
        "a.f\n", "Symbol(identifier='a.f', start=1, end=2, ",
        "source=None, comment=None, namespace=None, ", "property=None, type=None, static=None) ",
        "a.f"].flatMap String.toList ∧
      (collect (fun _ => []) repeating).warnings.length = 3 ∧
      (collect (fun _ => []) repeating).notes.find? (fun n => n.level = .warning) =
        some (.warning f.message) := by
  have hpairs : (duplicates repeating).map (fun d => (d.again.start, d.first.start)) =
      [(5, 1), (7, 1), (8, 6)] := by decide
  obtain ⟨f, hrefused⟩ : ∃ f, collectStrictly (fun _ => []) repeating = .error f := ⟨_, rfl⟩
  obtain ⟨-, hpair, -⟩ := collectStrictly_agrees (fun _ => []) repeating
  obtain ⟨d, hd, hmessage, -, -, hwarnings, hfirst⟩ := hpair _ hrefused
  have hlength : (duplicates repeating).length = 3 := by simpa using congrArg List.length hpairs
  obtain rfl : (⟨.bare "a.f".toList 5 6, .bare "a.f".toList 1 2⟩ : Duplicate) = d :=
    Option.some.inj hd
  exact ⟨hpairs, f, hrefused, hmessage.trans (by decide +kernel),
    by rw [hwarnings, List.length_map, hlength], hfirst⟩

end ScriptDocs.Catalog
