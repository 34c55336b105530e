import ScriptDocs.Proofs.Comment.Target
import ScriptDocs.Proofs.Namespace
import ScriptDocs.Proofs.Produced
import ScriptDocs.Source

/-!
# What a scan finds

`Source.findings` goes through the comments of a script with their targets.  Here is what can be
said of every symbol that comes out of it, whatever the script and the namespaces at hand.

* `Target.pairs` gives the comments in order, each with the first target behind it
  (`upToFault_pairsOf`, `prefix_pairsOf`, `find?_of_mem_pairsOf`).
* `finding_eq_documented` and `document_eq_ok` take one finding apart: every test that the pair
  passed, and the symbol that was made of it.
* `documents_foundSymbols` puts them together.
-/

namespace ScriptDocs

/-! ### Comments with their targets -/

namespace Target

/-- What becomes of one comment: a pair, or a fault. -/
def pairAt (script : Text) (c : Span) : Except Fault (Span × Option Span) :=
  if isFileComment (c.text script) then .ok (c, none)
  else match find? script c.stop with
    | none => .error (.noTarget (c.text script))
    | some t => .ok (c, some t)

theorem pairAt_cases (script : Text) (c : Span) :
    (isFileComment (c.text script) = true ∧ pairAt script c = .ok (c, none)) ∨
    (isFileComment (c.text script) = false ∧ find? script c.stop = none ∧
      pairAt script c = .error (.noTarget (c.text script))) ∨
    ∃ t, isFileComment (c.text script) = false ∧ find? script c.stop = some t ∧
      pairAt script c = .ok (c, some t) := by
  cases hown : isFileComment (c.text script) with
  | true => exact Or.inl ⟨rfl, by simp [pairAt, hown]⟩
  | false =>
    cases hfind : find? script c.stop with
    | none => exact Or.inr (Or.inl ⟨rfl, rfl, by simp [pairAt, hown, hfind]⟩)
    | some t => exact Or.inr (Or.inr ⟨t, rfl, rfl, by simp [pairAt, hown, hfind]⟩)

/-- A pair is that of its comment, with the target behind it unless the comment is about its
file. -/
theorem pairAt_eq_ok {script : Text} {c : Span} {x : Span × Option Span}
    (h : pairAt script c = .ok x) :
    x.1 = c ∧ (x.2 = none ↔ isFileComment (c.text script) = true) ∧
      ∀ t, x.2 = some t → find? script c.stop = some t := by
  rcases pairAt_cases script c with ⟨hown, hok⟩ | ⟨-, -, herror⟩ | ⟨t, hown, hfind, hok⟩
  · obtain rfl := Except.ok.inj (hok.symm.trans h)
    exact ⟨rfl, iff_of_true rfl hown, by simp⟩
  · rw [herror] at h
    cases h
  · obtain rfl := Except.ok.inj (hok.symm.trans h)
    exact ⟨rfl, iff_of_false (by simp) (by simp [hown]), fun u hu => hfind.trans hu⟩

theorem pairAt_eq_error {script : Text} {c : Span} {f : Fault} (h : pairAt script c = .error f) :
    isFileComment (c.text script) = false ∧ find? script c.stop = none ∧
      f = .noTarget (c.text script) := by
  rcases pairAt_cases script c with ⟨-, hok⟩ | ⟨hown, hfind, herror⟩ | ⟨t, -, -, hok⟩
  · rw [hok] at h
    cases h
  · exact ⟨hown, hfind, Except.error.inj (h.symm.trans herror)⟩
  · rw [hok] at h
    cases h

/-- **Comments are taken one by one**, up to the first that becomes a fault. -/
theorem upToFault_pairsOf (script : Text) (cs : List Span) :
    Produced.UpToFault (pairAt script) cs (pairsOf script cs) := by
  have hthrough : pairsOf script cs =
      Produced.through ⟨cs, none⟩ fun c => (pairAt script c).map some := by
    induction cs with
    | nil => rfl
    | cons c cs ih =>
      rw [Produced.through_cons, ← ih, pairsOf]
      rcases pairAt_cases script c with
        ⟨hown, hpair⟩ | ⟨hown, hfind, hpair⟩ | ⟨t, hown, hfind, hpair⟩
      · simp only [hown, hpair]
        rfl
      · simp only [hown, hfind, hpair]
        rfl
      · simp only [hown, hfind, hpair]
        rfl
  rw [hthrough]
  exact Produced.upToFault_through (pairAt script) cs

theorem pairAt_of_mem_pairsOf {script : Text} {cs : List Span} {x : Span × Option Span}
    (h : x ∈ (pairsOf script cs).items) : pairAt script x.1 = .ok x := by
  obtain ⟨front, rest, -, hfront, -⟩ := upToFault_pairsOf script cs
  have hmem : Except.ok x ∈ front.map (pairAt script) := hfront ▸ List.mem_map_of_mem h
  obtain ⟨c, -, hok⟩ := List.mem_map.mp hmem
  rwa [(pairAt_eq_ok hok).1]

/-- The comments that get a target, or are about their file, are the first ones of the script. -/
theorem prefix_pairsOf (script : Text) (cs : List Span) :
    (pairsOf script cs).items.map Prod.fst <+: cs := by
  obtain ⟨front, rest, hcs, hfront, -⟩ := upToFault_pairsOf script cs
  have hfst := Produced.map_eq_of_map_ok (fun _ _ hok => (pairAt_eq_ok hok).1) hfront
  rw [hfst, List.map_id', hcs]
  exact List.prefix_append front rest

theorem find?_of_mem_pairsOf {script : Text} {cs : List Span} {c t : Span}
    (h : (c, some t) ∈ (pairsOf script cs).items) : find? script c.stop = some t :=
  (pairAt_eq_ok (pairAt_of_mem_pairsOf h)).2.2 t rfl

theorem mem_spans_of_mem_pairs {script : Text} {c : Span} {t? : Option Span}
    (h : (c, t?) ∈ (pairs script).items) : c ∈ Comment.spans script :=
  (prefix_pairsOf script _).subset (List.mem_map.mpr ⟨(c, t?), h, rfl⟩)

/-- **Comments and their targets are in order.**  Of two pairs the comments stand one behind the
other, and the targets are the same or stand one behind the other, too. -/
theorem pairwise_pairs (script : Text) :
    (pairs script).items.Pairwise fun x y => x.1.stop ≤ y.1.start ∧
      ∀ t t', x.2 = some t → y.2 = some t' → t = t' ∨ t.stop ≤ t'.start := by
  have hcomments : (pairs script).items.Pairwise fun x y => x.1.stop ≤ y.1.start :=
    List.pairwise_map.mp ((Comment.pairwise_spans script).sublist (prefix_pairsOf script _).sublist)
  refine hcomments.imp_of_mem ?_
  rintro ⟨c, t?⟩ ⟨c', t'?⟩ hx hy hle
  refine ⟨hle, ?_⟩
  rintro t t' rfl rfl
  exact eq_or_stop_le_of_find? (Comment.isComment_of_mem_spans (mem_spans_of_mem_pairs hy)) hle
    (find?_of_mem_pairsOf hx) (find?_of_mem_pairsOf hy)

end Target

namespace Source

/-! ### One finding -/

/-- The symbol that a comment at a target becomes, once its owner is known. -/
def symbolOf (identifier : Text) (target : Span) (c : Comment) (owner : Text) : Symbol :=
  { identifier, start := target.start, stop := target.stop, origin? := none, comment? := some c
    owner? := some owner, kind? := some (.ofComment c)
    property? := if Namespace.isPrototypeProperty identifier then
      (Namespace.parts identifier).getLast? else none
    static? := some (!Namespace.isPrototypeProperty identifier) }

theorem document_of_closest? {provided : List Text} {identifier owner : Text} (target : Span)
    (c : Comment) (h : Namespace.closest? identifier provided = some owner) (hne : owner ≠ []) :
    document provided identifier target c = .ok (symbolOf identifier target c owner) := by
  obtain ⟨x, xs, rfl⟩ := List.exists_cons_of_ne_nil hne
  have hkind : Symbol.kindOfComment { Symbol.bare identifier target.start target.stop with
      comment? := some c } = .ok (.ofComment c) := Symbol.kindOfComment_eq_ok rfl
  simp only [document, hkind, h, bind, Except.bind, pure, Except.pure]
  split
  · rename_i hp
    obtain ⟨p, hprop, hlast⟩ := Namespace.prototypeProperty_eq_ok hp
    rw [hprop, symbolOf, if_pos hp, hlast, hp]
    rfl
  · rename_i hp
    rw [symbolOf, if_neg hp, (Bool.not_eq_true _).mp hp]
    rfl

theorem document_eq_ok {provided : List Text} {identifier : Text} {target : Span} {c : Comment}
    {s : Symbol} (h : document provided identifier target c = .ok s) :
    ∃ owner, Namespace.closest? identifier provided = some owner ∧
      s = symbolOf identifier target c owner := by
  have hkind : Symbol.kindOfComment { Symbol.bare identifier target.start target.stop with
      comment? := some c } = .ok (.ofComment c) := Symbol.kindOfComment_eq_ok rfl
  cases hc : Namespace.closest? identifier provided with
  | none =>
    simp [document, hkind, hc, bind, Except.bind, throw, throwThe, MonadExceptOf.throw] at h
  | some owner =>
    by_cases hne : owner = []
    · simp [document, hkind, hc, hne, bind, Except.bind, throw, throwThe, MonadExceptOf.throw] at h
    · rw [document_of_closest? target c hc hne] at h
      exact ⟨owner, rfl, (Except.ok.inj h).symm⟩

/-- **What a pair went through when it became a symbol.**  Each hypothesis of the comment's text
and of the target is one of the tests on the way. -/
theorem finding_eq_documented {script : Text} {provided : List Text} {span : Span}
    {target? : Option Span} {s : Symbol}
    (h : finding script provided (span, target?) = .ok (some (.documented s))) :
    ∃ target text comment, target? = some target ∧
      Comment.interior (span.text script) = .ok text ∧
      Comment.ofText text span.start span.stop = .ok comment ∧
      Target.isUsed script target = false ∧ target.text script ≠ ['('] ∧
      isOfThis (Text.squeeze (target.text script)) = false ∧
      document provided (Text.squeeze (target.text script)) target comment = .ok s := by
  cases target? with
  | none => simp [finding] at h
  | some target =>
    rw [finding] at h
    cases htext : Comment.interior (span.text script) with
    | error f => simp [htext, bind, Except.bind] at h
    | ok text =>
      cases hcomment : Comment.ofText text span.start span.stop with
      | error f => simp [htext, hcomment, bind, Except.bind] at h
      | ok comment =>
        simp only [htext, hcomment, bind, Except.bind, pure, Except.pure] at h
        split at h
        · simp at h
        · rename_i hused
          simp only [Bool.or_eq_true, decide_eq_true_eq, not_or, Bool.not_eq_true] at hused
          split at h
          · simp at h
          · rename_i hthis
            split at h
            · simp at h
            · split at h
              · simp at h
              · rename_i symbol hdoc
                simp only [Except.ok.injEq, Option.some.injEq, Finding.documented.injEq] at h
                subst h
                exact ⟨target, text, comment, rfl, rfl, hcomment, hused.1, hused.2,
                  by simpa using hthis, hdoc⟩

theorem text_of_ofText {text : Text} {start stop : Int} {c : Comment}
    (h : Comment.ofText text start stop = .ok c) :
    c.text = text ∧ c.start = start ∧ c.stop = stop := by
  unfold Comment.ofText at h
  cases hp : Comment.partsOf text with
  | error f => simp [hp, bind, Except.bind] at h
  | ok parts =>
    cases hf : parts.flags.mapM Flag.checked with
    | error f => simp [hp, hf, bind, Except.bind] at h
    | ok flags =>
      simp only [hp, hf, bind, Except.bind, pure, Except.pure, Except.ok.injEq] at h
      subst h
      exact ⟨rfl, rfl, rfl⟩

/-! ### What is known of a symbol -/

/-- The symbol `s` stands at `target` and is documented by the comment at `span`. -/
structure Documents (script : Text) (provided : List Text) (span target : Span) (s : Symbol) :
    Prop where
  start_eq : s.start = target.start
  stop_eq : s.stop = target.stop
  /-- The identifier is what stands at the target, without its blanks. -/
  identifier_eq : s.identifier = Text.squeeze (target.text script)
  isDottedName : Target.IsDottedName s.identifier
  not_ofThis : ¬ "this.".toList <+: s.identifier
  /-- What follows the target is neither a call nor an index. -/
  not_used : ∀ c, (script.drop target.stop).find? (fun c => !isBlank c) = some c →
    c ≠ '(' ∧ c ≠ '['
  span_mem : span ∈ Comment.spans script
  span_le : span.stop ≤ target.start
  comment : ∃ c, s.comment? = some c ∧ c.start = span.start ∧ c.stop = span.stop ∧
    Comment.interior (span.text script) = .ok c.text
  /-- The owner is a longest one of the namespaces at hand that hold the identifier. -/
  owner : ∃ owner ∈ provided, s.owner? = some owner ∧
    Namespace.parts owner <+: Namespace.parts s.identifier ∧
    ∀ m ∈ provided, Namespace.parts m <+: Namespace.parts s.identifier →
      (Namespace.parts m).length ≤ (Namespace.parts owner).length
  static : s.static? = some false ↔ 3 ≤ (Namespace.parts s.identifier).length ∧
    (Namespace.parts s.identifier)[(Namespace.parts s.identifier).length - 2]? =
      some "prototype".toList
  property : s.property? =
    if s.static? = some false then (Namespace.parts s.identifier).getLast? else none

/-- What becomes of a pair: the symbol that is made of it, if one is. -/
def symbolAt? (script : Text) (provided : List Text) (x : Span × Option Span) : Option Symbol :=
  (Produced.made (finding script provided) x).bind Finding.symbol?

theorem symbolAt?_eq_some {script : Text} {provided : List Text} {x : Span × Option Span}
    {s : Symbol} (h : symbolAt? script provided x = some s) :
    finding script provided x = .ok (some (.documented s)) := by
  obtain ⟨found, hfound, hs⟩ := Option.bind_eq_some_iff.mp h
  rw [Produced.made_eq_some] at hfound
  cases found with
  | documented s' => rw [hfound, Option.some.inj hs]
  | ofThis i => exact absurd hs (by simp [Finding.symbol?])
  | foreign i => exact absurd hs (by simp [Finding.symbol?])

/-- The symbols of a script, in the order in which they are found. -/
def foundSymbols (script : Text) (provided : List Text) : List Symbol :=
  (findings script provided).items.filterMap Finding.symbol?

theorem exists_prefix_foundSymbols (script : Text) (provided : List Text) :
    ∃ xs, xs <+: (Target.pairs script).items ∧
      foundSymbols script provided = xs.filterMap (symbolAt? script provided) := by
  obtain ⟨xs, hpre, he⟩ :=
    Produced.exists_prefix_through (Target.pairs script) (finding script provided)
  refine ⟨xs, hpre, ?_⟩
  rw [foundSymbols, findings, he, List.filterMap_filterMap]
  rfl

theorem documents_of_finding {script : Text} {provided : List Text} {span : Span}
    {target? : Option Span} {s : Symbol} (hmem : (span, target?) ∈ (Target.pairs script).items)
    (h : finding script provided (span, target?) = .ok (some (.documented s))) :
    ∃ target, target? = some target ∧ Documents script provided span target s := by
  obtain ⟨target, text, comment, rfl, htext, hcomment, hused, hparen, hthis, hdoc⟩ :=
    finding_eq_documented h
  obtain ⟨owner, howner, rfl⟩ := document_eq_ok hdoc
  obtain ⟨howner_mem, hholds, hlongest⟩ := Namespace.closest?_eq_some howner
  obtain ⟨rfl, hstart, hstop⟩ := text_of_ofText hcomment
  have hfind := Target.find?_of_mem_pairsOf hmem
  refine ⟨target, rfl, ?_⟩
  exact {
    start_eq := rfl
    stop_eq := rfl
    identifier_eq := rfl
    isDottedName := Target.isDottedName_squeeze hfind hparen
    not_ofThis := by
      rw [← List.isPrefixOf_iff_prefix]
      exact (Bool.not_eq_true _).mpr hthis
    not_used := by
      intro c hc
      rw [Text.find?_eq_head?_trimStart] at hc
      obtain ⟨rest, hrest⟩ := List.head?_eq_some_iff.mp hc
      simpa [Target.isUsed, hrest] using hused
    span_mem := Target.mem_spans_of_mem_pairs hmem
    span_le := Target.start_le_of_find? hfind
    comment := ⟨comment, rfl, hstart, hstop, htext⟩
    owner := ⟨owner, howner_mem, rfl, Namespace.holds_iff.mp hholds,
      fun m hm hp => hlongest m hm (Namespace.holds_iff.mpr hp)⟩
    static := by
      rw [← Namespace.isPrototypeProperty_iff]
      simp [symbolOf]
    property := by simp [symbolOf] }

/-- **What a scan finds.**  Every symbol stands at a target and has the comment in front of it, the
longest namespace that holds it, and the property that its name gives.  The comments of the symbols
stand one behind the other, and so do their targets, unless two comments share one.  This holds of
all symbols that are found, also of those in front of a fault. -/
theorem documents_foundSymbols (script : Text) (provided : List Text) :
    (∀ s ∈ foundSymbols script provided, ∃ span target, Documents script provided span target s) ∧
      (foundSymbols script provided).Pairwise fun s s' =>
        (∃ c c', s.comment? = some c ∧ s'.comment? = some c' ∧ c.stop ≤ c'.start) ∧
          ((s.start = s'.start ∧ s.stop = s'.stop) ∨ s.stop ≤ s'.start) := by
  obtain ⟨xs, hpre, he⟩ := exists_prefix_foundSymbols script provided
  rw [he]
  constructor
  · intro s hs
    obtain ⟨⟨span, target?⟩, hx, hsym⟩ := List.mem_filterMap.mp hs
    obtain ⟨target, _, hd⟩ := documents_of_finding (hpre.subset hx) (symbolAt?_eq_some hsym)
    exact ⟨span, target, hd⟩
  · rw [List.pairwise_filterMap]
    refine ((Target.pairwise_pairs script).sublist hpre.sublist).imp_of_mem ?_
    rintro ⟨span, target?⟩ ⟨span', target'?⟩ hx hy ⟨hspans, htargets⟩ s hs s' hs'
    obtain ⟨target, rfl, hd⟩ := documents_of_finding (hpre.subset hx) (symbolAt?_eq_some hs)
    obtain ⟨target', rfl, hd'⟩ := documents_of_finding (hpre.subset hy) (symbolAt?_eq_some hs')
    obtain ⟨c, hc, _, hstop, _⟩ := hd.comment
    obtain ⟨c', hc', hstart', _, _⟩ := hd'.comment
    refine ⟨⟨c, c', hc, hc', ?_⟩, ?_⟩
    · rw [hstop, hstart']
      exact Int.ofNat_le.mpr hspans
    · rw [hd.start_eq, hd.stop_eq, hd'.start_eq, hd'.stop_eq]
      rcases htargets target target' rfl rfl with rfl | hle
      · exact Or.inl ⟨rfl, rfl⟩
      · exact Or.inr (Int.ofNat_le.mpr hle)

example : ((foundSymbols "/**\n * F.\n */\na.b.prototype . g = 0;".toList
    ["a".toList, "a.b".toList]).map fun s => (s.identifier, s.owner?, s.property?)) =
      [("a.b.prototype.g".toList, some "a.b".toList, some "g".toList)] := by decide

end Source

end ScriptDocs
