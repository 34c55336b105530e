import ScriptDocs.Proofs.Comment.Block
import ScriptDocs.Proofs.Comment.Standing
import ScriptDocs.Proofs.Source

/-!
# What stops a scan

A scan goes through the comments of a script and stops at the first that is flawed.  `Flaw` lists
the three things that can be wrong with a comment: there is nothing behind it to document, its text
has a carriage return, or it has a flag that is not known.  `findings_fault_iff` says that these
are all.  Every other fault that a step of the scan could raise is ruled out by what the steps
before it have found.

* `interior_of_isComment`: a comment that was found has both its marks, and they do not overlap, so
  its text can be taken out.
* `ofText_eq_error_iff`: the two faults in a comment's text.
* `document_of_someHolds`: a name that is held by a namespace has a closest one, and it is not
  empty.
* `fault?_findingsAt_cons`, `fault?_findingsAt_iff`: one comment, and one after the other.
-/

namespace ScriptDocs

namespace Comment

/-! ### The text of a comment -/

theorem IsComment.text_eq {script : Text} {a : Span} (h : IsComment script a) :
    ∃ body, a.text script = "/**".toList ++ (body ++ "*/".toList) := by
  obtain ⟨rest, hrest⟩ := h.opens
  obtain ⟨rest', hrest'⟩ := h.closes
  have hlong := h.long
  obtain ⟨n, hn⟩ : ∃ n, a.stop = a.start + 5 + n := ⟨a.stop - (a.start + 5), by omega⟩
  -- the closing mark stands `n` characters behind the opening one
  have hclose : rest.drop n = "*/".toList ++ rest' := by
    have hdrop : script.drop (a.start + 3) = rest := by
      rw [← List.drop_drop, ← hrest]
      rfl
    rw [← hdrop, List.drop_drop, hrest', show a.start + 3 + n = a.stop - 2 by omega]
  refine ⟨rest.take n, ?_⟩
  have hlength : a.stop - a.start = "/**".toList.length + (n + 2) := by
    rw [hn, show "/**".toList.length = 3 from rfl]
    omega
  rw [Span.text, ← hrest, hlength, List.take_length_add_append, List.take_add, hclose]
  rfl

/-- **The text of a comment can be taken out.** -/
theorem interior_of_isComment {script : Text} {a : Span} (h : IsComment script a) :
    ∃ body, a.text script = "/**".toList ++ (body ++ "*/".toList) ∧
      interior (a.text script) = .ok ((Text.fullLines (Text.trim body)).flatMap lineText) := by
  obtain ⟨body, htext⟩ := h.text_eq
  refine ⟨body, htext, ?_⟩
  have htrim : Text.trim (a.text script) = a.text script := by
    rw [htext, Text.trim, Text.trimStart_eq_self, Text.trimEnd_eq_self]
    · intro c hc
      rw [← List.append_assoc, List.getLast?_append] at hc
      obtain rfl : '/' = c := Option.some.inj hc
      decide
    · rintro c ⟨⟩
      decide
  exact interior_of_trim (htrim.trans htext)

theorem mem_of_mem_lineText {line : Text} {c : Char} (h : c ∈ lineText line) : c ∈ line :=
  (lineText_suffix line).subset h

/-- A comment's text has no characters of its own. -/
theorem mem_of_mem_interior {script text : Text} {a : Span} (h : IsComment script a)
    (htext : interior (a.text script) = .ok text) {c : Char} (hc : c ∈ text) : c ∈ script := by
  obtain ⟨body, hbody, hinterior⟩ := interior_of_isComment h
  obtain rfl := Except.ok.inj (hinterior.symm.trans htext)
  obtain ⟨line, hline, hc⟩ := List.mem_flatMap.mp hc
  have htrim : c ∈ Text.trim body := by
    rw [← Text.flatten_fullLines (Text.trim body)]
    exact List.mem_flatten.mpr ⟨line, hline, mem_of_mem_lineText hc⟩
  have hmem : c ∈ body :=
    (List.dropWhile_suffix _).subset ((Text.trimEnd_prefix_self _).subset htrim)
  have hspan : c ∈ a.text script := by
    rw [hbody]
    exact List.mem_append_right _ (List.mem_append_left _ hmem)
  exact List.mem_of_mem_drop (List.mem_of_mem_take hspan)

/-! ### Faults in a comment's text -/

/-- The first of the flags in a text that is not known. -/
def UnknownFlag (text name : Text) : Prop :=
  ∃ parts front flag behind, partsOf text = .ok parts ∧ parts.flags = front ++ flag :: behind ∧
    (∀ g ∈ front, g.name ∈ Flag.names) ∧ flag.name ∉ Flag.names ∧ flag.name = name

theorem checked_eq_ok_iff {f g : Flag} : f.checked = .ok g ↔ f.name ∈ Flag.names ∧ f = g := by
  unfold Flag.checked
  split
  · rename_i h
    simp [List.contains_iff_mem.mp h]
  · rename_i h
    simp [mt List.contains_iff_mem.mpr h]

theorem checked_eq_error_iff {f : Flag} {e : Fault} :
    f.checked = .error e ↔ f.name ∉ Flag.names ∧ e = .unknownFlag f.name := by
  unfold Flag.checked
  split
  · rename_i h
    simp [List.contains_iff_mem.mp h]
  · rename_i h
    simp [mt List.contains_iff_mem.mpr h, eq_comm]

theorem partsOf_of_mem {text : Text} (h : '\r' ∈ text) :
    partsOf text = .error .carriageReturn := by
  rw [partsOf, sections, if_pos (List.contains_iff_mem.mpr h)]
  rfl

theorem exists_partsOf {text : Text} (h : '\r' ∉ text) : ∃ parts, partsOf text = .ok parts := by
  rw [partsOf, sections, if_neg (mt List.contains_iff_mem.mp h)]
  exact ⟨_, rfl⟩

/-- **The two faults in a comment's text.**  Carriage returns are looked for before the flags. -/
theorem ofText_eq_error_iff {text : Text} {start stop : Int} {e : Fault} :
    ofText text start stop = .error e ↔
      ('\r' ∈ text ∧ e = .carriageReturn) ∨
        ∃ name, UnknownFlag text name ∧ e = .unknownFlag name := by
  by_cases hreturn : '\r' ∈ text
  · have hparts := partsOf_of_mem hreturn
    simp only [ofText, hparts, bind, Except.bind, Except.error.injEq]
    constructor
    · rintro rfl
      exact Or.inl ⟨hreturn, rfl⟩
    · rintro (⟨-, rfl⟩ | ⟨name, ⟨parts, _, _, _, hok, _⟩, -⟩)
      · rfl
      · rw [hparts] at hok
        exact nomatch hok
  · obtain ⟨parts, hparts⟩ := exists_partsOf hreturn
    have hflags : ofText text start stop = .error e ↔
        parts.flags.mapM Flag.checked = .error e := by
      simp only [ofText, hparts, bind, Except.bind]
      cases parts.flags.mapM Flag.checked with
      | error e' => simp
      | ok flags => simp [pure, Except.pure]
    rw [hflags, mapM_eq_error_iff]
    constructor
    · rintro ⟨front, flag, behind, he, hfront, hflag⟩
      obtain ⟨hunknown, rfl⟩ := checked_eq_error_iff.mp hflag
      refine Or.inr ⟨flag.name, ⟨parts, front, flag, behind, hparts, he, ?_, hunknown, rfl⟩, rfl⟩
      intro g hg
      obtain ⟨r, hr⟩ := hfront g hg
      exact (checked_eq_ok_iff.mp hr).1
    · rintro (⟨h, -⟩ | ⟨name, ⟨parts', front, flag, behind, hok, he, hfront, hflag, rfl⟩, rfl⟩)
      · exact absurd h hreturn
      · obtain rfl := Except.ok.inj (hparts.symm.trans hok)
        refine ⟨front, flag, behind, he, ?_, checked_eq_error_iff.mpr ⟨hflag, rfl⟩⟩
        intro g hg
        exact ⟨g, checked_eq_ok_iff.mpr ⟨hfront g hg, rfl⟩⟩

end Comment

namespace Source

/-! ### One comment with its target -/

theorem document_of_someHolds {provided : List Text} {identifier : Text} (target : Span)
    (c : Comment) (hname : Target.IsDottedName identifier)
    (h : Namespace.someHolds provided identifier = true) :
    ∃ s, document provided identifier target c = .ok s := by
  obtain ⟨owner, howner⟩ := Namespace.exists_closest? h
  obtain ⟨-, hholds, -⟩ := Namespace.closest?_eq_some howner
  have hne := Namespace.ne_nil_of_isDottedName (Namespace.isDottedName_of_holds hname hholds)
  exact ⟨_, document_of_closest? target c howner hne⟩

/-- **What a comment with a target can fail with** is what its text fails with: behind the text
nothing goes wrong. -/
theorem finding_eq_error_iff {script : Text} {provided : List Text} {span target : Span}
    {e : Fault} (hspan : Comment.IsComment script span)
    (hfind : Target.find? script span.stop = some target) :
    finding script provided (span, some target) = .error e ↔
      ∃ text, Comment.interior (span.text script) = .ok text ∧
        Comment.ofText text span.start span.stop = .error e := by
  obtain ⟨body, -, hinterior⟩ := Comment.interior_of_isComment hspan
  generalize (Text.fullLines (Text.trim body)).flatMap Comment.lineText = text at hinterior
  simp only [finding, hinterior, bind, Except.bind, Except.ok.injEq, exists_eq_left']
  cases Comment.ofText text span.start span.stop with
  | error e' => simp
  | ok comment =>
    simp only [reduceCtorEq, iff_false]
    split
    · intro h
      cases h
    · rename_i hused
      have hparen : target.text script ≠ ['('] := by
        intro hp
        exact hused (by simp [hp])
      have hname := Target.isDottedName_squeeze hfind hparen
      split
      · intro h
        cases h
      · split
        · intro h
          cases h
        · rename_i hforeign
          have hholds :
              Namespace.someHolds provided (Text.squeeze (target.text script)) = true := by
            simpa using hforeign
          obtain ⟨s, hs⟩ := document_of_someHolds target comment hname hholds
          rw [hs]
          intro h
          cases h

/-! ### One comment after the other -/

/-- What is wrong with the comment at a span, so that a scan stops there. -/
inductive Flaw (script : Text) (span : Span) : Fault → Prop
  /-- The comment is not about its file, and nothing behind it can be a target. -/
  | noTarget (hown : Target.isFileComment (span.text script) = false)
      (hnone : ∀ c ∈ script.drop span.stop, Target.isStart c = false) :
      Flaw script span (.noTarget (span.text script))
  /-- The comment has a target, and a carriage return in its text. -/
  | carriageReturn {c : Char} {text : Text}
      (hown : Target.isFileComment (span.text script) = false)
      (htarget : c ∈ script.drop span.stop ∧ Target.isStart c = true)
      (htext : Comment.interior (span.text script) = .ok text) (hreturn : '\r' ∈ text) :
      Flaw script span .carriageReturn
  /-- The comment has a target, and a flag in its text that is not known. -/
  | unknownFlag {c : Char} {text name : Text}
      (hown : Target.isFileComment (span.text script) = false)
      (htarget : c ∈ script.drop span.stop ∧ Target.isStart c = true)
      (htext : Comment.interior (span.text script) = .ok text)
      (hname : Comment.UnknownFlag text name) : Flaw script span (.unknownFlag name)

/-- A comment with a target is flawed if it fails. -/
theorem flaw_iff_finding {script : Text} (provided : List Text) {span target : Span}
    (hspan : Comment.IsComment script span)
    (hown : Target.isFileComment (span.text script) = false)
    (hfind : Target.find? script span.stop = some target) {f : Fault} :
    Flaw script span f ↔ finding script provided (span, some target) = .error f := by
  have htarget : ∃ c, c ∈ script.drop span.stop ∧ Target.isStart c = true := by
    obtain ⟨gap, c, cs, hdrop, -, hc, -⟩ := Target.find?_eq_some_iff.mp hfind
    exact ⟨c, by rw [hdrop]; simp, hc⟩
  obtain ⟨c, htarget⟩ := htarget
  rw [finding_eq_error_iff hspan hfind]
  constructor
  · intro h
    cases h with
    | noTarget _ hnone =>
      rw [hnone c htarget.1] at htarget
      exact absurd htarget.2 (by simp)
    | carriageReturn _ _ htext hreturn =>
      exact ⟨_, htext, Comment.ofText_eq_error_iff.mpr (Or.inl ⟨hreturn, rfl⟩)⟩
    | unknownFlag _ _ htext hname =>
      exact ⟨_, htext, Comment.ofText_eq_error_iff.mpr (Or.inr ⟨_, hname, rfl⟩)⟩
  · rintro ⟨text, htext, herror⟩
    rcases Comment.ofText_eq_error_iff.mp herror with ⟨hreturn, rfl⟩ | ⟨name, hname, rfl⟩
    · exact .carriageReturn hown htarget htext hreturn
    · exact .unknownFlag hown htarget htext hname

def findingsAt (script : Text) (provided : List Text) (spans : List Span) : Produced Finding :=
  (Target.pairsOf script spans).through (finding script provided)

/-- **One comment.**  Either it is flawed, in one way only, and the scan stops there, or the scan
goes on behind it. -/
theorem fault?_findingsAt_cons (script : Text) (provided : List Text) {span : Span}
    (hspan : Comment.IsComment script span) (spans : List Span) :
    (∃ f, (∀ g, Flaw script span g ↔ g = f) ∧
      (findingsAt script provided (span :: spans)).fault? = some f) ∨
    ((∀ g, ¬ Flaw script span g) ∧
      (findingsAt script provided (span :: spans)).fault? =
        (findingsAt script provided spans).fault?) := by
  cases hown : Target.isFileComment (span.text script) with
  | true =>
    right
    constructor
    · intro g h
      cases h <;> simp_all
    · rw [findingsAt, Target.pairsOf, if_pos hown, Produced.cons, Produced.through_cons, finding]
      rfl
  | false =>
    cases hfind : Target.find? script span.stop with
    | none =>
      left
      have hnone := Target.find?_eq_none_iff.mp hfind
      refine ⟨.noTarget (span.text script), ?_, ?_⟩
      · intro g
        constructor
        · intro h
          cases h with
          | noTarget => rfl
          | carriageReturn _ htarget => simp [hnone _ htarget.1] at htarget
          | unknownFlag _ htarget => simp [hnone _ htarget.1] at htarget
        · rintro rfl
          exact .noTarget hown hnone
      · rw [findingsAt, Target.pairsOf, if_neg (by simp [hown])]
        simp only [hfind]
        rfl
    | some target =>
      have hflaw := fun g => flaw_iff_finding provided hspan hown hfind (f := g)
      have hpairs : Target.pairsOf script (span :: spans) =
          .cons (span, some target) (Target.pairsOf script spans) := by
        rw [Target.pairsOf, if_neg (by simp [hown])]
        simp only [hfind]
      rw [findingsAt, hpairs, Produced.cons, Produced.through_cons]
      rcases hfound : finding script provided (span, some target) with f | _ | found
      · left
        refine ⟨f, ?_, rfl⟩
        intro g
        rw [hflaw, hfound, Except.error.injEq, eq_comm]
      · right
        refine ⟨?_, rfl⟩
        intro g
        rw [hflaw, hfound]
        intro h
        cases h
      · right
        refine ⟨?_, rfl⟩
        intro g
        rw [hflaw, hfound]
        intro h
        cases h

/-- The fault is that of the first comment that is flawed. -/
def FirstFlaw (script : Text) (spans : List Span) (f : Fault) : Prop :=
  ∃ front span behind, spans = front ++ span :: behind ∧
    (∀ a ∈ front, ∀ g, ¬ Flaw script a g) ∧ Flaw script span f

theorem fault?_findingsAt_iff (script : Text) (provided : List Text) {spans : List Span}
    (hspans : ∀ a ∈ spans, Comment.IsComment script a) (f : Fault) :
    (findingsAt script provided spans).fault? = some f ↔ FirstFlaw script spans f := by
  induction spans with
  | nil =>
    constructor
    · exact nofun
    · rintro ⟨front, span, behind, he, -⟩
      simp at he
  | cons span spans ih =>
    have hrest := ih fun a ha => hspans a (List.mem_cons_of_mem _ ha)
    rcases fault?_findingsAt_cons script provided (hspans span List.mem_cons_self) spans with
      ⟨g, hflaw, hfault⟩ | ⟨hnone, hfault⟩
    · rw [hfault, Option.some.injEq]
      constructor
      · rintro rfl
        exact ⟨[], span, spans, rfl, by simp, (hflaw g).mpr rfl⟩
      · rintro ⟨front, a, behind, he, hfront, ha⟩
        cases front with
        | nil =>
          obtain ⟨rfl, -⟩ := List.cons.inj he
          exact ((hflaw f).mp ha).symm
        | cons b front =>
          -- the first comment is flawed, so none stands in front of the flawed one
          obtain ⟨rfl, -⟩ := List.cons.inj he
          exact absurd ((hflaw g).mpr rfl) (hfront span List.mem_cons_self g)
    · rw [hfault, hrest]
      constructor
      · rintro ⟨front, a, behind, rfl, hfront, ha⟩
        refine ⟨span :: front, a, behind, rfl, ?_, ha⟩
        intro b hb
        rcases List.mem_cons.mp hb with rfl | hb
        · exact hnone
        · exact hfront b hb
      · rintro ⟨front, a, behind, he, hfront, ha⟩
        cases front with
        | nil =>
          obtain ⟨rfl, -⟩ := List.cons.inj he
          exact absurd ha (hnone f)
        | cons b front =>
          obtain ⟨rfl, rfl⟩ := List.cons.inj he
          exact ⟨front, a, behind, rfl, fun b hb => hfront b (List.mem_cons_of_mem _ hb), ha⟩

/-! ### All comments -/

theorem Flaw.kind {script : Text} {span : Span} {f : Fault} (h : Flaw script span f)
    (hspan : Comment.IsComment script span) :
    f = .noTarget (span.text script) ∨ (∃ name, name ∉ Flag.names ∧ f = .unknownFlag name) ∨
      (f = .carriageReturn ∧ '\r' ∈ script) := by
  cases h with
  | noTarget => exact Or.inl rfl
  | carriageReturn _ _ htext hreturn =>
    exact Or.inr (Or.inr ⟨rfl, Comment.mem_of_mem_interior hspan htext hreturn⟩)
  | unknownFlag _ _ _ hname =>
    obtain ⟨_, _, flag, _, _, _, _, hunknown, rfl⟩ := hname
    exact Or.inr (Or.inl ⟨_, hunknown, rfl⟩)

/-- The faults by which a step of a scan would say that an earlier step has left it something that
it cannot work with. -/
def internalFaults : List Fault :=
  [.unopenedComment, .unclosedComment, .notPrototypeProperty, .kindWithoutComment, .bareFlagName]

/-- **What stops a scan** is the first comment that is flawed, whatever the namespaces at hand.  So
there are three kinds of faults, the one about carriage returns only comes up in a script that has
them, and none of the others that the steps could raise ever does. -/
theorem findings_fault_iff (script : Text) (provided : List Text) (f : Fault) :
    ((findings script provided).fault? = some f ↔ FirstFlaw script (Comment.spans script) f) ∧
    ((findings script provided).fault? = some f →
      ((∃ span ∈ Comment.spans script, f = .noTarget (span.text script) ∧
          f.message = "Found no identifier for comment: ".toList ++ span.text script) ∨
        (∃ name, name ∉ Flag.names ∧ f = .unknownFlag name ∧
          f.message = "Unrecognized flag: ".toList ++ name) ∨
        (f = .carriageReturn ∧ f.message = "Non-UNIX strings not supported for now".toList ∧
          '\r' ∈ script)) ∧
      f ∉ internalFaults ∧ ∀ identifier, f ≠ .noNamespace identifier) := by
  have hspans : ∀ a ∈ Comment.spans script, Comment.IsComment script a :=
    fun _ ha => Comment.isComment_of_mem_spans ha
  have hiff := fault?_findingsAt_iff script provided hspans f
  refine ⟨hiff, ?_⟩
  intro hfault
  obtain ⟨front, span, behind, he, -, hflaw⟩ := hiff.mp hfault
  have hmem : span ∈ Comment.spans script := by
    rw [he]
    exact List.mem_append_right _ List.mem_cons_self
  rcases hflaw.kind (hspans span hmem) with rfl | ⟨name, hname, rfl⟩ | ⟨rfl, hreturn⟩
  · exact ⟨Or.inl ⟨span, hmem, rfl, rfl⟩, by simp [internalFaults], by simp⟩
  · exact ⟨Or.inr (Or.inl ⟨name, hname, rfl, rfl⟩), by simp [internalFaults], by simp⟩
  · exact ⟨Or.inr (Or.inr ⟨rfl, rfl, hreturn⟩), by simp [internalFaults], by simp⟩

example : (["/** F. */", "/** * F.\r * G. */ f", "/** * @f */ f"].map fun s =>
    (findings s.toList ["".toList]).fault?) =
      [some (.noTarget "/** F. */".toList), some .carriageReturn,
        some (.unknownFlag "@f".toList)] := by decide

end Source

end ScriptDocs
