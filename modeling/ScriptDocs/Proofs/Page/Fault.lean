import ScriptDocs.Html.Fragment
import ScriptDocs.Proofs.Page.Anchors

/-!
# When a page cannot be made

The only thing on a page that has to be read, and may turn out unreadable, is the signature of a
function.  It is read for the description of every function, and for the summary of a public one.
So a page of symbols that have what scanning gives them cannot be made exactly if the flags of some
function give no signature.

* `Illegible`: flags that give no signature (`exists_signature_iff`).
* `exists_functionEntry_iff`, `exists_summaryEntry`: a summary asks for nothing that the description
  does not ask for, too.
* `exists_content_of_legible`: all sections succeed if all functions have signatures.
* `content_fails_iff`: the pages that cannot be made.
-/

namespace ScriptDocs.Page

open Html

variable {parser : Parser}

/-! ### Signatures -/

/-- Flags that give no signature: a parameter or the return value cannot be read, or there are
several return values. -/
inductive Illegible (flags : List Flag) : Prop
  | parameter {f : Flag} {e : Fault} (hf : f ∈ flags) (hname : f.name = "@param".toList)
      (h : Parameter.read f.text = .error e)
  | severalReturns (h : 1 < (flags.filter fun f => f.name = "@return".toList).length)
  | returned {f : Flag} {e : Fault} (hf : (flags.filter fun f => f.name = "@return".toList) = [f])
      (h : Returned.read f.text = .error e)

/-- The parameters are read one by one. -/
theorem exists_parameters_iff {flags : List Flag} :
    (∃ ps, (parameterFlags flags).mapM parameterOf = .ok ps) ↔
      ∀ f ∈ flags, f.name = "@param".toList → ∃ p, Parameter.read f.text = .ok p := by
  have hread : ∀ f : Flag, f.name = "@param".toList → parameterOf f = Parameter.read f.text := by
    intro f hf
    rw [parameterOf, if_pos (Flag.isNamed_iff.mpr hf)]
  rw [exists_mapM_iff]
  constructor
  · intro h f hf hname
    rw [← hread f hname]
    exact h f (List.mem_filter.mpr ⟨hf, Flag.isNamed_iff.mpr hname⟩)
  · intro h f hf
    obtain ⟨hf, hname⟩ := List.mem_filter.mp hf
    rw [hread f (Flag.isNamed_iff.mp hname)]
    exact h f hf (Flag.isNamed_iff.mp hname)

theorem returnFlag?_of_none {flags : List Flag}
    (h : (flags.filter fun f => f.name = "@return".toList) = []) :
    returnFlag? flags = .ok none := by
  have hnamed : flags.filter (·.isNamed "@return") = [] := h
  rw [returnFlag?, hnamed]

theorem returnFlag?_of_one {flags : List Flag} {f : Flag}
    (h : (flags.filter fun f => f.name = "@return".toList) = [f]) :
    returnFlag? flags = .ok (some f) ∧ returnedOf f = Returned.read f.text := by
  have hnamed : flags.filter (·.isNamed "@return") = [f] := h
  have hf : f ∈ flags.filter (·.isNamed "@return") := by rw [hnamed]; exact List.mem_cons_self
  rw [returnFlag?, hnamed, returnedOf, if_pos (List.mem_filter.mp hf).2]
  exact ⟨rfl, rfl⟩

theorem returnFlag?_of_several {flags : List Flag}
    (h : 1 < (flags.filter fun f => f.name = "@return".toList).length) :
    returnFlag? flags = .error .severalReturns := by
  unfold returnFlag?
  change 1 < (flags.filter (·.isNamed "@return")).length at h
  split
  · rename_i hnone
    rw [hnone] at h
    exact absurd h (by simp)
  · rename_i hone
    rw [hone] at h
    exact absurd h (by simp)
  · rfl

/-- **When there is a signature.**  The cases are those of the return flags: none, one, or
several. -/
theorem exists_signature_iff {flags : List Flag} :
    (∃ g, Signature.ofFlags flags = .ok g) ↔ ¬ Illegible flags := by
  constructor
  · intro ⟨g, hg⟩ hill
    obtain ⟨ps, hps, hg⟩ := bind_eq_ok_iff.mp hg
    obtain ⟨f?, hf?, hg⟩ := bind_eq_ok_iff.mp hg
    cases hill with
    | parameter hf hname h =>
      obtain ⟨p, hp⟩ := exists_parameters_iff.mp ⟨ps, hps⟩ _ hf hname
      rw [h] at hp
      cases hp
    | severalReturns h =>
      rw [returnFlag?_of_several h] at hf?
      cases hf?
    | returned hf h =>
      obtain ⟨hflag, hread⟩ := returnFlag?_of_one hf
      obtain rfl := Except.ok.inj (hflag.symm.trans hf?)
      obtain ⟨r, hr, -⟩ := bind_eq_ok_iff.mp hg
      rw [hread, h] at hr
      cases hr
  · intro hlegible
    have hparameters : ∀ f ∈ flags, f.name = "@param".toList →
        ∃ p, Parameter.read f.text = .ok p := by
      intro f hf hname
      cases hread : Parameter.read f.text with
      | error e => exact absurd (.parameter hf hname hread) hlegible
      | ok p => exact ⟨p, rfl⟩
    obtain ⟨ps, hps⟩ := exists_parameters_iff.mpr hparameters
    rcases hreturns : flags.filter fun f => f.name = "@return".toList with
      _ | ⟨f, _ | ⟨f', more⟩⟩
    · have hflag := returnFlag?_of_none hreturns
      exact exists_bind_iff.mpr ⟨ps, hps, exists_bind_iff.mpr ⟨none, hflag, _, rfl⟩⟩
    · obtain ⟨hflag, hread⟩ := returnFlag?_of_one hreturns
      cases hr : Returned.read f.text with
      | error e => exact absurd (.returned hreturns hr) hlegible
      | ok r =>
        refine exists_bind_iff.mpr ⟨ps, hps, exists_bind_iff.mpr ⟨some f, hflag, ?_⟩⟩
        exact exists_bind_iff.mpr ⟨r, hread.trans hr, _, rfl⟩
    · exact absurd (.severalReturns (by rw [hreturns]; simp)) hlegible

/-! ### Entries -/

theorem commentOf_of_some {s : Symbol} {c : Comment} (h : s.comment? = some c) :
    commentOf s = .ok c := by
  rw [commentOf, h]

theorem exists_symbolEntry {s : Symbol} {c : Comment} (h : s.comment? = some c) :
    ∃ es, symbolEntry parser s = .ok es :=
  exists_bind_iff.mpr ⟨c, commentOf_of_some h, _, rfl⟩

/-- A function is described if it has a signature. -/
theorem exists_functionEntry_iff {s : Symbol} {c : Comment} (h : s.comment? = some c) :
    (∃ es, functionEntry parser s = .ok es) ↔ ¬ Illegible c.flags := by
  rw [← exists_signature_iff]
  constructor
  · intro ⟨es, hes⟩
    obtain ⟨c', g, full, hc', hg, -⟩ := functionEntry_eq_ok hes
    obtain rfl := Option.some.inj (h.symm.trans hc')
    exact ⟨g, hg⟩
  · intro ⟨g, hg⟩
    exact exists_bind_iff.mpr ⟨c, commentOf_of_some h, exists_bind_iff.mpr ⟨g, hg, _, rfl⟩⟩

/-- The summary of a function asks for its signature, too, and for a name. -/
theorem exists_summaryEntry {s : Symbol} {c : Comment} (h : s.comment? = some c)
    (hname : s.isStatic = false → s.property?.isSome = true) (hlegible : ¬ Illegible c.flags) :
    ∃ n, summaryEntry parser s = .ok n := by
  obtain ⟨g, hg⟩ := exists_signature_iff.mpr hlegible
  have hsummaryName : ∃ name, summaryName s = .ok name := by
    cases hstatic : s.isStatic with
    | true => exact ⟨s.identifier, by rw [summaryName, if_pos hstatic]⟩
    | false =>
      obtain ⟨p, hp⟩ := Option.isSome_iff_exists.mp (hname hstatic)
      exact ⟨p, by rw [summaryName, if_neg (by simp [hstatic]), hp]⟩
  obtain ⟨name, hname⟩ := hsummaryName
  have hline : ∃ n, codeLine name s = .ok n :=
    exists_bind_iff.mpr ⟨c, commentOf_of_some h, exists_bind_iff.mpr ⟨g, hg, _, rfl⟩⟩
  obtain ⟨line, hline⟩ := hline
  refine exists_bind_iff.mpr ⟨c, commentOf_of_some h, ?_⟩
  exact exists_bind_iff.mpr ⟨name, hname, exists_bind_iff.mpr ⟨line, hline, _, rfl⟩⟩

theorem exists_ruled_iff {entry : Symbol → Except Fault (List Node)} {s : Symbol} :
    (∃ es, ruled entry s = .ok es) ↔ ∃ es, entry s = .ok es := by
  simp only [ruled_eq_ok_iff]
  constructor
  · intro ⟨_, es, hes, _⟩
    exact ⟨es, hes⟩
  · intro ⟨es, hes⟩
    exact ⟨_, es, hes, rfl⟩

/-! ### Sections -/

theorem exists_sectionOf {title : String} {entry : Symbol → Except Fault (List Node)}
    {ss : List Symbol} (h : ∀ s ∈ ss, ∃ es, entry s = .ok es) :
    ∃ ns, sectionOf title entry ss = .ok ns := by
  unfold sectionOf
  split
  · exact ⟨[], rfl⟩
  · obtain ⟨entries, hentries⟩ := exists_mapM_iff.mpr h
    exact exists_bind_iff.mpr ⟨entries, hentries, _, rfl⟩

theorem exists_staticMethods {ss : List Symbol}
    (h : ∀ s ∈ ss, ∃ es, ruled (functionEntry parser) s = .ok es) :
    ∃ ns, staticMethods parser ss = .ok ns := by
  unfold staticMethods
  split
  · exact ⟨[], rfl⟩
  · obtain ⟨entries, hentries⟩ := exists_mapM_iff.mpr h
    exact exists_bind_iff.mpr ⟨entries, hentries, _, rfl⟩

theorem exists_summarySection {title : String} {leftOut : Bool} {functions : List Symbol}
    (h : ∀ s ∈ functions, ∃ n, summaryEntry parser s = .ok n) :
    ∃ ns, summarySection parser title leftOut functions = .ok ns := by
  unfold summarySection
  split
  · exact ⟨[], rfl⟩
  · obtain ⟨entries, hentries⟩ := exists_mapM_iff.mpr h
    obtain ⟨list, hlist⟩ : ∃ list, summary parser functions = .ok list :=
      exists_bind_iff.mpr ⟨entries, hentries, _, rfl⟩
    exact exists_bind_iff.mpr ⟨list, hlist, _, rfl⟩

theorem exists_publicOnes {ss : List Symbol} (h : ∀ s ∈ ss, s.comment?.isSome = true) :
    ∃ ps, publicOnes ss = .ok ps := by
  induction ss with
  | nil => exact ⟨[], rfl⟩
  | cons s ss ih =>
    obtain ⟨c, hc⟩ := Option.isSome_iff_exists.mp (h s List.mem_cons_self)
    obtain ⟨ps, hps⟩ := ih fun x hx => h x (List.mem_cons_of_mem _ hx)
    rw [publicOnes, hc, hps]
    exact ⟨_, rfl⟩

theorem mem_of_publicOnes {ss ps : List Symbol} (h : publicOnes ss = .ok ps) {s : Symbol}
    (hs : s ∈ ps) : s ∈ ss := by
  rw [publicOnes_eq_ok h] at hs
  exact (List.mem_filter.mp hs).1

/-! ### Pages -/

/-- **A page can be made if all functions have signatures.**  The sections are gone through in the
order of the page. -/
theorem exists_content_of_legible (owner : Text) {symbols : List Symbol}
    (hcomments : ∀ s ∈ symbols, s.comment?.isSome = true)
    (hproperties : ∀ s ∈ symbols, s.kind? = some .function → s.isStatic = false →
      s.property?.isSome = true)
    (hlegible : ∀ s ∈ symbols, s.kind? = some .function → ∀ c, s.comment? = some c →
      ¬ Illegible c.flags) : ∃ ns, content parser owner symbols = .ok ns := by
  have hsymbol : ∀ s ∈ symbols, ∃ es, symbolEntry parser s = .ok es := by
    intro s hs
    obtain ⟨c, hc⟩ := Option.isSome_iff_exists.mp (hcomments s hs)
    exact exists_symbolEntry hc
  have hfunction : ∀ s ∈ symbols, s.kind? = some .function →
      ∃ es, ruled (functionEntry parser) s = .ok es := by
    intro s hs hk
    obtain ⟨c, hc⟩ := Option.isSome_iff_exists.mp (hcomments s hs)
    exact exists_ruled_iff.mpr ((exists_functionEntry_iff hc).mpr (hlegible s hs hk c hc))
  have hsummary : ∀ s ∈ symbols, s.kind? = some .function → ∃ n, summaryEntry parser s = .ok n := by
    intro s hs hk
    obtain ⟨c, hc⟩ := Option.isSome_iff_exists.mp (hcomments s hs)
    exact exists_summaryEntry hc (hproperties s hs hk) (hlegible s hs hk c hc)
  have hinstance : ∀ k, ∀ s ∈ instanceMembers k symbols, s ∈ symbols ∧ s.kind? = some k :=
    fun k s hs => ⟨(mem_instanceMembers.mp hs).1, (mem_instanceMembers.mp hs).2.1⟩
  have hstatic : ∀ k, ∀ s ∈ staticMembers k symbols, s ∈ symbols ∧ s.kind? = some k :=
    fun k s hs => ⟨(mem_staticMembers.mp hs).1, (mem_staticMembers.mp hs).2.1⟩
  have hkind : ∀ k, ∀ s ∈ Symbol.ofKind k (Symbol.sorted symbols),
      ∃ es, symbolEntry parser s = .ok es :=
    fun k s hs => hsymbol s (mem_ofKind_sorted.mp hs).1
  refine exists_bind (exists_sectionOf (hkind .constructor)) fun constructors _ => ?_
  refine exists_bind (exists_sectionOf (hkind .interface)) fun interfaces _ => ?_
  refine exists_bind (exists_publicOnes fun s hs => hcomments s (hinstance _ s hs).1)
    fun publicMethods hpublicMethods => ?_
  refine exists_bind (exists_summarySection fun s hs => ?_) fun methodSummary _ => ?_
  · obtain ⟨hs, hk⟩ := hinstance _ s (mem_of_publicOnes hpublicMethods hs)
    exact hsummary s hs hk
  refine exists_bind (exists_publicOnes fun s hs => hcomments s (hstatic _ s hs).1)
    fun publicFunctions hpublicFunctions => ?_
  refine exists_bind (exists_summarySection fun s hs => ?_) fun functionSummary _ => ?_
  · obtain ⟨hs, hk⟩ := hstatic _ s (mem_of_publicOnes hpublicFunctions hs)
    exact hsummary s hs hk
  refine exists_bind (exists_sectionOf (hkind .enumeration)) fun enumerations _ => ?_
  refine exists_bind (exists_sectionOf fun s hs => ?_) fun methods _ => ?_
  · obtain ⟨hs, hk⟩ := hinstance _ s hs
    exact hfunction s hs hk
  refine exists_bind (exists_sectionOf fun s hs => ?_) fun instanceProperties _ => ?_
  · exact exists_ruled_iff.mpr (hsymbol s (hinstance _ s hs).1)
  refine exists_bind (exists_staticMethods fun s hs => ?_) fun functions _ => ?_
  · obtain ⟨hs, hk⟩ := hstatic _ s hs
    exact hfunction s hs hk
  refine exists_bind (exists_sectionOf fun s hs => ?_) fun staticProperties _ => ?_
  · exact exists_ruled_iff.mpr (hsymbol s (hstatic _ s hs).1)
  exact ⟨_, rfl⟩

/-- Every function on a page is described there, so it has a signature. -/
theorem legible_of_content {owner : Text} {symbols : List Symbol} {ns : List Node}
    (h : content parser owner symbols = .ok ns) {s : Symbol} (hs : s ∈ symbols)
    (hk : s.kind? = some .function) {c : Comment} (hc : s.comment? = some c) :
    ¬ Illegible c.flags := by
  obtain ⟨sections, -⟩ := exists_sections_of_content h
  have hentry : ∃ es, ruled (functionEntry parser) s = .ok es := by
    cases hstatic : s.isStatic with
    | false =>
      exact exists_entry_of_sectionOf sections.methods_eq
        (mem_instanceMembers.mpr ⟨hs, hk, hstatic⟩)
    | true =>
      exact exists_entry_of_staticMethods sections.functions_eq
        (mem_staticMembers.mpr ⟨hs, hk, hstatic⟩)
  exact (exists_functionEntry_iff hc).mp (exists_ruled_iff.mp hentry)

/-- **The pages that cannot be made.**  If all symbols have comments, and all instance methods the
property that they go by, then the page of a namespace fails exactly if some function on it, static
or not and whoever may use it, has flags that give no signature.  The flags of other symbols are not
read. -/
theorem content_fails_iff (owner : Text) {symbols : List Symbol}
    (hcomments : ∀ s ∈ symbols, s.comment?.isSome = true)
    (hproperties : ∀ s ∈ symbols, s.kind? = some .function → s.isStatic = false →
      s.property?.isSome = true) :
    (∃ e, content parser owner symbols = .error e) ↔
      ∃ s ∈ symbols, s.kind? = some .function ∧ ∃ c, s.comment? = some c ∧ Illegible c.flags := by
  rw [exists_error_iff]
  constructor
  · intro hfails
    apply Classical.byContradiction
    intro hnone
    apply hfails
    apply exists_content_of_legible owner hcomments hproperties
    intro s hs hk c hc hill
    exact hnone ⟨s, hs, hk, c, hc, hill⟩
  · intro ⟨s, hs, hk, c, hc, hill⟩ ⟨ns, hns⟩
    exact legible_of_content hns hs hk hc hill

/-- A symbol of the namespace itself, with a comment that has the given flags. -/
def flagged (k : Kind) (flags : List Flag) : Symbol :=
  { Symbol.bare "a".toList 0 0 with
    comment? := some { text := [], start := 0, stop := 0, flags, descriptions := [] }
    kind? := some k
    static? := some true }

/-- A parameter without a type cannot be read.  On a constructor it does no harm, on a private
function it does. -/
theorem content_fails_iff_untyped :
    ¬ (∃ e, content fragment [] [flagged .constructor [⟨"@param".toList, "x".toList⟩]] = .error e) ∧
      ∃ e, content fragment [] [flagged .constructor [⟨"@param".toList, "x".toList⟩],
        flagged .function [⟨"@private".toList, []⟩, ⟨"@param".toList, "x".toList⟩]] = .error e := by
  constructor
  · rw [content_fails_iff [] (by decide) (by decide)]
    rintro ⟨s, hs, hk, -⟩
    obtain rfl := List.mem_singleton.mp hs
    exact absurd hk (by decide)
  · rw [content_fails_iff [] (by decide) (by decide)]
    refine ⟨_, List.mem_cons_of_mem _ List.mem_cons_self, rfl, _, rfl, ?_⟩
    exact .parameter (List.mem_cons_of_mem _ List.mem_cons_self) rfl rfl

end ScriptDocs.Page
