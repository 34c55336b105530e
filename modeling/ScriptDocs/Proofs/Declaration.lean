import Mathlib.Data.List.Infix
import ScriptDocs.Declaration
import ScriptDocs.Proofs.Text

/-!
# Where the argument of a call ends

A script declares namespaces by calls, one to a line.  The reader of a line does not end the
argument at the quote that closes it, but at the last quote of the line with a parenthesis behind
it.  So what follows a call on its line does not matter, unless it has such a quote, too; then the
rest of the call and all up to that quote are taken for part of the name.

* `Closing`: a quote, blanks and a parenthesis; `Unclosed` and `LastClosing`: a text that has none,
  and the last of a text.
* `argument?_of_lastClosing`: the argument reaches to the last of them.
* `Call`: a call as it can be laid out, and `Call.line`, the line that begins with it.
* `passedTo_line`: a line of a script, and the lines around it.
* `calls_declare_iff`: what is declared by a call with any text behind it.
* `second_call_taken_in`: two calls on a line, of which a name is made that nobody gave.
-/

namespace ScriptDocs.Declaration

open Text

/-! ### Closing marks -/

/-- A quote stands here, and a parenthesis behind it, or behind blanks. -/
def Closing (t : Text) : Prop :=
  ∃ q gap rest, t = q :: (gap ++ ')' :: rest) ∧ isQuote q = true ∧ ∀ b ∈ gap, isBlank b = true

theorem closes_iff {t : Text} : closes t = true ↔ Closing t := by
  constructor
  · intro h
    cases t with
    | nil => cases h
    | cons q t =>
      simp only [closes, Bool.and_eq_true, decide_eq_true_eq] at h
      obtain ⟨hq, hhead⟩ := h
      obtain ⟨rest, hrest⟩ := List.head?_eq_some_iff.mp hhead
      refine ⟨q, t.takeWhile isBlank, rest, ?_, hq, fun _ => List.mem_takeWhile_imp⟩
      rw [← hrest, trimStart, List.takeWhile_append_dropWhile]
  · intro h
    obtain ⟨q, gap, rest, ht, hq, hgap⟩ := h
    rw [ht, closes, trimStart_append_cons hgap (by decide), hq]
    rfl

theorem not_closing_cons {c : Char} (hc : isQuote c = false) (t : Text) : ¬ Closing (c :: t) := by
  intro h
  obtain ⟨q, gap, rest, heq, hq, -⟩ := h
  obtain ⟨rfl, -⟩ := List.cons.inj heq
  rw [hc] at hq
  cases hq

/-- A text in which no call is closed. -/
def Unclosed (t : Text) : Prop := ∀ v, v <:+ t → ¬ Closing v

instance (t : Text) : Decidable (Unclosed t) :=
  decidable_of_iff ((t.tails.all fun v => !closes v) = true) <| by
    simp only [List.all_eq_true, List.mem_tails, Bool.not_eq_true', ← Bool.not_eq_true, closes_iff]
    rfl

theorem unclosed_nil : Unclosed [] := by
  intro v hv
  rw [List.suffix_nil.mp hv]
  intro h
  obtain ⟨q, gap, rest, heq, -⟩ := h
  cases heq

theorem unclosed_cons_iff {c : Char} {t : Text} :
    Unclosed (c :: t) ↔ ¬ Closing (c :: t) ∧ Unclosed t := by
  constructor
  · intro h
    exact ⟨h _ (List.suffix_refl _), fun v hv => h v (hv.trans (List.suffix_cons c t))⟩
  · intro h v hv
    obtain ⟨hhere, hrest⟩ := h
    rcases List.suffix_cons_iff.mp hv with rfl | hv
    · exact hhere
    · exact hrest v hv

/-- Characters that are no quotes do not close a call. -/
theorem Unclosed.append_of_not_quote {p t : Text} (h : Unclosed t)
    (hp : ∀ c ∈ p, isQuote c = false) : Unclosed (p ++ t) := by
  induction p with
  | nil => exact h
  | cons c p ih =>
    obtain ⟨hc, hp⟩ := List.forall_mem_cons.mp hp
    exact unclosed_cons_iff.mpr ⟨not_closing_cons hc _, ih hp⟩

/-- The last place of a text where a call is closed lies between `u` and `v`. -/
structure LastClosing (t u v : Text) : Prop where
  eq : t = u ++ v
  closing : Closing v
  last : Unclosed v.tail

theorem LastClosing.append {t u v : Text} (h : LastClosing t u v) (p : Text) :
    LastClosing (p ++ t) (p ++ u) v :=
  ⟨by rw [h.eq, List.append_assoc], h.closing, h.last⟩

theorem unclosed_or_lastClosing (t : Text) : Unclosed t ∨ ∃ u v, LastClosing t u v := by
  induction t with
  | nil => exact Or.inl unclosed_nil
  | cons c t ih =>
    rcases ih with hnone | ⟨u, v, hlast⟩
    · by_cases hhere : Closing (c :: t)
      · exact Or.inr ⟨[], c :: t, rfl, hhere, hnone⟩
      · exact Or.inl (unclosed_cons_iff.mpr ⟨hhere, hnone⟩)
    · exact Or.inr ⟨c :: u, v, hlast.append [c]⟩

/-! ### Arguments -/

/-- An argument is not empty, so it is not closed at the beginning of the text. -/
theorem argument?_eq_none_iff {t : Text} : argument? t = none ↔ Unclosed t.tail := by
  induction t with
  | nil => exact iff_of_true rfl unclosed_nil
  | cons c t ih =>
    have hhere : argument? (c :: t) = none ↔ argument? t = none ∧ ¬ Closing t := by
      rw [argument?, ← closes_iff]
      cases argument? t with
      | none => simp
      | some rest => simp
    rw [hhere, ih, List.tail_cons]
    cases t with
    | nil => exact iff_of_true ⟨unclosed_nil, unclosed_nil _ (List.suffix_refl _)⟩ unclosed_nil
    | cons d t => rw [List.tail_cons, unclosed_cons_iff, and_comm]

/-- **The argument reaches to the last place where a call is closed.** -/
theorem argument?_of_lastClosing {t u v : Text} (h : LastClosing t u v) (hne : u ≠ []) :
    argument? t = some u := by
  rw [h.eq]
  induction u generalizing t with
  | nil => exact absurd rfl hne
  | cons c u ih =>
    rw [List.cons_append, argument?]
    cases u with
    | nil =>
      rw [List.nil_append, argument?_eq_none_iff.mpr h.last, if_pos (closes_iff.mpr h.closing)]
    | cons d u => rw [ih ⟨rfl, h.closing, h.last⟩ (by simp)]

/-! ### Calls -/

/-- A call with a quoted argument, as it can be laid out on a line. -/
structure Call where
  lead : Text
  before : Text
  opener : Char
  name : Text
  closer : Char
  after : Text
  lead_blank : ∀ c ∈ lead, isBlank c = true ∧ isLineBreak c = false
  before_blank : ∀ c ∈ before, isBlank c = true ∧ isLineBreak c = false
  opener_quote : isQuote opener = true
  name_ne : name ≠ []
  name_inline : ∀ c ∈ name, isLineBreak c = false
  closer_quote : isQuote closer = true
  after_blank : ∀ c ∈ after, isBlank c = true ∧ isLineBreak c = false

theorem isBlank_of_isQuote {c : Char} (h : isQuote c = true) : isBlank c = false := by
  simp only [isQuote, Bool.or_eq_true, decide_eq_true_eq] at h
  rcases h with rfl | rfl
  · decide
  · decide

theorem isQuote_of_isBlank {c : Char} (h : isBlank c = true) : isQuote c = false := by
  cases hq : isQuote c with
  | false => rfl
  | true => rw [isBlank_of_isQuote hq] at h; cases h

theorem isLineBreak_of_not_blank {c : Char} (h : isBlank c = false) : isLineBreak c = false := by
  cases hb : isLineBreak c with
  | false => rfl
  | true => rw [isBlank_of_isLineBreak hb] at h; cases h

namespace Call

def argument (c : Call) (rest : Text) : Text :=
  c.name ++ c.closer :: (c.after ++ ')' :: rest)

def line (c : Call) (function rest : Text) : Text :=
  c.lead ++ (function ++ '(' :: (c.before ++ c.opener :: c.argument rest))

variable {function : Text}

theorem passed?_line (c : Call) (hne : function ≠ [])
    (hfunction : ∀ x ∈ function, isBlank x = false)
    (rest : Text) : passed? function (c.line function rest) = argument? (c.argument rest) := by
  have hstart : trimStart (c.line function rest) =
      (function ++ ['(']) ++ (c.before ++ c.opener :: c.argument rest) := by
    obtain ⟨x, xs, rfl⟩ := List.exists_cons_of_ne_nil hne
    rw [line, List.cons_append, trimStart_append_cons (fun b hb => (c.lead_blank b hb).1)
      (hfunction x (by simp))]
    simp
  have hopened : trimStart (c.before ++ c.opener :: c.argument rest) =
      c.opener :: c.argument rest :=
    trimStart_append_cons (fun b hb => (c.before_blank b hb).1)
      (isBlank_of_isQuote c.opener_quote) _
  have hprefix : (function ++ ['(']).isPrefixOf? (trimStart (c.line function rest)) =
      some (c.before ++ c.opener :: c.argument rest) :=
    List.isPrefixOf?_eq_some_iff_append_eq.mpr hstart.symm
  simp only [passed?, hprefix, hopened, c.opener_quote, if_true]

theorem line_inline (c : Call) (hfunction : ∀ x ∈ function, isBlank x = false) {rest : Text}
    (hrest : ∀ x ∈ rest, isLineBreak x = false) :
    ∀ x ∈ c.line function rest, isLineBreak x = false := by
  have hopener := isLineBreak_of_not_blank (isBlank_of_isQuote c.opener_quote)
  have hcloser := isLineBreak_of_not_blank (isBlank_of_isQuote c.closer_quote)
  simp only [line, argument, List.forall_mem_append, List.forall_mem_cons]
  exact ⟨fun x hx => (c.lead_blank x hx).2, fun x hx => isLineBreak_of_not_blank (hfunction x hx),
    by decide, fun x hx => (c.before_blank x hx).2, hopener, c.name_inline, hcloser,
    fun x hx => (c.after_blank x hx).2, by decide, hrest⟩

/-- **With nothing behind it that closes a call, the argument is the name.** -/
theorem argument?_of_unclosed (c : Call) {rest : Text} (h : Unclosed rest) :
    argument? (c.argument rest) = some c.name := by
  refine argument?_of_lastClosing ⟨rfl, ?_, ?_⟩ c.name_ne
  · exact ⟨c.closer, c.after, rest, rfl, c.closer_quote, fun b hb => (c.after_blank b hb).1⟩
  · have htail : (c.closer :: (c.after ++ ')' :: rest)).tail = (c.after ++ [')']) ++ rest := by simp
    rw [htail]
    refine h.append_of_not_quote ?_
    simp only [List.forall_mem_append, List.forall_mem_singleton]
    exact ⟨fun b hb => isQuote_of_isBlank (c.after_blank b hb).1, by decide⟩

/-- **Otherwise it goes on up to the last place where one is closed.** -/
theorem argument?_of_closing (c : Call) {rest u v : Text} (h : LastClosing rest u v) :
    argument? (c.argument rest) = some (c.argument u) := by
  have hlast := h.append (c.name ++ c.closer :: (c.after ++ [')']))
  have hmove : ∀ x, (c.name ++ c.closer :: (c.after ++ [')'])) ++ x = c.argument x := by
    intro x
    simp [argument]
  rw [hmove, hmove] at hlast
  refine argument?_of_lastClosing hlast ?_
  simp [argument]

theorem argument_ne_name (c : Call) (u : Text) : c.argument u ≠ c.name := by
  intro h
  have hlength := congrArg List.length h
  simp only [argument, List.length_append, List.length_cons] at hlength
  omega

end Call

/-! ### Scripts -/

/-- Where a line ends, the calls in front of it and behind it are found apart. -/
theorem passedTo_line {function front l behind : Text} (hne : l ≠ [])
    (hl : ∀ x ∈ l, isLineBreak x = false)
    (hfront : ∀ x, front.getLast? = some x → isLineBreak x = true)
    (hbehind : ∀ x, behind.head? = some x → isLineBreak x = true) :
    passedTo function (front ++ (l ++ behind)) =
      passedTo function front ++ ((passed? function l).toList ++ passedTo function behind) := by
  have hhead : (l ++ behind).head? ≠ some '\n' := by
    rw [List.head?_append_of_ne_nil _ hne]
    intro h
    exact absurd (hl _ (List.mem_of_mem_head? h)) (by decide)
  have hempty : passed? function [] = none := by
    rw [passed?, show trimStart [] = [] from rfl]
    cases function with
    | nil => rfl
    | cons x xs => rfl
  -- the first line behind the break is empty, and declares nothing
  have htail : (lines behind).tail.filterMap (passed? function) = passedTo function behind := by
    have hfirst := head?_lines_of_break hbehind
    rw [passedTo]
    cases hlines : lines behind with
    | nil => rfl
    | cons first rest =>
      rw [hlines] at hfirst
      rw [List.filterMap_cons, show first = [] from hfirst, hempty]
      rfl
  rw [passedTo, lines_append hfront hhead, lines_append_break hne hl hbehind, List.filterMap_append,
    List.filterMap_cons, htail]
  cases passed? function l with
  | none => rfl
  | some a => rfl

/-- What is found in a script with a call on a line: the name, exactly if nothing behind the call on
its line closes one, and else all up to the last place that does. -/
structure Declares (found : Text → List Text) (function : Text) (c : Call)
    (front rest behind : Text) : Prop where
  name_iff : found (front ++ (c.line function rest ++ behind)) =
    found front ++ c.name :: found behind ↔ Unclosed rest
  same_iff : found (front ++ (c.line function rest ++ behind)) =
    found (front ++ (c.line function [] ++ behind)) ↔ Unclosed rest
  longer : ∀ u v, LastClosing rest u v → found (front ++ (c.line function rest ++ behind)) =
    found front ++ c.argument u :: found behind

theorem declares_passedTo (c : Call) {function front rest behind : Text} (hne : function ≠ [])
    (hfunction : ∀ x ∈ function, isBlank x = false)
    (hfront : ∀ x, front.getLast? = some x → isLineBreak x = true)
    (hrest : ∀ x ∈ rest, isLineBreak x = false)
    (hbehind : ∀ x, behind.head? = some x → isLineBreak x = true) :
    Declares (passedTo function) function c front rest behind := by
  have hline : ∀ r a, (∀ x ∈ r, isLineBreak x = false) → argument? (c.argument r) = some a →
      passedTo function (front ++ (c.line function r ++ behind)) =
        passedTo function front ++ a :: passedTo function behind := by
    intro r a hr ha
    have hl : c.line function r ≠ [] := by simp [Call.line]
    rw [passedTo_line hl (c.line_inline hfunction hr) hfront hbehind,
      c.passed?_line hne hfunction, ha]
    rfl
  have halone := hline [] c.name (by simp) (c.argument?_of_unclosed unclosed_nil)
  have hname : Unclosed rest → passedTo function (front ++ (c.line function rest ++ behind)) =
      passedTo function front ++ c.name :: passedTo function behind := by
    intro h
    exact hline rest c.name hrest (c.argument?_of_unclosed h)
  have hlonger : ∀ u v, LastClosing rest u v →
      passedTo function (front ++ (c.line function rest ++ behind)) =
        passedTo function front ++ c.argument u :: passedTo function behind := by
    intro u v h
    exact hline rest _ hrest (c.argument?_of_closing h)
  have hunclosed : passedTo function (front ++ (c.line function rest ++ behind)) =
      passedTo function front ++ c.name :: passedTo function behind → Unclosed rest := by
    intro h
    rcases unclosed_or_lastClosing rest with hnone | ⟨u, v, hlast⟩
    · exact hnone
    · rw [hlonger u v hlast] at h
      exact absurd (List.cons.inj (List.append_cancel_left h)).1 (c.argument_ne_name u)
  refine ⟨⟨hunclosed, hname⟩, ?_, hlonger⟩
  rw [halone]
  exact ⟨hunclosed, hname⟩

theorem not_blank_of_squeeze {t : Text} (h : squeeze t = t) : ∀ x ∈ t, isBlank x = false := by
  intro x hx
  simpa using List.filter_eq_self.mp h x hx

/-- **What a call declares depends on the rest of its line.**  A line that begins with a call adds
the name to what is declared in front of the line and behind it, and what follows the call changes
nothing, exactly if no call is closed in it.  Otherwise the argument goes on, through the end of the
call, up to the last place where one is closed. -/
theorem calls_declare_iff (c : Call) {front rest behind : Text}
    (hfront : ∀ x, front.getLast? = some x → isLineBreak x = true)
    (hrest : ∀ x ∈ rest, isLineBreak x = false)
    (hbehind : ∀ x, behind.head? = some x → isLineBreak x = true) :
    Declares provides "goog.provide".toList c front rest behind ∧
      Declares requires "goog.require".toList c front rest behind :=
  ⟨declares_passedTo c (by decide) (not_blank_of_squeeze (by decide)) hfront hrest hbehind,
    declares_passedTo c (by decide) (not_blank_of_squeeze (by decide)) hfront hrest hbehind⟩

theorem inline_space : ∀ c ∈ [' '], isBlank c = true ∧ isLineBreak c = false :=
  List.forall_mem_singleton.mpr (by decide)

/-- The call `( "a.b" )`, with a blank wherever one may stand. -/
def spaced : Call where
  lead := [' ']
  before := [' ']
  opener := '"'
  name := "a.b".toList
  closer := '"'
  after := [' ']
  lead_blank := inline_space
  before_blank := inline_space
  opener_quote := rfl
  name_ne := by decide
  name_inline := fun c hc => isLineBreak_of_not_blank (not_blank_of_squeeze (by decide) c hc)
  closer_quote := rfl
  after_blank := inline_space

/-- A remark with a quote and a parenthesis, but not one behind the other. -/
def remark : Text := "; // it's (a)".toList

theorem calls_declare_iff_remark :
    Unclosed remark ∧
    provides (['x', '\n'] ++ (spaced.line "goog.provide".toList remark ++ ['\r', '\n'])) =
      provides ['x', '\n'] ++ "a.b".toList :: provides ['\r', '\n'] ∧
    requires (['x', '\n'] ++ (spaced.line "goog.require".toList remark ++ ['\r', '\n'])) =
      requires ['x', '\n'] ++ "a.b".toList :: requires ['\r', '\n'] := by
  have hremark : Unclosed remark := by decide
  have hall : ∀ x ∈ remark, (!isLineBreak x) = true := List.all_eq_true.mp (by decide)
  have hrest : ∀ x ∈ remark, isLineBreak x = false := by
    intro x hx
    simpa using hall x hx
  have hfront : ∀ x, (['x', '\n'] : Text).getLast? = some x → isLineBreak x = true := by
    intro x hx
    obtain rfl := Option.some.inj hx
    decide
  have hbehind : ∀ x, (['\r', '\n'] : Text).head? = some x → isLineBreak x = true := by
    intro x hx
    obtain rfl := Option.some.inj hx
    decide
  obtain ⟨hprovides, hrequires⟩ := calls_declare_iff spaced hfront hrest hbehind
  exact ⟨hremark, hprovides.name_iff.mpr hremark, hrequires.name_iff.mpr hremark⟩

/-- **Two calls on a line make a name that nobody gave.**  Without the second call, the first one
declares its own. -/
theorem second_call_taken_in :
    provides "goog.provide('a'); goog.require('b');".toList = ["a'); goog.require('b".toList] ∧
    provides "goog.provide('a');".toList = ["a".toList] := by
  exact ⟨by decide, by decide⟩

end ScriptDocs.Declaration
