import ScriptDocs.Page.Signature
import ScriptDocs.Proofs.Flag.Typed

/-!
# Descriptions of parameters, and their signatures

The text of a flag describes a parameter if it can be laid out as blanks, a type in braces, blanks,
a name and a text.  There may be several ways to do so, since a type may have closing braces of its
own.  The one that counts ends the type at the first brace with a name behind it, and takes as much
for the name as it can; `Parameter.read` gives its parts.

A signature prints the type and the name again, the type without the blanks at its ends.  That is a
layout, too: the blanks that are left out did not keep an earlier brace from ending the type.

* `NameFollows`: where a type can end (`beginsName_iff`).
* `Parameter.Layout`: a description by its parts, and `Parameter.Layout.read`, what is read of it.
* `Parameter.read_laidOut`: the texts that describe a parameter, and what becomes of all others.
* `Parameter.Layout.printed`: the layout of a signature.
* `signatures_read_back`: signatures of parameters and of return values, read again.
-/

namespace ScriptDocs

open Text

/-! ### Names behind a brace -/

/-- One or more blanks stand here, and a character of a name behind them. -/
def NameFollows (t : Text) : Prop :=
  ∃ gap c rest, t = gap ++ c :: rest ∧ gap ≠ [] ∧ (∀ b ∈ gap, isBlank b = true) ∧
    isWord c = true

theorem beginsName_iff {t : Text} : beginsName t = true ↔ NameFollows t := by
  constructor
  · intro h
    cases t with
    | nil => cases h
    | cons b t =>
      rw [beginsName, Bool.and_eq_true] at h
      obtain ⟨hb, hname⟩ := h
      cases htrim : trimStart t with
      | nil => rw [htrim] at hname; cases hname
      | cons c rest =>
        rw [htrim] at hname
        refine ⟨b :: t.takeWhile isBlank, c, rest, ?_, by simp, ?_, hname⟩
        · rw [← htrim, trimStart, List.cons_append, List.takeWhile_append_dropWhile]
        · intro x hx
          rcases List.mem_cons.mp hx with rfl | hx
          · exact hb
          · exact List.mem_takeWhile_imp hx
  · intro h
    obtain ⟨gap, c, rest, ht, hne, hgap, hc⟩ := h
    obtain ⟨b, gap, rfl⟩ := List.exists_cons_of_ne_nil hne
    obtain ⟨hb, hgap⟩ := List.forall_mem_cons.mp hgap
    rw [ht, List.cons_append, beginsName, trimStart_append_cons hgap (isBlank_of_isWord hc), hb]
    exact hc

theorem not_nameFollows_iff {t : Text} : ¬ NameFollows t ↔ beginsName t = false := by
  rw [← beginsName_iff, Bool.not_eq_true]

theorem NameFollows.append {t : Text} (h : NameFollows t) (rest : Text) :
    NameFollows (t ++ rest) := by
  obtain ⟨gap, c, behind, rfl, hne, hgap, hc⟩ := h
  exact ⟨gap, c, behind ++ rest, by simp, hne, hgap, hc⟩

/-- What stands behind a brace does not make a name follow in front of it. -/
theorem nameFollows_append_brace {t rest : Text} :
    NameFollows (t ++ '}' :: rest) ↔ NameFollows t := by
  rw [← beginsName_iff, ← beginsName_iff, beginsName_append_brace]

/-! ### Layouts -/

namespace Parameter

/-- The parts of a text that describes a parameter.  The type ends at its first closing brace with a
name behind it, and the name is as long as it can be. -/
structure Layout where
  lead : Text
  type : Text
  gap : Text
  name : Text
  text : Text
  lead_blank : ∀ c ∈ lead, isBlank c = true
  gap_ne : gap ≠ []
  gap_blank : ∀ c ∈ gap, isBlank c = true
  name_ne : name ≠ []
  name_word : ∀ c ∈ name, isWord c = true
  name_ends : ∀ c, text.head? = some c → isWord c = false
  first : ∀ u v, type = u ++ '}' :: v → ¬ NameFollows (v ++ '}' :: (gap ++ (name ++ text)))

namespace Layout

def rest (l : Layout) : Text := l.gap ++ (l.name ++ l.text)

def written (l : Layout) : Text := l.lead ++ '{' :: (l.type ++ '}' :: l.rest)

def parameter (l : Layout) : Parameter := ⟨l.name, trim l.type, trim l.text⟩

theorem trimStart_written (l : Layout) : trimStart l.written = '{' :: (l.type ++ '}' :: l.rest) :=
  trimStart_append_cons l.lead_blank (by decide) _

theorem trimStart_rest (l : Layout) : trimStart l.rest = l.name ++ l.text := by
  rw [rest, trimStart_append_of_blank l.gap_blank, trimStart_name l.name_ne l.name_word]

theorem takeWhile_name (l : Layout) : (l.name ++ l.text).takeWhile isWord = l.name := by
  rw [takeWhile_append_of_head l.name_ends, List.takeWhile_eq_self_iff.mpr l.name_word]

theorem dropWhile_name (l : Layout) : (l.name ++ l.text).dropWhile isWord = l.text := by
  rw [dropWhile_append_of_head l.name_ends, List.dropWhile_eq_nil_iff.mpr l.name_word,
    List.nil_append]

theorem nameFollows_rest (l : Layout) : NameFollows l.rest := by
  obtain ⟨c, cs, hname⟩ := List.exists_cons_of_ne_nil l.name_ne
  refine ⟨l.gap, c, cs ++ l.text, ?_, l.gap_ne, l.gap_blank, l.name_word c (by simp [hname])⟩
  rw [rest, hname, List.cons_append]

theorem closesAt (l : Layout) : ClosesAt beginsName l.type l.rest := by
  refine ⟨beginsName_iff.mpr l.nameFollows_rest, ?_⟩
  intro u v huv
  exact not_nameFollows_iff.mp (l.first u v huv)

/-- **A layout is read as its parts.** -/
theorem read (l : Layout) : Parameter.read l.written = .ok l.parameter := by
  refine read_eq_ok_iff.mpr ⟨l.type, l.rest, l.trimStart_written, l.closesAt, ?_⟩
  rw [l.trimStart_rest, l.takeWhile_name, l.dropWhile_name]
  rfl

end Layout

/-- **What is read has a layout.**  The blanks, the name and the text behind the type are cut where
the class of the characters changes. -/
theorem exists_layout {x : Text} {p : Parameter} (h : Parameter.read x = .ok p) :
    ∃ l : Layout, l.written = x ∧ l.parameter = p := by
  obtain ⟨a, b, hx, hcloses, rfl⟩ := read_eq_ok_iff.mp h
  obtain ⟨gap, c, cs, hb, hgap_ne, hgap, hc⟩ := beginsName_iff.mp hcloses.accepted
  have hname : trimStart b = c :: cs := by
    rw [hb, trimStart_append_cons hgap (isBlank_of_isWord hc)]
  have hrest : gap ++ ((c :: cs).takeWhile isWord ++ (c :: cs).dropWhile isWord) = b := by
    rw [List.takeWhile_append_dropWhile, hb]
  have hname_ne : (c :: cs).takeWhile isWord ≠ [] := by
    rw [List.takeWhile_cons_of_pos hc]
    simp
  have hname_ends : ∀ d, ((c :: cs).dropWhile isWord).head? = some d → isWord d = false :=
    fun _ hd => eq_false_of_head?_dropWhile hd
  have hfirst : ∀ u v, a = u ++ '}' :: v → ¬ NameFollows (v ++ '}' ::
      (gap ++ ((c :: cs).takeWhile isWord ++ (c :: cs).dropWhile isWord))) := by
    intro u v huv
    rw [hrest]
    exact not_nameFollows_iff.mpr (hcloses.first u v huv)
  refine ⟨⟨x.takeWhile isBlank, a, gap, (c :: cs).takeWhile isWord, (c :: cs).dropWhile isWord,
    fun _ => List.mem_takeWhile_imp, hgap_ne, hgap, hname_ne, fun _ => List.mem_takeWhile_imp,
    hname_ends, hfirst⟩, ?_, ?_⟩
  · rw [Layout.written, Layout.rest, hrest, ← hx, trimStart, List.takeWhile_append_dropWhile]
  · rw [Layout.parameter, hname]

/-- A text with a brace behind its blanks, and a closing brace with a name behind it. -/
def IsDescribed (x : Text) : Prop :=
  ∃ lead front rest, x = lead ++ '{' :: (front ++ '}' :: rest) ∧ (∀ c ∈ lead, isBlank c = true) ∧
    NameFollows rest

theorem exists_read_iff {x : Text} : (∃ p, Parameter.read x = .ok p) ↔ IsDescribed x := by
  constructor
  · intro h
    obtain ⟨p, hp⟩ := h
    obtain ⟨l, hl, -⟩ := exists_layout hp
    exact ⟨l.lead, l.type, l.rest, hl.symm, l.lead_blank, l.nameFollows_rest⟩
  · intro h
    obtain ⟨lead, front, rest, hx, hlead, hname⟩ := h
    -- the brace at hand need not be the first one, but then there is one in front of it
    obtain ⟨a, b, heq, hcloses, -⟩ := exists_closesAt (beginsName_iff.mpr hname) front
    refine ⟨_, read_eq_ok_iff.mpr ⟨a, b, ?_, hcloses, rfl⟩⟩
    rw [hx, trimStart_append_cons hlead (by decide), ← heq]

theorem read_eq_error {x : Text} {f : Fault} (h : Parameter.read x = .error f) :
    f = .unreadableFlag x := by
  unfold Parameter.read at h
  split at h
  · exact (Except.error.inj h).symm
  · cases h

theorem read_eq_error_iff {x : Text} {f : Fault} :
    Parameter.read x = .error f ↔ ¬ IsDescribed x ∧ f = .unreadableFlag x := by
  rw [← exists_read_iff]
  constructor
  · intro h
    refine ⟨?_, read_eq_error h⟩
    intro hread
    obtain ⟨p, hp⟩ := hread
    cases hp.symm.trans h
  · intro h
    obtain ⟨hnone, hf⟩ := h
    cases hread : Parameter.read x with
    | ok p => exact absurd ⟨p, hread⟩ hnone
    | error g => rw [hf, read_eq_error hread]

/-- **The texts that describe a parameter.**  A text does if it has an opening brace behind its
blanks, and anywhere behind that a closing one with a name behind it.  Then it has a layout, in
which the type ends at the first such brace and the name is as long as it can be, and the parameter
has that name, and the type and the text without blanks at their ends.  Any other text is a fault,
which quotes it. -/
theorem read_laidOut (x : Text) :
    ((∃ p, Parameter.read x = .ok p) ↔ IsDescribed x) ∧
    (∀ p, Parameter.read x = .ok p ↔ ∃ l : Layout, l.written = x ∧ l.parameter = p) ∧
    (∀ f, Parameter.read x = .error f ↔ ¬ IsDescribed x ∧ f = .unreadableFlag x) ∧
    (Fault.unreadableFlag x).message = "Could not parse flag description: ".toList ++ x := by
  refine ⟨exists_read_iff, ?_, fun f => read_eq_error_iff, rfl⟩
  intro p
  refine ⟨exists_layout, ?_⟩
  intro h
  obtain ⟨l, hx, hp⟩ := h
  rw [← hx, ← hp]
  exact l.read

/-- The brace in the first line has no name behind it, and the text goes on to the end. -/
example : Parameter.read "{a} {b}\n x y\n z".toList =
    .ok ⟨"x".toList, "a\x7d \x7bb".toList, "y\n z".toList⟩ := by decide

end Parameter

/-! ### Signatures -/

/-- **Without the blanks at its ends, a type has no earlier end.**  A brace in it is a brace of the
whole type, with the same characters behind it up to the last that is not blank. -/
theorem not_nameFollows_trim {t u v : Text}
    (hfirst : ∀ u v, t = u ++ '}' :: v → ¬ NameFollows v) (huv : trim t = u ++ '}' :: v) :
    ¬ NameFollows v := by
  obtain ⟨a, b, ht⟩ := isInfix_trim t
  intro h
  refine hfirst (a ++ u) (v ++ b) ?_ (h.append b)
  rw [← ht, huv]
  simp

namespace Parameter.Layout

/-- The layout of the signature: no blanks in front, one behind the type, and no text. -/
def printed (l : Layout) : Layout where
  lead := []
  type := trim l.type
  gap := [' ']
  name := l.name
  text := []
  lead_blank := by simp
  gap_ne := by simp
  gap_blank := fun c hc => by rw [List.mem_singleton.mp hc]; decide
  name_ne := l.name_ne
  name_word := l.name_word
  name_ends := by simp
  first := by
    intro u v huv
    rw [nameFollows_append_brace]
    refine not_nameFollows_trim ?_ huv
    intro u v huv hname
    exact l.first u v huv (nameFollows_append_brace.mpr hname)

theorem written_printed (l : Layout) : l.printed.written = l.parameter.signature := by
  show '{' :: (trim l.type ++ '}' :: (' ' :: (l.name ++ []))) = _
  rw [List.append_nil]
  rfl

theorem parameter_printed (l : Layout) :
    l.printed.parameter = ⟨l.parameter.name, l.parameter.type, []⟩ := by
  show (⟨l.name, trim (trim l.type), []⟩ : Parameter) = ⟨l.name, trim l.type, []⟩
  rw [trim_trim]

end Parameter.Layout

theorem Parameter.read_signature {x : Text} {p : Parameter} (h : Parameter.read x = .ok p) :
    Parameter.read p.signature = .ok ⟨p.name, p.type, []⟩ := by
  obtain ⟨l, -, rfl⟩ := exists_layout h
  rw [← l.written_printed, l.printed.read, l.parameter_printed]

theorem Returned.read_signature {x : Text} {r : Returned} (h : Returned.read x = .ok r) :
    Returned.read r.signature = .ok ⟨r.type, []⟩ := by
  obtain ⟨a, b, -, hnone, rfl⟩ := Returned.read_eq_ok_iff.mp h
  refine Returned.read_eq_ok_iff.mpr ⟨trim a, [], ?_, ?_, ?_⟩
  · exact trimStart_cons (by decide) _
  · intro hmem
    exact hnone ((isInfix_trim a).subset hmem)
  · rw [trim_trim]
    rfl

/-- **Signatures are read back.**  What a signature prints of a parameter is read as the same name
and type and no text, and what it prints of a return value as the same type and no text. -/
theorem signatures_read_back :
    (∀ x p, Parameter.read x = .ok p → Page.parameterOf ⟨"@param".toList, x⟩ = .ok p ∧
      Parameter.read p.signature = .ok ⟨p.name, p.type, []⟩) ∧
    ∀ x r, Returned.read x = .ok r → Page.returnedOf ⟨"@return".toList, x⟩ = .ok r ∧
      Returned.read r.signature = .ok ⟨r.type, []⟩ := by
  refine ⟨?_, ?_⟩
  · intro x p h
    exact ⟨h, Parameter.read_signature h⟩
  · intro x r h
    exact ⟨h, Returned.read_signature h⟩

/-- A record type with blanks around it, for which the brace at its end comes to stand before the
one that closes the type. -/
theorem signatures_read_back_record :
    Parameter.read (braced (' ' :: recordType ++ [' ']) "x c".toList) =
      .ok ⟨"x".toList, recordType, "c".toList⟩ ∧
    Parameter.read ('{' :: recordType ++ '}' :: " x".toList) =
      .ok ⟨"x".toList, recordType, []⟩ ∧
    Returned.read (braced " \x7ba ".toList "c".toList) = .ok ⟨"\x7ba".toList, "c".toList⟩ ∧
    Returned.read ('{' :: "\x7ba".toList ++ ['}']) = .ok ⟨"\x7ba".toList, []⟩ := by
  have hparameter : Parameter.read (braced (' ' :: recordType ++ [' ']) "x c".toList) =
      .ok ⟨"x".toList, recordType, "c".toList⟩ := by decide
  have hreturned : Returned.read (braced " \x7ba ".toList "c".toList) =
      .ok ⟨"\x7ba".toList, "c".toList⟩ := by decide
  exact ⟨hparameter, (signatures_read_back.1 _ _ hparameter).2, hreturned,
    (signatures_read_back.2 _ _ hreturned).2⟩

end ScriptDocs
