import ScriptDocs.Html.Node
import ScriptDocs.Proofs.List

/-!
# Passages

A reader finds what nodes are about by their headings.  `passages` takes nodes apart at the elements
of one name: each such element is a heading, and what follows it, up to the next one, is its
passage.  Nodes that come one behind the other have their passages one behind the other, as long as
each begins with a heading (`passages_append`).
-/

namespace ScriptDocs.Html

def Node.isNamed (name : Text) : Node → Bool
  | .element n _ _ => n = name
  | _ => false

/-- The text that nodes consist of, if they are nothing else. -/
def textOnly? : List Node → Option Text
  | [.text t] => some t
  | _ => none

def Node.label : Node → Text
  | .element _ _ children => (textOnly? children).getD []
  | _ => []

def labels (name : Text) (ns : List Node) : List Text := (ns.filter (·.isNamed name)).map Node.label

/-- The elements of a name, by their texts, each with the nodes behind it up to the next one. -/
def passages (name : Text) : List Node → List (Text × List Node)
  | [] => []
  | n :: ns =>
    if n.isNamed name then (n.label, ns.takeWhile fun m => !m.isNamed name) :: passages name ns
    else passages name ns

/-- All nodes are elements of the names. -/
def Within (names : List Text) (ns : List Node) : Prop :=
  ∀ n ∈ ns, ∃ name ∈ names, n.isNamed name = true

theorem label_element (name : Text) (attributes : List Attribute) (content : Text) :
    (Node.element name attributes (if content.isEmpty then [] else [.text content])).label =
      content := by
  cases content with
  | nil => rfl
  | cons c cs => rfl

theorem label_labelled (name content : Text) : (Node.labelled name content).label = content :=
  label_element name [] content

theorem isNamed_element (name : Text) (attributes : List Attribute) (children : List Node) :
    (Node.element name attributes children).isNamed name = true := decide_eq_true rfl

theorem isNamed_of_ne {n : Node} {name other : Text} (h : n.isNamed name = true)
    (hne : name ≠ other) : n.isNamed other = false := by
  cases n with
  | text t => rfl
  | comment t => rfl
  | element name' attributes children =>
    have hname : name' = name := of_decide_eq_true h
    exact decide_eq_false fun ho => hne (hname.symm.trans ho)

section

variable {names : List Text} {name : Text} {ns ms : List Node}

theorem within_nil : Within names [] := fun _ hn => nomatch hn

theorem Within.cons {n : Node} (hn : n.isNamed name = true) (hname : name ∈ names)
    (h : Within names ns) : Within names (n :: ns) :=
  List.forall_mem_cons.mpr ⟨⟨name, hname, hn⟩, h⟩

theorem Within.append (h : Within names ns) (h' : Within names ms) : Within names (ns ++ ms) :=
  List.forall_mem_append.mpr ⟨h, h'⟩

theorem Within.mono {more : List Text} (h : Within names ns) (hsub : names ⊆ more) :
    Within more ns := by
  intro n hn
  obtain ⟨name, hname, hnamed⟩ := h n hn
  exact ⟨name, hsub hname, hnamed⟩

theorem Within.isNamed_eq_false (h : Within names ns) (hname : name ∉ names) :
    ∀ n ∈ ns, n.isNamed name = false := by
  intro n hn
  obtain ⟨other, hother, hnamed⟩ := h n hn
  exact isNamed_of_ne hnamed fun he => hname (he ▸ hother)

theorem labels_append : labels name (ns ++ ms) = labels name ns ++ labels name ms := by
  rw [labels, List.filter_append, List.map_append]
  rfl

theorem labels_flatten {parts : List (List Node)} :
    labels name parts.flatten = parts.flatMap (labels name) := by
  induction parts with
  | nil => rfl
  | cons ns parts ih => rw [List.flatten_cons, labels_append, ih, List.flatMap_cons]

theorem labels_of_lacks (h : ∀ n ∈ ns, n.isNamed name = false) : labels name ns = [] := by
  rw [labels, List.map_eq_nil_iff, List.filter_eq_nil_iff]
  intro n hn
  simp [h n hn]

theorem map_fst_passages (ns : List Node) : (passages name ns).map Prod.fst = labels name ns := by
  induction ns with
  | nil => rfl
  | cons n ns ih =>
    rw [passages, labels, List.filter_cons]
    split
    · rw [List.map_cons, List.map_cons, ih]
      rfl
    · exact ih

/-- Nodes in front of the first heading belong to no passage. -/
theorem passages_of_lacks (h : ∀ n ∈ ns, n.isNamed name = false) (ms : List Node) :
    passages name (ns ++ ms) = passages name ms := by
  induction ns with
  | nil => rfl
  | cons n ns ih =>
    rw [List.cons_append, passages, h n List.mem_cons_self]
    exact ih fun m hm => h m (List.mem_cons_of_mem _ hm)

/-- **Passages one behind the other.** -/
theorem passages_append (h : ∀ n, ms.head? = some n → n.isNamed name = true) (ns : List Node) :
    passages name (ns ++ ms) = passages name ns ++ passages name ms := by
  induction ns with
  | nil => rfl
  | cons n ns ih =>
    have hstop : ∀ n, ms.head? = some n → (!n.isNamed name) = false := by
      intro n hn
      rw [h n hn]
      rfl
    rw [List.cons_append, passages, passages, ih, takeWhile_append_of_head hstop]
    split
    · rfl
    · rfl

theorem passages_flatten {parts : List (List Node)}
    (h : ∀ ns ∈ parts, ∀ n, ns.head? = some n → n.isNamed name = true) :
    passages name parts.flatten = parts.flatMap (passages name) := by
  induction parts with
  | nil => rfl
  | cons ns parts ih =>
    have hrest : ∀ ms ∈ parts, ∀ n, ms.head? = some n → n.isNamed name = true :=
      fun ms hms => h ms (List.mem_cons_of_mem _ hms)
    have hopens : ∀ n, parts.flatten.head? = some n → n.isNamed name = true := by
      intro n hn
      rw [List.head?_flatten] at hn
      obtain ⟨ms, hms, hn⟩ := List.exists_of_findSome?_eq_some hn
      exact hrest ms hms n hn
    rw [List.flatten_cons, passages_append hopens, ih hrest, List.flatMap_cons]

theorem passages_heading {n : Node} (hn : n.isNamed name = true)
    (h : ∀ m ∈ ns, m.isNamed name = false) : passages name (n :: ns) = [(n.label, ns)] := by
  have htake : (ns.takeWhile fun m => !m.isNamed name) = ns := by
    rw [List.takeWhile_eq_self_iff]
    intro m hm
    rw [h m hm]
    rfl
  have hnone := passages_of_lacks h []
  rw [List.append_nil] at hnone
  rw [passages, if_pos hn, htake, hnone]
  rfl

end

end ScriptDocs.Html
