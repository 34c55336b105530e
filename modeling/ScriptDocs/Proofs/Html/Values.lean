import ScriptDocs.Html.Node

/-!
# Attributes in a tree

What a reader of a page can look for in its tree, apart from how the tree was made: the values of an
attribute, over all elements with certain names.  The links of a tree and the headings that can be
linked to are two cases of it (`linkTargets`, `headingIds`).
-/

namespace ScriptDocs.Html

mutual

/-- The values of an attribute in a tree, over the elements whose names are asked for. -/
def Node.values (asked : Text → Bool) (key : Text) : Node → List Text
  | .text _ => []
  | .comment _ => []
  | .element name attributes children =>
    (if asked name then (attributes.filter (·.name = key)).map (·.value) else []) ++
      nodesValues asked key children

def nodesValues (asked : Text → Bool) (key : Text) : List Node → List Text
  | [] => []
  | n :: ns => n.values asked key ++ nodesValues asked key ns

end

def linkTargets (ns : List Node) : List Text := nodesValues (· = "a".toList) "href".toList ns

def isHeading (name : Text) : Bool :=
  (["h1", "h2", "h3", "h4", "h5", "h6"].map String.toList).contains name

/-- The headings of a tree to which a link can lead. -/
def headingIds (ns : List Node) : List Text := nodesValues isHeading "id".toList ns

section

variable {asked : Text → Bool} {key x : Text}

@[simp] theorem values_text (t : Text) : (Node.text t).values asked key = [] := rfl

theorem mem_nodesValues {ns : List Node} :
    x ∈ nodesValues asked key ns ↔ ∃ n ∈ ns, x ∈ n.values asked key := by
  induction ns with
  | nil => simp [nodesValues]
  | cons n ns ih => simp [nodesValues, ih]

theorem mem_nodesValues_map {α : Type} {f : α → Node} {as : List α} :
    x ∈ nodesValues asked key (as.map f) ↔ ∃ a ∈ as, x ∈ (f a).values asked key := by
  induction as with
  | nil => simp [nodesValues]
  | cons a as ih => simp [nodesValues, ih]

theorem nodesValues_append (ns ms : List Node) :
    nodesValues asked key (ns ++ ms) =
      nodesValues asked key ns ++ nodesValues asked key ms := by
  induction ns with
  | nil => rfl
  | cons n ns ih => rw [List.cons_append, nodesValues, nodesValues, ih, List.append_assoc]

/-- Text nodes have no attributes, so an element that holds only a text has its own at most. -/
theorem values_element_text (name : Text) (attributes : List Attribute) (content : Text) :
    (Node.element name attributes (if content.isEmpty then [] else [.text content])).values asked
        key =
      if asked name then (attributes.filter (·.name = key)).map (·.value) else [] := by
  have hnone : nodesValues asked key
      (if content.isEmpty then [] else [Node.text content]) = [] := by
    split
    · rfl
    · rfl
  rw [Node.values, hnone, List.append_nil]

@[simp] theorem values_labelled (name content : Text) :
    (Node.labelled name content).values asked key = [] := by
  rw [Node.labelled, values_element_text]
  simp

/-- An element without attributes shows what its children show. -/
theorem values_element_nil (name : Text) (children : List Node) :
    (Node.element name [] children).values asked key =
      nodesValues asked key children := by
  simp [Node.values]

theorem mem_values_link {content target : Text} :
    x ∈ (Node.link content target).values asked key ↔
      asked "a".toList = true ∧ "href".toList = key ∧ x = target := by
  rw [Node.link, values_element_text]
  generalize "a".toList = name
  generalize "href".toList = reference
  by_cases hasked : asked name = true
  · by_cases hkey : reference = key
    · simp [hasked, hkey]
    · simp [hasked, hkey]
  · simp [hasked]

end

end ScriptDocs.Html
