import ScriptDocs.Parsing
import ScriptDocs.Proofs.Json.Reader

/-!
# Parsed trees

The scripts of a tree are sent to the parser one by one, and its outputs are put back to the paths
by their place in the row.  If the parser succeeds on every script, each path has the output of the
process that was sent its own script and nothing else.  The output is bytes, which JSON has no form
for, so the command cannot write the tree it has made unless there is nothing in it.

* `Answered`: the parser succeeds on a script.
* `outputs_parseAll`, `parseTree_eq_ok`: the outputs and the tree.
* `writeTree_cons`: the writer comes upon the bytes of the first script.
* `command_of_tree`: what becomes of a tree given as JSON.
-/

namespace ScriptDocs.Parsing

/-- The process for the script with a number is sent `bytes`, which encode the script, and
succeeds. -/
structure Answered (program : Program) (number : Nat) (script : Points) (bytes : List UInt8) :
    Prop where
  encoded : script.encode = .ok bytes
  succeeded : (program number bytes).code = 0

variable {program : Program}

theorem parse_of_answered {number : Nat} {script : Points} {bytes : List UInt8}
    (h : Answered program number script bytes) :
    parse (some program) number (.string script) =
      ⟨some bytes, [], .ok (program number bytes).output⟩ := by
  have hbytes : bytesOf (.string script) = .ok bytes := h.encoded
  simp only [parse, hbytes, Reply.notes, Reply.result, if_pos h.succeeded]

/-! ### Scripts in a row -/

theorem getElem?_parseAll (service : Service) (scripts : List Json.Value) (i : Nat) :
    (parseAll service scripts)[i]? = scripts[i]?.map (parse service i) := by
  rw [parseAll, List.getElem?_mapIdx]

/-- What is sent for each script, if all can be encoded. -/
def bytesFor (script : Points) : List UInt8 := script.encode.toOption.getD []

theorem bytesFor_of_answered {number : Nat} {script : Points} {bytes : List UInt8}
    (h : Answered program number script bytes) : bytesFor script = bytes := by
  rw [bytesFor, h.encoded]
  rfl

/-- The outputs come in the order of the scripts. -/
theorem outputs_parseAll {scripts : List Points}
    (h : ∀ i s, scripts[i]? = some s → ∃ bytes, Answered program i s bytes) :
    outputs (parseAll (some program) (scripts.map .string)) =
      .ok (scripts.mapIdx fun i s => (program i (bytesFor s)).output) := by
  rw [outputs, mapM_eq_ok_iff]
  apply List.ext_getElem?
  intro i
  rw [List.getElem?_map, getElem?_parseAll, List.getElem?_map, List.getElem?_map,
    List.getElem?_mapIdx]
  cases hs : scripts[i]? with
  | none => rfl
  | some s =>
    obtain ⟨bytes, hanswered⟩ := h i s hs
    simp only [Option.map_some, parse_of_answered hanswered, bytesFor_of_answered hanswered]

/-! ### Trees -/

/-- A tree of scripts, as JSON has it. -/
def members (tree : List (Points × Points)) : List (Points × Json.Value) :=
  tree.map fun m => (m.1, .string m.2)

theorem map_snd_members (tree : List (Points × Points)) :
    (members tree).map (·.2) = (tree.map (·.2)).map .string := by
  simp [members]

theorem scriptsOf_members (tree : List (Points × Points)) : scriptsOf (members tree) = tree := by
  rw [scriptsOf, members, List.filterMap_map]
  exact List.filterMap_some

/-- What a tree becomes: each script with its path and the output for it. -/
def parsedTree (program : Program) (tree : List (Points × Points)) : List Parsed :=
  tree.mapIdx fun i m => ⟨m.1, m.2, (program i (bytesFor m.2)).output⟩

theorem getElem?_parsedTree (tree : List (Points × Points)) (i : Nat) :
    (parsedTree program tree)[i]? =
      tree[i]?.map fun m => ⟨m.1, m.2, (program i (bytesFor m.2)).output⟩ := by
  rw [parsedTree, List.getElem?_mapIdx]

theorem parseTree_eq_ok {tree : List (Points × Points)}
    (h : ∀ i m, tree[i]? = some m → ∃ bytes, Answered program i m.2 bytes) :
    parseTree (some program) (members tree) = .ok (parsedTree program tree) := by
  have hscripts : ∀ i s, (tree.map (·.2))[i]? = some s → ∃ bytes, Answered program i s bytes := by
    intro i s hs
    rw [List.getElem?_map] at hs
    obtain ⟨m, hm, rfl⟩ := Option.map_eq_some_iff.mp hs
    exact h i m hm
  rw [parseTree, map_snd_members, outputs_parseAll hscripts, scriptsOf_members]
  apply congrArg Except.ok
  apply List.ext_getElem?
  intro i
  rw [getElem?_parsedTree, List.getElem?_map, List.zip, List.getElem?_zipWith, List.getElem?_mapIdx,
    List.getElem?_map]
  cases tree[i]? with
  | none => rfl
  | some m => rfl

theorem map_path_parsedTree (tree : List (Points × Points)) :
    (parsedTree program tree).map (·.path) = tree.map (·.1) := by
  apply List.ext_getElem?
  intro i
  rw [List.getElem?_map, getElem?_parsedTree, List.getElem?_map, Option.map_map]
  rfl

/-! ### Writing -/

/-- The writer comes upon the bytes of the first script. -/
theorem writeTree_cons (p : Parsed) (ps : List Parsed) :
    writeTree (p :: ps) = .error .bytesInJson := rfl

theorem command_of_answered {input : Text} {tree : List (Points × Points)}
    (hread : Json.read input = .ok (.object (members tree)))
    (h : ∀ i m, tree[i]? = some m → ∃ bytes, Answered program i m.2 bytes) :
    command (some program) input =
      if tree.isEmpty then .ok "{}".toList else .error .bytesInJson := by
  have hcommand : command (some program) input = writeTree (parsedTree program tree) := by
    simp only [command, hread, parseTree_eq_ok h, bind, Except.bind]
  rw [hcommand]
  cases tree with
  | nil => rfl
  | cons m ms =>
    rw [parsedTree, List.mapIdx_cons, writeTree_cons]
    rfl

/-- **A tree of scripts that all parse.**  If the parser succeeds on every script, the tree has the
same paths, each of them once.  Each has its own script, and the output of the one process that was
started for it and was sent the bytes of that script.  But only the empty tree can be written, for
the outputs are bytes. -/
theorem command_of_tree {input : Text} {tree : List (Points × Points)}
    (hread : Json.read input = .ok (.object (members tree)))
    (h : ∀ i m, tree[i]? = some m → ∃ bytes, Answered program i m.2 bytes) :
    ∃ parsed : List Parsed, parseTree (some program) (members tree) = .ok parsed ∧
      parsed.map (·.path) = tree.map (·.1) ∧ (tree.map (·.1)).Nodup ∧
      (∀ (i : Nat) (m : Points × Points), tree[i]? = some m →
        ∃ bytes, m.2.encode = .ok bytes ∧
          (parseAll (some program) ((members tree).map (·.2)))[i]?.map (·.sent?) =
            some (some bytes) ∧
          parsed[i]? = some ⟨m.1, m.2, (program i bytes).output⟩) ∧
      command (some program) input =
        if tree.isEmpty then .ok "{}".toList else .error .bytesInJson := by
  have hparsed := parseTree_eq_ok h
  refine ⟨parsedTree program tree, hparsed, map_path_parsedTree tree, ?_, ?_,
    command_of_answered hread h⟩
  · have hnames : Json.names (members tree) = tree.map (·.1) := by
      simp [Json.names, members]
    rw [← hnames]
    exact Json.nodup_names_of_read hread
  · intro i m hm
    obtain ⟨bytes, hanswered⟩ := h i m hm
    refine ⟨bytes, hanswered.encoded, ?_, ?_⟩
    · rw [getElem?_parseAll, map_snd_members, List.getElem?_map, List.getElem?_map, hm]
      simp only [Option.map_some, parse_of_answered hanswered]
    · rw [getElem?_parsedTree, hm, Option.map_some, bytesFor_of_answered hanswered]

/-- The text of a tree in which a path comes twice. -/
def repeating : Text := "\x7b\"a.js\": \"x\", \"b.js\": \"y\", \"a.js\": \"z\"\x7d".toList

def repeatingTree : List (Points × Points) :=
  [("a.js", "z"), ("b.js", "y")].map fun m => (Text.points m.1.toList, Text.points m.2.toList)

/-- A parser that replies with what it is sent. -/
def echo : Program := fun _ bytes => ⟨0, bytes, []⟩

theorem command_of_tree_repeating :
    Json.read repeating = .ok (.object (members repeatingTree)) ∧
    command (some echo) repeating = .error .bytesInJson ∧
    ∃ parsed : List Parsed, parseTree (some echo) (members repeatingTree) = .ok parsed ∧
      parsed[0]? = some ⟨Text.points "a.js".toList, Text.points "z".toList,
        Utf8.encode "z".toList⟩ ∧
      parsed[1]? = some ⟨Text.points "b.js".toList, Text.points "y".toList,
        Utf8.encode "y".toList⟩ := by
  have hread : Json.read repeating = .ok (.object (members repeatingTree)) := by rfl
  have hz : Answered echo 0 (Text.points "z".toList) (Utf8.encode "z".toList) := ⟨rfl, rfl⟩
  have hy : Answered echo 1 (Text.points "y".toList) (Utf8.encode "y".toList) := ⟨rfl, rfl⟩
  have hanswered : ∀ i m, repeatingTree[i]? = some m → ∃ bytes, Answered echo i m.2 bytes := by
    intro i m hm
    match i with
    | 0 =>
      obtain rfl := Option.some.inj hm
      exact ⟨_, hz⟩
    | 1 =>
      obtain rfl := Option.some.inj hm
      exact ⟨_, hy⟩
    | i + 2 => exact nomatch hm
  obtain ⟨parsed, hparsed, -, -, hentry, hcommand⟩ := command_of_tree hread hanswered
  obtain ⟨first, hfirst, -, hzero⟩ := hentry 0 _ rfl
  obtain ⟨second, hsecond, -, hone⟩ := hentry 1 _ rfl
  obtain rfl := Except.ok.inj (hz.encoded.symm.trans hfirst)
  obtain rfl := Except.ok.inj (hy.encoded.symm.trans hsecond)
  exact ⟨hread, hcommand, parsed, hparsed, hzero, hone⟩

/-- A parsed tree is not written. -/
theorem parsed_tree_unwritten :
    command (some fun _ _ => ⟨0, Utf8.encode "{}".toList, []⟩) "\x7b\"a.js\": \"x\"\x7d".toList =
      .error .bytesInJson := by
  let tree : List (Points × Points) := [(Text.points "a.js".toList, Text.points "x".toList)]
  have hread : Json.read "\x7b\"a.js\": \"x\"\x7d".toList = .ok (.object (members tree)) := by rfl
  refine command_of_answered hread fun i m hm => ?_
  match i with
  | 0 =>
    obtain rfl := Option.some.inj hm
    exact ⟨Utf8.encode "x".toList, rfl, rfl⟩
  | i + 1 => exact nomatch hm

end ScriptDocs.Parsing
