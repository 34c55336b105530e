import ScriptDocs.Json.Reader
import ScriptDocs.Proofs.Produced

/-!
# Objects that are read

In a text an object may have two members of one name.  The reader sets members one after another,
so in what it makes of the text each name comes once.

* `names_setMember`: the names after a member is set.
* `nodup_names_of_readMembers`: what the reader keeps from member to member.
* `nodup_names_of_read`: the names of an object that is read.
-/

namespace ScriptDocs.Json

def names (members : List (Points × Value)) : List Points := members.map (·.1)

theorem names_cons (m : Points × Value) (ms : List (Points × Value)) :
    names (m :: ms) = m.1 :: names ms := rfl

/-! ### Setting a member -/

theorem names_setMember (name : Points) (v : Value) (members : List (Points × Value)) :
    names (setMember name v members) =
      if name ∈ names members then names members else names members ++ [name] := by
  induction members with
  | nil => rfl
  | cons m ms ih =>
    rw [names_cons, setMember]
    by_cases hm : m.1 = name
    · rw [if_pos hm, names_cons, hm, if_pos List.mem_cons_self]
    · have hmem : name ∈ m.1 :: names ms ↔ name ∈ names ms := by
        simp [show ¬ name = m.1 from fun he => hm he.symm]
      rw [if_neg hm, names_cons, ih]
      simp only [hmem]
      split
      · rfl
      · rfl

theorem nodup_names_setMember (name : Points) (v : Value) {members : List (Points × Value)}
    (h : (names members).Nodup) : (names (setMember name v members)).Nodup := by
  rw [names_setMember]
  split
  · exact h
  · rename_i hnew
    refine List.nodup_append.mpr ⟨h, by simp, ?_⟩
    intro n hn m hm he
    rw [List.mem_singleton.mp hm] at he
    exact hnew (he ▸ hn)

/-! ### Reading -/

/-- One member is read and set, and then the object ends or the reader goes on. -/
theorem readMembers_cases {fuel : Nat} {members : List (Points × Value)} {here : Cursor}
    {r : Value × Cursor} (h : readMembers (fuel + 1) members here = .ok r) :
    ∃ name v, r.1 = .object (setMember name v members) ∨
      ∃ next, readMembers fuel (setMember name v members) next = .ok r := by
  rw [readMembers] at h
  split at h
  · exact nomatch h
  obtain ⟨⟨name, next⟩, -, h⟩ := bind_eq_ok_iff.mp h
  simp only at h
  split at h
  · exact nomatch h
  obtain ⟨⟨v, next⟩, -, h⟩ := bind_eq_ok_iff.mp h
  simp only at h
  refine ⟨name, v, ?_⟩
  split at h
  · exact Or.inl (congrArg Prod.fst (Except.ok.inj h).symm)
  · split at h
    · exact nomatch h
    · exact Or.inr ⟨_, h⟩

theorem nodup_names_of_readMembers {fuel : Nat} {members : List (Points × Value)} {here : Cursor}
    {r : Value × Cursor} (hmembers : (names members).Nodup)
    (h : readMembers fuel members here = .ok r) : ∃ ms, r.1 = .object ms ∧ (names ms).Nodup := by
  induction fuel generalizing members here with
  | zero => exact nomatch h
  | succ fuel ih =>
    obtain ⟨name, v, hlast | ⟨next, hnext⟩⟩ := readMembers_cases h
    · exact ⟨_, hlast, nodup_names_setMember name v hmembers⟩
    · exact ih (nodup_names_setMember name v hmembers) hnext

theorem exists_array_of_readItems {fuel : Nat} {items : List Value} {here : Cursor}
    {r : Value × Cursor} (h : readItems fuel items here = .ok r) : ∃ vs, r.1 = .array vs := by
  induction fuel generalizing items here with
  | zero => exact nomatch h
  | succ fuel ih =>
    rw [readItems] at h
    obtain ⟨⟨v, next⟩, -, h⟩ := bind_eq_ok_iff.mp h
    simp only at h
    split at h
    · exact ⟨_, congrArg Prod.fst (Except.ok.inj h).symm⟩
    · split at h
      · exact nomatch h
      · exact ih h

theorem number?_ne_object {t : Text} {members : List (Points × Value)} {n : Nat} :
    number? t ≠ some (.object members, n) := by
  unfold number?
  simp only
  split
  · simp
  · split
    · simp
    · simp

theorem simple?_ne_object {t : Text} {members : List (Points × Value)} {n : Nat} :
    simple? t ≠ some (.object members, n) := by
  unfold simple?
  split
  · rename_i w v hfind
    have hmem := List.mem_of_find?_eq_some hfind
    intro he
    obtain ⟨rfl, -⟩ := Prod.mk.inj (Option.some.inj he)
    simp [words] at hmem
  · exact number?_ne_object

theorem nodup_names_of_readValue {fuel : Nat} {here next : Cursor} {members : List (Points × Value)}
    (h : readValue fuel here = .ok (.object members, next)) : (names members).Nodup := by
  cases fuel with
  | zero => exact nomatch h
  | succ fuel =>
    rw [readValue] at h
    split at h
    · obtain ⟨s, -, hs⟩ := bind_eq_ok_iff.mp h
      exact nomatch hs
    · simp only at h
      split at h
      · obtain ⟨he, -⟩ := Prod.mk.inj (Except.ok.inj h)
        rw [← Value.object.inj he]
        exact List.nodup_nil
      · have hnil : (names []).Nodup := List.nodup_nil
        obtain ⟨ms, hms, hnodup⟩ := nodup_names_of_readMembers hnil h
        rw [Value.object.inj hms]
        exact hnodup
    · simp only at h
      split at h
      · exact nomatch h
      · obtain ⟨vs, hvs⟩ := exists_array_of_readItems h
        exact nomatch hvs
    · split at h
      · rename_i v n hsimple
        obtain ⟨rfl, -⟩ := Prod.mk.inj (Except.ok.inj h)
        exact absurd hsimple simple?_ne_object
      · exact nomatch h

/-- **In an object that is read each name comes once.** -/
theorem nodup_names_of_read {t : Text} {members : List (Points × Value)}
    (h : read t = .ok (.object members)) : (names members).Nodup := by
  unfold read at h
  cases hall : readAll t with
  | error p =>
    rw [hall] at h
    exact nomatch h
  | ok v =>
    rw [hall] at h
    obtain rfl := Except.ok.inj h
    unfold readAll at hall
    split at hall
    · exact nomatch hall
    obtain ⟨⟨v, next⟩, hv, hall⟩ := bind_eq_ok_iff.mp hall
    simp only at hall
    split at hall
    · rw [Except.ok.inj hall] at hv
      exact nodup_names_of_readValue hv
    · exact nomatch hall

end ScriptDocs.Json
