import ScriptDocs.Fault

/-!
# Producers

A producer that passes its items on stops at the first fault, its own or one of the step.  What
comes out is therefore what the step makes of the items up to there, in their order.

* `exists_bind_iff`, `exists_mapM_iff`: steps in a row, or the items of a list, all have to
  succeed.
* `mapM_eq_ok_iff`, `mapM_eq_error_iff`: what becomes of a list when each item may fail.
* `Produced.through_cons`: one item passed on.
* `Produced.exists_prefix_through`: the items that come out, as those of a prefix.
* `Produced.UpToFault`: what comes out of a step that drops nothing.
-/

namespace ScriptDocs

/-! ### Lists of results -/

theorem bind_eq_ok_iff {ε α β : Type} {x : Except ε α} {f : α → Except ε β} {b : β} :
    x >>= f = .ok b ↔ ∃ a, x = .ok a ∧ f a = .ok b := by
  cases x with
  | error e => simp [bind, Except.bind]
  | ok a => simp [bind, Except.bind]

theorem map_eq_ok_iff {ε α β : Type} {x : Except ε α} {f : α → β} {b : β} :
    x.map f = .ok b ↔ ∃ a, x = .ok a ∧ f a = b := by
  cases x with
  | error e => simp [Except.map]
  | ok a => simp [Except.map]

theorem exists_bind_iff {ε α β : Type} {x : Except ε α} {f : α → Except ε β} :
    (∃ b, x >>= f = .ok b) ↔ ∃ a, x = .ok a ∧ ∃ b, f a = .ok b := by
  simp only [bind_eq_ok_iff]
  exact ⟨fun ⟨b, a, hx, hb⟩ => ⟨a, hx, b, hb⟩, fun ⟨a, hx, b, hb⟩ => ⟨b, a, hx, hb⟩⟩

theorem exists_bind {ε α β : Type} {x : Except ε α} {f : α → Except ε β} (hx : ∃ a, x = .ok a)
    (hf : ∀ a, x = .ok a → ∃ b, f a = .ok b) : ∃ b, x >>= f = .ok b := by
  obtain ⟨a, ha⟩ := hx
  exact exists_bind_iff.mpr ⟨a, ha, hf a ha⟩

theorem exists_error_iff {α : Type} {x : Except Fault α} :
    (∃ e, x = .error e) ↔ ¬ ∃ a, x = .ok a := by
  cases x with
  | error e => simp
  | ok a => simp

theorem eq_ok_of_toOption {α : Type} {x : Except Fault α} {a : α} (h : x.toOption = some a) :
    x = .ok a := by
  cases x with
  | error e => exact nomatch h
  | ok b => rw [Option.some.inj h]

theorem mapM_eq_ok_iff {α β : Type} (f : α → Except Fault β) (as : List α) (bs : List β) :
    as.mapM f = .ok bs ↔ as.map f = bs.map Except.ok := by
  induction as generalizing bs with
  | nil =>
    rw [List.mapM_nil, List.map_nil]
    constructor
    · intro h
      rw [← Except.ok.inj h]
      rfl
    · intro h
      rw [List.map_eq_nil_iff.mp h.symm]
      rfl
  | cons a as ih =>
    rw [List.mapM_cons, List.map_cons]
    cases ha : f a with
    | error e => cases bs with
      | nil => exact ⟨nofun, nofun⟩
      | cons b bs => simp [bind, Except.bind]
    | ok b =>
      cases has : as.mapM f with
      | error e =>
        -- a fault further on: then the lists behind the first items differ, too
        cases bs with
        | nil => exact ⟨nofun, nofun⟩
        | cons c cs =>
          have hne : as.map f ≠ cs.map Except.ok := by
            rw [Ne, ← ih, has]
            exact nofun
          simp [bind, Except.bind, hne]
      | ok ds =>
        cases bs with
        | nil => simp [bind, Except.bind, pure, Except.pure]
        | cons c cs =>
          rw [List.map_cons, List.cons.injEq, ← ih, has]
          simp [bind, Except.bind, pure, Except.pure]

theorem mem_of_mapM {α β : Type} {f : α → Except Fault β} {as : List α} {bs : List β}
    (h : as.mapM f = .ok bs) {b : β} : b ∈ bs ↔ ∃ a ∈ as, f a = .ok b := by
  have hok : b ∈ bs ↔ Except.ok b ∈ bs.map (Except.ok (ε := Fault)) := by simp
  rw [hok, ← (mapM_eq_ok_iff f as bs).mp h, List.mem_map]

theorem exists_of_mapM {α β : Type} {f : α → Except Fault β} {as : List α} {bs : List β}
    (h : as.mapM f = .ok bs) {a : α} (ha : a ∈ as) : ∃ b, f a = .ok b := by
  have hmem : f a ∈ bs.map Except.ok := by
    rw [← (mapM_eq_ok_iff f as bs).mp h]
    exact List.mem_map_of_mem ha
  obtain ⟨b, -, hb⟩ := List.mem_map.mp hmem
  exact ⟨b, hb.symm⟩

theorem exists_mapM_iff {α β : Type} {f : α → Except Fault β} {as : List α} :
    (∃ bs, as.mapM f = .ok bs) ↔ ∀ a ∈ as, ∃ b, f a = .ok b := by
  refine ⟨fun ⟨bs, h⟩ a ha => exists_of_mapM h ha, ?_⟩
  intro h
  induction as with
  | nil => exact ⟨[], rfl⟩
  | cons a as ih =>
    obtain ⟨b, hb⟩ := h a List.mem_cons_self
    obtain ⟨bs, hbs⟩ := ih fun x hx => h x (List.mem_cons_of_mem _ hx)
    refine ⟨b :: bs, ?_⟩
    rw [List.mapM_cons, hb, hbs]
    rfl

/-- Where all succeed, they do so in any order. -/
theorem exists_perm_map_ok {α : Type} {as : List α} {xs : List (Except Fault α)}
    (h : (as.map Except.ok).Perm xs) : ∃ bs, xs = bs.map Except.ok ∧ as.Perm bs := by
  have hok : ∀ x ∈ xs, ∃ a, x = .ok a := by
    intro x hx
    obtain ⟨a, -, ha⟩ := List.mem_map.mp (h.mem_iff.mpr hx)
    exact ⟨a, ha.symm⟩
  -- so no result is lost when the values are taken out
  have hxs : xs = (xs.filterMap Except.toOption).map Except.ok := by
    clear h
    induction xs with
    | nil => rfl
    | cons x xs ih =>
      obtain ⟨a, rfl⟩ := hok x List.mem_cons_self
      have htail := ih fun y hy => hok y (List.mem_cons_of_mem _ hy)
      simpa [Except.toOption] using htail
  refine ⟨xs.filterMap Except.toOption, hxs, ?_⟩
  have has : (as.map Except.ok).filterMap (Except.toOption (ε := Fault)) = as := by
    rw [List.filterMap_map]
    exact List.filterMap_some
  have hperm := h.filterMap Except.toOption
  rwa [has] at hperm

/-- A list of results fails with the first fault in it. -/
theorem mapM_eq_error_iff {α β : Type} (f : α → Except Fault β) (as : List α) (e : Fault) :
    as.mapM f = .error e ↔ ∃ front a behind, as = front ++ a :: behind ∧
      (∀ b ∈ front, ∃ r, f b = .ok r) ∧ f a = .error e := by
  induction as with
  | nil => simp [pure, Except.pure]
  | cons x xs ih =>
    rw [List.mapM_cons]
    cases hx : f x with
    | error e' =>
      constructor
      · intro h
        obtain rfl : e' = e := Except.error.inj h
        exact ⟨[], x, xs, rfl, by simp, hx⟩
      · rintro ⟨front, a, behind, he, hfront, ha⟩
        cases front with
        | nil =>
          obtain ⟨rfl, -⟩ := List.cons.inj he
          rw [hx] at ha
          rw [← Except.error.inj ha]
          rfl
        | cons y front =>
          obtain ⟨rfl, -⟩ := List.cons.inj he
          obtain ⟨r, hr⟩ := hfront x List.mem_cons_self
          rw [hx] at hr
          exact nomatch hr
    | ok b =>
      have hstep : (Except.ok b >>= fun b => do return b :: (← xs.mapM f)) = .error e ↔
          xs.mapM f = .error e := by
        cases xs.mapM f with
        | error e' => simp [bind, Except.bind]
        | ok bs => simp [bind, Except.bind, pure, Except.pure]
      rw [hstep, ih]
      constructor
      · rintro ⟨front, a, behind, rfl, hfront, ha⟩
        refine ⟨x :: front, a, behind, rfl, ?_, ha⟩
        intro c hc
        rcases List.mem_cons.mp hc with rfl | hc
        · exact ⟨b, hx⟩
        · exact hfront c hc
      · rintro ⟨front, a, behind, he, hfront, ha⟩
        cases front with
        | nil =>
          obtain ⟨rfl, -⟩ := List.cons.inj he
          rw [hx] at ha
          exact nomatch ha
        | cons y front =>
          obtain ⟨rfl, rfl⟩ := List.cons.inj he
          exact ⟨front, a, behind, rfl, fun c hc => hfront c (List.mem_cons_of_mem _ hc), ha⟩

end ScriptDocs

namespace ScriptDocs.Produced

variable {α β : Type}

theorem through_go_congr {p q : Produced α} (h : p.fault? = q.fault?)
    (step : α → Except Fault (Option β)) (as : List α) :
    through.go p step as = through.go q step as := by
  induction as with
  | nil => simp [through.go, h]
  | cons a as ih => simp only [through.go, ih]

theorem through_cons (a : α) (as : List α) (f : Option Fault)
    (step : α → Except Fault (Option β)) :
    through ⟨a :: as, f⟩ step = match step a with
      | .error g => stopped g
      | .ok none => through ⟨as, f⟩ step
      | .ok (some b) => cons b (through ⟨as, f⟩ step) := by
  have hgo : through.go ⟨a :: as, f⟩ step as = through.go ⟨as, f⟩ step as := by
    apply through_go_congr
    rfl
  rcases hs : step a with g | _ | b
  · simp only [through, through.go, hs]
  · simp only [through, through.go, hs, hgo]
  · simp only [through, through.go, hs, hgo]

/-- What a step makes of an item, if anything. -/
def made (step : α → Except Fault (Option β)) (a : α) : Option β := (step a).toOption.join

theorem made_eq_some {step : α → Except Fault (Option β)} {a : α} {b : β} :
    made step a = some b ↔ step a = .ok (some b) := by
  unfold made
  rcases step a with f | _ | c
  · simp [Except.toOption]
  · simp [Except.toOption]
  · simp [Except.toOption]

/-- **Passing on keeps the order.**  The items that come out are made of the items in front of the
first fault. -/
theorem exists_prefix_through (p : Produced α) (step : α → Except Fault (Option β)) :
    ∃ as, as <+: p.items ∧ (p.through step).items = as.filterMap (made step) := by
  obtain ⟨items, f⟩ := p
  induction items with
  | nil => exact ⟨[], List.prefix_refl _, rfl⟩
  | cons a items ih =>
    obtain ⟨as, hpre, he⟩ := ih
    rw [through_cons]
    rcases hs : step a with g | _ | b
    · exact ⟨[], List.nil_prefix, rfl⟩
    · refine ⟨a :: as, List.cons_prefix_cons.mpr ⟨rfl, hpre⟩, ?_⟩
      simp [he, made, hs, Except.toOption]
    · refine ⟨a :: as, List.cons_prefix_cons.mpr ⟨rfl, hpre⟩, ?_⟩
      simp [cons, he, made, hs, Except.toOption]

/-! ### Steps that drop nothing -/

/-- What is produced of a list when each item is made into another: those made of the items in front
of the first that cannot be made, and its fault, if there is one. -/
def UpToFault (make : α → Except Fault β) (as : List α) (p : Produced β) : Prop :=
  ∃ front rest, as = front ++ rest ∧ front.map make = p.items.map Except.ok ∧
    ((rest = [] ∧ p.fault? = none) ∨
      ∃ a behind f, rest = a :: behind ∧ make a = .error f ∧ p.fault? = some f)

/-- What each item shows of the one it was made of, the list shows of the list. -/
theorem map_eq_of_map_ok {γ : Type} {make : α → Except Fault β} {g : β → γ} {h : α → γ}
    (hmake : ∀ a b, make a = .ok b → g b = h a) {front : List α} {made : List β}
    (hfront : front.map make = made.map Except.ok) : made.map g = front.map h := by
  induction front generalizing made with
  | nil =>
    obtain rfl := List.map_eq_nil_iff.mp hfront.symm
    rfl
  | cons a front ih =>
    cases made with
    | nil => cases hfront
    | cons b made =>
      obtain ⟨ha, hrest⟩ := List.cons.inj hfront
      rw [List.map_cons, List.map_cons, hmake a b ha, ih hrest]

/-- **Passing on stops at the first fault.** -/
theorem upToFault_through (make : α → Except Fault β) (as : List α) :
    UpToFault make as (through ⟨as, none⟩ fun a => (make a).map some) := by
  induction as with
  | nil => exact ⟨[], [], rfl, rfl, Or.inl ⟨rfl, rfl⟩⟩
  | cons a as ih =>
    rw [through_cons]
    cases hm : make a with
    | error f => exact ⟨[], a :: as, rfl, rfl, Or.inr ⟨a, as, f, rfl, hm, rfl⟩⟩
    | ok b =>
      obtain ⟨front, rest, has, hfront, hrest⟩ := ih
      refine ⟨a :: front, rest, by rw [has, List.cons_append], ?_, hrest⟩
      rw [List.map_cons, hm, hfront]
      rfl

/-- What comes out of a list with a fault is settled by the items up to it. -/
theorem through_of_fault {make : α → Except Fault β} {front : List α} {made : List β} {a : α}
    {f : Fault} (hfront : front.map make = made.map Except.ok) (ha : make a = .error f)
    (behind : List α) :
    through ⟨front ++ a :: behind, none⟩ (fun a => (make a).map some) = ⟨made, some f⟩ := by
  induction front generalizing made with
  | nil =>
    obtain rfl := List.map_eq_nil_iff.mp hfront.symm
    rw [List.nil_append, through_cons, ha]
    rfl
  | cons x front ih =>
    cases made with
    | nil => exact nomatch hfront
    | cons b made =>
      obtain ⟨hx, hfront⟩ := List.cons.inj hfront
      rw [List.cons_append, through_cons, hx]
      exact congrArg (cons b) (ih hfront)

theorem UpToFault.length_eq_iff {make : α → Except Fault β} {as : List α} {p : Produced β}
    (h : UpToFault make as p) :
    p.items.length = as.length ↔ ∀ a ∈ as, ∃ b, make a = .ok b := by
  obtain ⟨front, rest, rfl, hfront, hrest⟩ := h
  have hlength : front.length = p.items.length := by
    simpa using congrArg List.length hfront
  have hmade : ∀ a ∈ front, ∃ b, make a = .ok b := by
    intro a ha
    have hmem : make a ∈ p.items.map Except.ok := hfront ▸ List.mem_map_of_mem ha
    obtain ⟨b, -, hb⟩ := List.mem_map.mp hmem
    exact ⟨b, hb.symm⟩
  rw [List.length_append, ← hlength]
  rcases hrest with ⟨rfl, -⟩ | ⟨a, behind, f, rfl, hf, -⟩
  · rw [List.append_nil]
    exact ⟨fun _ => hmade, fun _ => rfl⟩
  · -- the item behind the last one that was made has a fault
    refine ⟨fun h => ?_, fun h => ?_⟩
    · rw [List.length_cons] at h
      omega
    · obtain ⟨b, hb⟩ := h a (List.mem_append_right _ List.mem_cons_self)
      rw [hf] at hb
      exact nomatch hb

/-- Everything is made exactly if there is no fault. -/
theorem UpToFault.all_eq_ok {make : α → Except Fault β} {as : List α} {p : Produced β}
    (h : UpToFault make as p) {bs : List β} :
    p.all = .ok bs ↔ as.map make = bs.map Except.ok := by
  obtain ⟨front, rest, rfl, hfront, ⟨rfl, hnone⟩ | ⟨a, behind, f, rfl, ha, hf⟩⟩ := h
  · rw [all, hnone, List.append_nil, hfront, List.map_inj_right fun _ _ => Except.ok.inj]
    exact ⟨Except.ok.inj, congrArg _⟩
  · -- what has a fault is not made, and neither is the list
    rw [all, hf]
    refine ⟨nofun, fun h => ?_⟩
    have hmem : make a ∈ bs.map Except.ok := h ▸ List.mem_map_of_mem (by simp)
    obtain ⟨b, -, hb⟩ := List.mem_map.mp hmem
    rw [ha] at hb
    exact nomatch hb

/-- Two steps in a row are one. -/
theorem through_through {γ : Type} (make : α → Except Fault β) (next : β → Except Fault γ)
    (as : List α) :
    (through ⟨as, none⟩ fun a => (make a).map some).through (fun b => (next b).map some) =
      through ⟨as, none⟩ fun a => ((make a).bind next).map some := by
  induction as with
  | nil => rfl
  | cons a as ih =>
    rw [through_cons, through_cons]
    cases hm : make a with
    | error f => rfl
    | ok b =>
      change (cons b (through ⟨as, none⟩ _)).through _ = _
      rw [cons, through_cons, ← ih]
      rfl

end ScriptDocs.Produced
