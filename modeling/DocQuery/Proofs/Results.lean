import Mathlib.Data.List.Forall2

/-!
# DocQuery.Proofs.Results — results that may be failures

Two runs agree when they give related values or fail in the same way (`Agreeing`).  They go alongside
each other when they give related values or both fail, each in its own way (`Alongside`).
-/

namespace DocQuery

/-- What was computed in sequence succeeded in both of its parts. -/
theorem exists_of_bind_eq_ok {α β ε : Type} {x : Except ε α} {f : α → Except ε β} {b : β}
    (h : x >>= f = .ok b) : ∃ a, x = .ok a ∧ f a = .ok b := by
  cases x with
  | error e => cases h
  | ok a => exact ⟨a, rfl, h⟩

/-- What was computed in sequence failed in one of its parts. -/
theorem failed_of_bind_eq_error {α β ε : Type} {x : Except ε α} {f : α → Except ε β} {e : ε}
    (h : x >>= f = .error e) : x = .error e ∨ ∃ a, x = .ok a ∧ f a = .error e := by
  cases x with
  | error e' =>
    cases h
    exact Or.inl rfl
  | ok a => exact Or.inr ⟨a, rfl, h⟩

theorem eq_error_of_map {α β ε : Type} {x : Except ε α} {f : α → β} {e : ε}
    (h : x.map f = .error e) : x = .error e := by
  cases x with
  | error e' =>
    cases h
    rfl
  | ok a => cases h

theorem exists_of_map_eq_ok {α β ε : Type} {x : Except ε α} {f : α → β} {b : β}
    (h : x.map f = .ok b) : ∃ a, x = .ok a ∧ f a = b := by
  cases x with
  | error e => cases h
  | ok a => exact ⟨a, rfl, Except.ok.inj h⟩

theorem eq_ok_of_mem_toOption {α ε : Type} {x : Except ε α} {a : α} (h : a ∈ x.toOption) :
    x = .ok a := by
  cases x with
  | error e => cases h
  | ok b =>
    cases h
    rfl

/-- Results that all succeeded at a further step succeeded before. -/
theorem exists_of_map_bind_eq_ok {α β ε : Type} {f : α → Except ε β} {os : List (Except ε α)}
    {bs : List β} (h : os.map (·.bind f) = bs.map .ok) :
    ∃ as : List α, os = as.map .ok ∧ as.map f = bs.map .ok := by
  induction os generalizing bs with
  | nil => exact ⟨[], rfl, h⟩
  | cons o rest ih =>
    cases bs with
    | nil => cases h
    | cons b bs =>
      rw [List.map_cons, List.map_cons, List.cons.injEq] at h
      cases o with
      | error e => cases h.1
      | ok a =>
        obtain ⟨as, rfl, has⟩ := ih h.2
        exact ⟨a :: as, rfl, List.cons_eq_cons.mpr ⟨h.1, has⟩⟩

theorem exists_of_map_map_eq_ok {α β ε : Type} {f : α → β} {os : List (Except ε α)} {bs : List β}
    (h : os.map (·.map f) = bs.map .ok) : ∃ as : List α, os = as.map .ok ∧ bs = as.map f := by
  have hbind : os.map (·.bind fun a => .ok (f a)) = bs.map .ok := by
    rw [← h]
    refine List.map_congr_left fun o _ => ?_
    cases o <;> rfl
  obtain ⟨as, has, hbs⟩ := exists_of_map_bind_eq_ok hbind
  have hok : (as.map f).map (Except.ok : β → Except ε β) = bs.map .ok := by
    rw [List.map_map]
    exact hbs
  exact ⟨as, has, ((List.map_inj_right fun _ _ => Except.ok.inj).mp hok).symm⟩

/-- Two results that agree: related values, or one and the same failure. -/
inductive Agreeing {α β ε : Type} (R : α → β → Prop) : Except ε α → Except ε β → Prop
  | ok {a : α} {b : β} (h : R a b) : Agreeing R (.ok a) (.ok b)
  | error (e : ε) : Agreeing R (.error e) (.error e)

namespace Agreeing

variable {α β γ δ ε : Type} {R : α → β → Prop} {S : γ → δ → Prop} {x : Except ε α} {y : Except ε β}

theorem mono {R' : α → β → Prop} (h : Agreeing R x y) (hR : ∀ a b, R a b → R' a b) :
    Agreeing R' x y := by
  cases h with
  | ok h => exact .ok (hR _ _ h)
  | error e => exact .error e

theorem map {f : α → γ} {g : β → δ} (h : Agreeing R x y) (hfg : ∀ a b, R a b → S (f a) (g b)) :
    Agreeing S (x.map f) (y.map g) := by
  cases h with
  | ok h => exact .ok (hfg _ _ h)
  | error e => exact .error e

theorem bind {f : α → Except ε γ} {g : β → Except ε δ} (h : Agreeing R x y)
    (hfg : ∀ a b, R a b → Agreeing S (f a) (g b)) : Agreeing S (x.bind f) (y.bind g) := by
  cases h with
  | ok h => exact hfg _ _ h
  | error e => exact .error e

theorem of_eq {x y : Except ε α} (h : x = y) : Agreeing Eq x y := by
  subst h
  cases x with
  | ok a => exact .ok rfl
  | error e => exact .error e

theorem eq {x y : Except ε α} (h : Agreeing Eq x y) : x = y := by
  cases h with
  | ok h => rw [h]
  | error e => rfl

/-- Folds that agree step by step agree. -/
theorem foldlM {as : List α} {bs : List β} (h : List.Forall₂ R as bs) {f : γ → α → Except ε γ}
    {g : δ → β → Except ε δ} (hfg : ∀ c d a b, S c d → R a b → Agreeing S (f c a) (g d b)) {c : γ}
    {d : δ} (hcd : S c d) : Agreeing S (as.foldlM f c) (bs.foldlM g d) := by
  induction h generalizing c d with
  | nil => exact .ok hcd
  | cons hab _ ih =>
    rw [List.foldlM_cons, List.foldlM_cons]
    exact (hfg _ _ _ _ hcd hab).bind fun _ _ h => ih h

/-- What agrees with values throughout is values, related one by one. -/
theorem exists_of_forall₂_ok {as : List α} {os : List (Except ε β)}
    (h : List.Forall₂ (Agreeing R) (as.map .ok) os) :
    ∃ bs, os = bs.map .ok ∧ List.Forall₂ R as bs := by
  induction as generalizing os with
  | nil =>
    cases h
    exact ⟨[], rfl, .nil⟩
  | cons a rest ih =>
    cases h with
    | cons hfirst hrest =>
      cases hfirst with
      | ok hab =>
        obtain ⟨bs, rfl, hbs⟩ := ih hrest
        exact ⟨_ :: bs, rfl, .cons hab hbs⟩

end Agreeing

/-- Two results that go alongside each other: related values, or two failures. -/
inductive Alongside {α β ε : Type} (R : α → β → Prop) : Except ε α → Except ε β → Prop
  | ok {a : α} {b : β} (h : R a b) : Alongside R (.ok a) (.ok b)
  | error (e e' : ε) : Alongside R (.error e) (.error e')

namespace Alongside

variable {α β γ δ ε : Type} {R : α → β → Prop} {S : γ → δ → Prop} {x : Except ε α} {y : Except ε β}

theorem mono {R' : α → β → Prop} (h : Alongside R x y) (hR : ∀ a b, R a b → R' a b) :
    Alongside R' x y := by
  cases h with
  | ok h => exact .ok (hR _ _ h)
  | error e e' => exact .error e e'

theorem bind {f : α → Except ε γ} {g : β → Except ε δ} (h : Alongside R x y)
    (hfg : ∀ a b, R a b → Alongside S (f a) (g b)) : Alongside S (x.bind f) (y.bind g) := by
  cases h with
  | ok h => exact hfg _ _ h
  | error e e' => exact .error e e'

theorem exists_of_ok {a : α} (h : Alongside R (.ok a) y) : ∃ b, y = .ok b ∧ R a b := by
  cases h with
  | ok h => exact ⟨_, rfl, h⟩

/-- Folds that go alongside each other step by step do so. -/
theorem foldlM {as : List α} {bs : List β} (h : List.Forall₂ R as bs) {f : γ → α → Except ε γ}
    {g : δ → β → Except ε δ} (hfg : ∀ c d a b, S c d → R a b → Alongside S (f c a) (g d b)) {c : γ}
    {d : δ} (hcd : S c d) : Alongside S (as.foldlM f c) (bs.foldlM g d) := by
  induction h generalizing c d with
  | nil => exact .ok hcd
  | cons hab _ ih =>
    rw [List.foldlM_cons, List.foldlM_cons]
    exact (hfg _ _ _ _ hcd hab).bind fun _ _ h => ih h

theorem mapM {as : List α} {bs : List β} (h : List.Forall₂ R as bs) {f : α → Except ε γ}
    {g : β → Except ε δ} (hfg : ∀ a b, R a b → Alongside S (f a) (g b)) :
    Alongside (List.Forall₂ S) (as.mapM f) (bs.mapM g) := by
  induction h with
  | nil => exact .ok .nil
  | cons hab _ ih =>
    rw [List.mapM_cons, List.mapM_cons]
    exact (hfg _ _ hab).bind fun c d hcd => ih.bind fun cs ds hcds => .ok (.cons hcd hcds)

/-- What goes alongside values throughout is values, related one by one. -/
theorem exists_of_forall₂_ok {as : List α} {os : List (Except ε β)}
    (h : List.Forall₂ (Alongside R) (as.map .ok) os) :
    ∃ bs, os = bs.map .ok ∧ List.Forall₂ R as bs := by
  induction as generalizing os with
  | nil =>
    cases h
    exact ⟨[], rfl, .nil⟩
  | cons a rest ih =>
    cases h with
    | cons hfirst hrest =>
      obtain ⟨b, rfl, hab⟩ := hfirst.exists_of_ok
      obtain ⟨bs, rfl, hbs⟩ := ih hrest
      exact ⟨b :: bs, rfl, .cons hab hbs⟩

end Alongside

end DocQuery
