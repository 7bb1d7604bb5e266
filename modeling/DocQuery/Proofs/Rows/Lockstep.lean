import DocQuery.Proofs.Rows.Identities
import DocQuery.Proofs.Rows.Planning

/-!
# DocQuery.Proofs.Rows.Lockstep — two runs of a plan

Two plans are alike if they end alike from all ledgers of two runs, with related results or with one
failure (`Plan.Alike`).  The identities that both draw at once are paired on the way, so the pairing
grows; identities that only one of them draws stay unpaired, and the requests and meters of a ledger
do not count.  What planning does with data sets that are alike is alike.
-/

namespace DocQuery

/-- The ledgers of two runs: paired identities have been drawn in both. -/
structure Ledger.Paired (ρ : Pairing) (l l' : Ledger) : Prop where
  oneToOne : ρ.IsOneToOne
  drawn : ∀ m n, ρ m n → m < l.nextItem ∧ n < l'.nextItem

namespace Ledger.Paired

variable {ρ : Pairing} {l l' k k' : Ledger}

/-- More identities may be drawn in either run without being paired. -/
theorem mono (h : l.Paired ρ l') (hl : l.nextItem ≤ k.nextItem) (hl' : l'.nextItem ≤ k'.nextItem) :
    k.Paired ρ k' :=
  ⟨h.oneToOne, fun m n hmn =>
    ⟨Nat.lt_of_lt_of_le (h.drawn m n hmn).1 hl, Nat.lt_of_lt_of_le (h.drawn m n hmn).2 hl'⟩⟩

/-- An identity that both runs draw next is paired. -/
theorem draw (h : l.Paired ρ l') : Ledger.Paired
    (fun m n => ρ m n ∨ m = l.nextItem ∧ n = l'.nextItem)
    { l with nextItem := l.nextItem + 1 } { l' with nextItem := l'.nextItem + 1 } := by
  refine ⟨⟨⟨?_, ?_⟩, Or.inl h.oneToOne.zero⟩, ?_⟩
  · rintro m n m' (hm | ⟨rfl, rfl⟩) (hm' | ⟨rfl, hn⟩)
    · exact h.oneToOne.unique.1 hm hm'
    · exact absurd (h.drawn _ _ hm).2 (by omega)
    · exact absurd (h.drawn _ _ hm').2 (by omega)
    · rfl
  · rintro m n n' (hn | ⟨rfl, rfl⟩) (hn' | ⟨hm, rfl⟩)
    · exact h.oneToOne.unique.2 hn hn'
    · exact absurd (h.drawn _ _ hn).1 (by omega)
    · exact absurd (h.drawn _ _ hn').1 (by omega)
    · rfl
  · rintro m n (hmn | ⟨rfl, rfl⟩)
    · have := h.drawn m n hmn
      constructor <;> simp only <;> omega
    · exact ⟨Nat.lt_succ_self _, Nat.lt_succ_self _⟩

end Ledger.Paired

namespace Plan

variable {α β γ δ : Type} {ρ : Pairing}

/-! ## Alike plans -/

/-- Plans that end alike from all ledgers of two runs: in related results or in one failure.  Neither
takes back an identity. -/
def Alike (ρ : Pairing) (R : Pairing → α → β → Prop) (p : Plan α) (p' : Plan β) : Prop :=
  ∀ l l' : Ledger, l.Paired ρ l' → ∃ σ : Pairing, σ.Extends ρ ∧
    (p.run l).2.Paired σ (p'.run l').2 ∧
    (l.nextItem ≤ (p.run l).2.nextItem ∧ l'.nextItem ≤ (p'.run l').2.nextItem) ∧
    Agreeing (R σ) (p.run l).1 (p'.run l').1

variable {R : Pairing → α → β → Prop} {S : Pairing → γ → δ → Prop} {p : Plan α} {p' : Plan β}

theorem alike_pure {a : α} {b : β} (h : R ρ a b) : Alike ρ R (pure a) (pure b) := fun _ _ hl =>
  ⟨ρ, .refl ρ, hl, ⟨Nat.le_refl _, Nat.le_refl _⟩, .ok h⟩

theorem alike_throw (e : QueryError) : Alike ρ R (throw e) (throw e) := fun _ _ hl =>
  ⟨ρ, .refl ρ, hl, ⟨Nat.le_refl _, Nat.le_refl _⟩, .error e⟩

theorem alike_lift {x : Except QueryError α} {y : Except QueryError β} (h : Agreeing (R ρ) x y) :
    Alike ρ R (liftM x) (liftM y) := by
  cases h with
  | ok h => exact alike_pure h
  | error e => exact alike_throw e

theorem Alike.mono {R' : Pairing → α → β → Prop} (h : Alike ρ R p p')
    (hR : ∀ σ, σ.Extends ρ → σ.IsOneToOne → ∀ a b, R σ a b → R' σ a b) : Alike ρ R' p p' := by
  intro l l' hl
  obtain ⟨σ, hσ, hend, hle, hresult⟩ := h l l' hl
  exact ⟨σ, hσ, hend, hle, hresult.mono (hR σ hσ hend.oneToOne)⟩

/-- If one of two alike plans succeeds, so does the other one. -/
theorem Alike.gives (h : Alike ρ R p p') {l l' k : Ledger} (hl : l.Paired ρ l') {a : α}
    (hrun : p.run l = (.ok a, k)) : p'.Gives l' fun b k' => l'.nextItem ≤ k'.nextItem ∧
      ∃ σ : Pairing, σ.Extends ρ ∧ σ.IsOneToOne ∧ R σ a b := by
  obtain ⟨σ, hσ, hend, ⟨-, hle⟩, hresult⟩ := h l l' hl
  rcases hrun' : p'.run l' with ⟨result, k'⟩
  rw [hrun, hrun'] at hresult
  rw [hrun'] at hle
  cases hresult with
  | @ok _ b hab => exact ⟨b, k', hrun', hle, σ, hσ, hend.oneToOne, hab⟩

/-- What is alike may be shown under a pairing that is known to be one to one. -/
theorem alike_of_oneToOne (h : ρ.IsOneToOne → Alike ρ R p p') : Alike ρ R p p' := fun l l' hl =>
  h hl.oneToOne l l' hl

theorem Alike.bind {f : α → Plan γ} {f' : β → Plan δ} (h : Alike ρ R p p')
    (hf : ∀ σ, σ.Extends ρ → σ.IsOneToOne → ∀ a b, R σ a b → Alike σ S (f a) (f' b)) :
    Alike ρ S (p >>= f) (p' >>= f') := by
  intro l l' hl
  obtain ⟨σ, hσ, hend, hle, hresult⟩ := h l l' hl
  rcases hrun : p.run l with ⟨result, k⟩
  rcases hrun' : p'.run l' with ⟨result', k'⟩
  rw [hrun, hrun'] at hend hle hresult
  cases hresult with
  | error e =>
    rw [run_bind_of_failure hrun, run_bind_of_failure hrun']
    exact ⟨σ, hσ, hend, hle, .error e⟩
  | ok hab =>
    obtain ⟨τ, hτ, hend', hle', hresult'⟩ := hf σ hσ hend.oneToOne _ _ hab k k' hend
    rw [run_bind_of_run hrun, run_bind_of_run hrun']
    exact ⟨τ, hτ.trans hσ, hend', ⟨Nat.le_trans hle.1 hle'.1, Nat.le_trans hle.2 hle'.2⟩, hresult'⟩

/-! ## Identities -/

/-- Identities that both runs draw are paired, and were paired with nothing before. -/
theorem alike_drawItem :
    Alike ρ (fun σ m n => σ m n ∧ ∀ k, ¬ ρ m k ∧ ¬ ρ k n) drawItem drawItem := by
  intro l l' hl
  refine ⟨_, fun _ _ h => Or.inl h, hl.draw, ⟨Nat.le_succ _, Nat.le_succ _⟩,
    .ok ⟨Or.inr ⟨rfl, rfl⟩, fun k => ⟨fun h => ?_, fun h => ?_⟩⟩⟩
  · exact Nat.lt_irrefl _ (hl.drawn _ _ h).1
  · exact Nat.lt_irrefl _ (hl.drawn _ _ h).2

/-- Plans over related lists, one after the other. -/
theorem alike_mapM {T : Pairing → γ → δ → Prop} {as : List γ} {bs : List δ}
    (h : List.Forall₂ (T ρ) as bs) {f : γ → Plan α} {g : δ → Plan β}
    (hT : ∀ σ τ c d, τ.Extends σ → T σ c d → T τ c d)
    (hR : ∀ σ τ a b, τ.Extends σ → R σ a b → R τ a b)
    (hfg : ∀ σ c d, T σ c d → Alike σ R (f c) (g d)) :
    Alike ρ (fun σ => List.Forall₂ (R σ)) (as.mapM f) (bs.mapM g) := by
  induction as generalizing bs ρ with
  | nil =>
    cases h
    exact alike_pure .nil
  | cons c as ih =>
    cases h with
    | cons hcd hrest =>
      rw [List.mapM_cons, List.mapM_cons]
      refine (hfg _ _ _ hcd).bind fun σ hσ _ a b hab => ?_
      refine (ih (hrest.imp fun _ _ h => hT _ _ _ _ hσ h)).bind fun τ hτ _ more more' hmore => ?_
      exact alike_pure (.cons (hR _ _ _ _ hτ hab) hmore)

theorem alike_makeItems (columns : List Column) (scope : Option String) :
    Alike ρ Item.AllAlike (makeItems (columns.map fun c id => Item.ofColumn id c scope))
      (makeItems (columns.map fun c id => Item.ofColumn id c scope)) := by
  refine alike_mapM (List.forall₂_same.mpr fun make hmake => ?_)
    (T := fun _ make make' => ∃ c, make = (fun id => Item.ofColumn id c scope) ∧ make' = make)
    (fun _ _ _ _ _ h => h) (fun _ _ _ _ hσ h => h.mono hσ) ?_
  · obtain ⟨c, -, rfl⟩ := List.mem_map.mp hmake
    exact ⟨c, rfl, rfl⟩
  · rintro σ _ _ ⟨c, rfl, rfl⟩
    exact alike_drawItem.bind fun τ _ _ m n hmn =>
      alike_pure (Item.alike_ofColumn hmn.1 c scope)

/-! ## Notes -/

/-- A plan that succeeds and draws no identity. -/
def IsQuiet (p : Plan Unit) : Prop := ∀ l : Ledger, p.Gives l fun _ l' => l'.nextItem = l.nextItem

theorem isQuiet_recordPulls (d : RowSet) (pulls : Nat) : IsQuiet (d.recordPulls pulls) := fun _ =>
  RowSet.gives_recordPulls fun _ h => h

theorem isQuiet_close (d : RowSet) : IsQuiet d.close := fun _ => RowSet.gives_close fun _ h => h

theorem isQuiet_closeAll (sets : List RowSet) : IsQuiet (RowSet.closeAll sets) := fun _ =>
  RowSet.gives_closeAll fun _ h => h

theorem IsQuiet.bind {p q : Plan Unit} (hp : IsQuiet p) (hq : IsQuiet q) :
    IsQuiet (p >>= fun _ => q) := fun l =>
  gives_bind ((hp l).mono fun _ l' hl' => (hq l').mono fun _ _ h => h.trans hl')

theorem IsQuiet.alike {p p' : Plan Unit} (hp : IsQuiet p) (hp' : IsQuiet p') :
    Alike ρ (fun _ _ _ => True) p p' := by
  intro l l' hl
  obtain ⟨a, k, hrun, hk⟩ := hp l
  obtain ⟨b, k', hrun', hk'⟩ := hp' l'
  have hle := Nat.le_of_eq hk.symm
  have hle' := Nat.le_of_eq hk'.symm
  rw [hrun, hrun']
  exact ⟨ρ, .refl ρ, hl.mono hle hle', ⟨hle, hle'⟩, .ok trivial⟩

theorem alike_note (r r' : Request) : Alike ρ (fun _ _ _ => True) (note r) (note r') :=
  fun _ _ hl => ⟨ρ, .refl ρ, hl.mono (Nat.le_refl _) (Nat.le_refl _),
    ⟨Nat.le_refl _, Nat.le_refl _⟩, .ok trivial⟩

/-- A note that only one of two runs makes. -/
theorem Alike.note_left (h : Alike ρ R p p') (r : Request) :
    Alike ρ R (note r >>= fun _ => p) p' := by
  intro l l' hl
  exact h _ l' (hl.mono (Nat.le_refl _) (Nat.le_refl _))

theorem alike_handedOut {header header' : List Item}
    {outcomes outcomes' : List (Except QueryError Row)} (hheader : Item.AllAlike ρ header header')
    (houtcomes : Stream.AllAlike ρ outcomes outcomes') :
    Alike ρ RowSet.Alike (RowSet.handedOut header outcomes)
      (RowSet.handedOut header' outcomes') := by
  intro l l' hl
  refine ⟨ρ, .refl ρ, hl.mono (Nat.le_refl _) (Nat.le_refl _),
    ⟨Nat.le_refl _, Nat.le_refl _⟩, .ok ⟨hheader, ?_⟩⟩
  show Stream.AllAlike ρ (Stream.ofOutcomes _).outcomes (Stream.ofOutcomes _).outcomes
  rw [Stream.outcomes_ofOutcomes, Stream.outcomes_ofOutcomes]
  exact houtcomes

theorem run_orElseClosing_of_run {cleanup : Plan Unit} {a : α} {l k : Ledger}
    (h : p.run l = (.ok a, k)) : (p.orElseClosing cleanup).run l = (.ok a, k) := by
  have hgives : p.Gives l fun b l' => b = a ∧ l' = k := ⟨a, k, h, rfl, rfl⟩
  have hclosing : (p.orElseClosing cleanup).Gives l fun b l' => b = a ∧ l' = k :=
    gives_orElseClosing hgives
  obtain ⟨_, _, hrun, rfl, rfl⟩ := hclosing
  exact hrun

theorem run_orElseClosing_of_failure {cleanup : Plan Unit} {e : QueryError} {l k : Ledger}
    (h : p.run l = (.error e, k)) :
    (p.orElseClosing cleanup).run l = (cleanup >>= fun _ => throw e : Plan α).run k := by
  unfold orElseClosing tryCatch
  simp only [instMonadExceptOfMonadExceptOf, tryCatchThe, MonadExceptOf.tryCatch, ExceptT.tryCatch,
    ExceptT.run, ExceptT.mk, bind, StateT.bind]
  rw [show p l = (.error e, k) from h]

/-- A computation that succeeded needed no closing. -/
theorem run_of_orElseClosing {cleanup : Plan Unit} {a : α} {l k : Ledger}
    (h : (p.orElseClosing cleanup).run l = (.ok a, k)) : p.run l = (.ok a, k) := by
  rcases hrun : p.run l with ⟨result, k'⟩
  cases result with
  | ok b =>
    rw [run_orElseClosing_of_run hrun] at h
    exact h
  | error e =>
    rw [run_orElseClosing_of_failure hrun] at h
    exact absurd h run_bind_throw_ne_ok

theorem Alike.orElseClosing {cleanup cleanup' : Plan Unit} (h : Alike ρ R p p')
    (hclean : IsQuiet cleanup) (hclean' : IsQuiet cleanup') :
    Alike ρ R (p.orElseClosing cleanup) (p'.orElseClosing cleanup') := by
  intro l l' hl
  obtain ⟨σ, hσ, hend, hle, hresult⟩ := h l l' hl
  rcases hrun : p.run l with ⟨result, k⟩
  rcases hrun' : p'.run l' with ⟨result', k'⟩
  rw [hrun, hrun'] at hend hle hresult
  cases hresult with
  | ok hab =>
    rw [run_orElseClosing_of_run hrun, run_orElseClosing_of_run hrun']
    exact ⟨σ, hσ, hend, hle, .ok hab⟩
  | error e =>
    -- The cleanup draws nothing, and the failure is raised again after it.
    have hagain : Alike σ R (cleanup >>= fun _ => throw e) (cleanup' >>= fun _ => throw e) :=
      (hclean.alike hclean').bind fun _ _ _ _ _ _ => alike_throw e
    obtain ⟨τ, hτ, hend', hle', hresult'⟩ := hagain k k' hend
    rw [run_orElseClosing_of_failure hrun, run_orElseClosing_of_failure hrun']
    exact ⟨τ, hτ.trans hσ, hend', ⟨Nat.le_trans hle.1 hle'.1, Nat.le_trans hle.2 hle'.2⟩, hresult'⟩

end Plan

end DocQuery
