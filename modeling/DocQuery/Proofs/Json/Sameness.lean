import DocQuery.Json.Reader
import DocQuery.Proofs.Number.Sameness
import Mathlib.Data.List.Basic
import Mathlib.Data.List.Perm.Subperm

/-!
# DocQuery.Proofs.Json.Sameness — documents with distinct keys, and which are the same

An object is a list of members, and nothing in the type keeps a key from standing there twice.  No
document has such an object, because the only way to add a member is `Json.insertMember`, which
replaces the value of a key that is there (`Json.insertMember_keys_nodup`).  The reader keeps the
property at every depth, token by token (`Json.Reading.step_hasDistinctKeys`), so every document
that is read has it (`Json.read?_hasDistinctKeys`).

Documents are the same up to the order of object members.  The comparison of two objects only looks
up the members of the first one in the second, so that it is symmetric is an argument by counting:
as many distinct keys, all found on the other side, are all the keys there are.  That is where
distinct keys are needed; transitivity needs none.
-/

namespace DocQuery.Json

/-! ## Distinct keys at every depth -/

mutual

/-- Whether no object of a document has a key twice. -/
def hasDistinctKeys : Json → Bool
  | .array items => itemsHaveDistinctKeys items
  | .object members => decide (members.map (·.1)).Nodup && membersHaveDistinctKeys members
  | _ => true

/-- Whether no object within the items of an array has a key twice. -/
def itemsHaveDistinctKeys : List Json → Bool
  | [] => true
  | j :: rest => hasDistinctKeys j && itemsHaveDistinctKeys rest

/-- Whether no object within the members of an object has a key twice. -/
def membersHaveDistinctKeys : List (String × Json) → Bool
  | [] => true
  | (_, j) :: rest => hasDistinctKeys j && membersHaveDistinctKeys rest

end

theorem itemsHaveDistinctKeys_iff {items : List Json} :
    itemsHaveDistinctKeys items = true ↔ ∀ j ∈ items, j.hasDistinctKeys = true := by
  induction items with
  | nil => simp [itemsHaveDistinctKeys]
  | cons j rest ih => simp [itemsHaveDistinctKeys, ih]

theorem membersHaveDistinctKeys_iff {members : List (String × Json)} :
    membersHaveDistinctKeys members = true ↔ ∀ m ∈ members, m.2.hasDistinctKeys = true := by
  induction members with
  | nil => simp [membersHaveDistinctKeys]
  | cons m rest ih => simp [membersHaveDistinctKeys, ih]

theorem hasDistinctKeys_array_iff {items : List Json} :
    (Json.array items).hasDistinctKeys = true ↔ ∀ j ∈ items, j.hasDistinctKeys = true := by
  rw [hasDistinctKeys, itemsHaveDistinctKeys_iff]

theorem hasDistinctKeys_object_iff {members : List (String × Json)} :
    (Json.object members).hasDistinctKeys = true ↔
      (members.map (·.1)).Nodup ∧ ∀ m ∈ members, m.2.hasDistinctKeys = true := by
  rw [hasDistinctKeys, Bool.and_eq_true, decide_eq_true_iff, membersHaveDistinctKeys_iff]

/-! ## Adding a member -/

theorem mem_insertMember_keys {key k : String} {value : Json} {members : List (String × Json)} :
    k ∈ (insertMember members key value).map (·.1) ↔ k = key ∨ k ∈ members.map (·.1) := by
  induction members with
  | nil => simp [insertMember]
  | cons m rest ih =>
    unfold insertMember
    split
    next h => simp [h]
    next h =>
      simp only [List.map_cons, List.mem_cons, ih]
      exact or_left_comm

/-- **A member added never makes a key stand twice.** -/
theorem insertMember_keys_nodup {members : List (String × Json)} (key : String) (value : Json)
    (h : (members.map (·.1)).Nodup) : ((insertMember members key value).map (·.1)).Nodup := by
  induction members with
  | nil => simp [insertMember]
  | cons m rest ih =>
    rw [List.map_cons, List.nodup_cons] at h
    unfold insertMember
    split
    next => exact List.nodup_cons.mpr h
    next hne =>
      rw [List.map_cons, List.nodup_cons, mem_insertMember_keys]
      exact ⟨fun hmem => hmem.elim hne h.1, ih h.2⟩

theorem mem_insertMember {key : String} {value : Json} {members : List (String × Json)}
    {m : String × Json} (h : m ∈ insertMember members key value) : m.2 = value ∨ m ∈ members := by
  induction members with
  | nil => simp_all [insertMember]
  | cons first rest ih =>
    unfold insertMember at h
    split at h
    next =>
      rcases List.mem_cons.mp h with rfl | hm
      · exact Or.inl rfl
      · exact Or.inr (List.mem_cons_of_mem _ hm)
    next =>
      rcases List.mem_cons.mp h with rfl | hm
      · exact Or.inr List.mem_cons_self
      · exact (ih hm).imp_right (List.mem_cons_of_mem _)

theorem hasDistinctKeys_insertMember {members : List (String × Json)} {key : String} {value : Json}
    (h : (Json.object members).hasDistinctKeys = true) (hv : value.hasDistinctKeys = true) :
    (Json.object (insertMember members key value)).hasDistinctKeys = true := by
  rw [hasDistinctKeys_object_iff] at h ⊢
  refine ⟨insertMember_keys_nodup key value h.1, fun m hm => ?_⟩
  rcases mem_insertMember hm with heq | hmem
  · rw [heq]
    exact hv
  · exact h.2 m hmem

/-! ## Tokens -/

/-- A token that is a value by itself has no key twice. -/
def Token.HasDistinctKeys : Token → Prop
  | .scalar v => v.hasDistinctKeys = true
  | _ => True

/-- What every step keeps, a run keeps. -/
theorem foldlM_invariant {σ α : Type} {f : σ → α → Option σ} {P : σ → Prop} {l : List α}
    (hstep : ∀ s a s', a ∈ l → P s → f s a = some s' → P s') {s s' : σ} (hs : P s)
    (h : l.foldlM f s = some s') : P s' := by
  induction l generalizing s with
  | nil =>
    cases h
    exact hs
  | cons a rest ih =>
    rw [List.foldlM_cons, Option.bind_eq_bind, Option.bind_eq_some_iff] at h
    obtain ⟨next, hnext, hrest⟩ := h
    refine ih (fun s a s' hmem => hstep s a s' (List.mem_cons_of_mem _ hmem)) ?_ hrest
    exact hstep s a next List.mem_cons_self hs hnext

/-- What both branches of a choice give, the choice gives. -/
theorem of_ite_eq_some {α : Type} {p : Prop} [Decidable p] {P : α → Prop} {x y : Option α}
    (hx : ∀ a, x = some a → P a) (hy : ∀ a, y = some a → P a) :
    ∀ a, (if p then x else y) = some a → P a := by
  intro a h
  by_cases hp : p
  · exact hx a (by rwa [if_pos hp] at h)
  · exact hy a (by rwa [if_neg hp] at h)

namespace Scan

theorem wordToken?_hasDistinctKeys {w : List Char} {t : Token} (h : wordToken? w = some t) :
    t.HasDistinctKeys := by
  have hscalar (v : Json) (hv : v.hasDistinctKeys = true) :
      ∀ t, some (Token.scalar v) = some t → t.HasDistinctKeys := by
    rintro t ⟨⟩
    exact hv
  unfold wordToken? at h
  refine of_ite_eq_some (hscalar _ rfl) (of_ite_eq_some (hscalar _ rfl)
    (of_ite_eq_some (hscalar _ rfl) ?_)) t h
  rintro t ⟨⟩

theorem start?_hasDistinctKeys {tokens : List Token} {c : Char} {scan : Scan}
    (ht : ∀ t ∈ tokens, t.HasDistinctKeys) (h : start? tokens c = some scan) :
    ∀ t ∈ scan.tokens, t.HasDistinctKeys := by
  have hkept (mode : Mode) : ∀ scan, some (Scan.mk tokens mode) = some scan →
      ∀ t ∈ scan.tokens, t.HasDistinctKeys := by
    rintro scan ⟨⟩
    exact ht
  have hmark {mark : Token} (hmark : mark.HasDistinctKeys) :
      ∀ scan, some (Scan.mk (mark :: tokens) .idle) = some scan →
        ∀ t ∈ scan.tokens, t.HasDistinctKeys := by
    rintro scan ⟨⟩
    exact List.forall_mem_cons.mpr ⟨hmark, ht⟩
  have hnone : ∀ scan : Scan, none = some scan → ∀ t ∈ scan.tokens, t.HasDistinctKeys := by
    rintro scan ⟨⟩
  have hall : ∀ scan, start? tokens c = some scan → ∀ t ∈ scan.tokens, t.HasDistinctKeys := by
    unfold start?
    refine of_ite_eq_some (hkept _) ?_
    iterate 6 refine of_ite_eq_some (hmark trivial) ?_
    iterate 3 refine of_ite_eq_some (hkept _) ?_
    exact hnone
  exact hall scan h

theorem finish?_hasDistinctKeys {scan : Scan} {tokens : List Token}
    (ht : ∀ t ∈ scan.tokens, t.HasDistinctKeys) (h : scan.finish? = some tokens) :
    ∀ t ∈ tokens, t.HasDistinctKeys := by
  obtain ⟨done, mode⟩ := scan
  cases mode with
  | idle =>
    cases h
    exact ht
  | number chars =>
    obtain ⟨n, -, rfl⟩ := Option.map_eq_some_iff.mp h
    exact List.forall_mem_cons.mpr ⟨rfl, ht⟩
  | word chars =>
    obtain ⟨t, hword, rfl⟩ := Option.map_eq_some_iff.mp h
    exact List.forall_mem_cons.mpr ⟨wordToken?_hasDistinctKeys hword, ht⟩
  | string | escape | unicode | pair => cases h

theorem step_hasDistinctKeys {scan next : Scan} {c : Char}
    (ht : ∀ t ∈ scan.tokens, t.HasDistinctKeys) (h : scan.step c = some next) :
    ∀ t ∈ next.tokens, t.HasDistinctKeys := by
  obtain ⟨tokens, mode⟩ := scan
  cases mode with
  | idle => exact start?_hasDistinctKeys ht h
  | string done =>
    simp only [step] at h
    split_ifs at h <;> cases h
    · exact List.forall_mem_cons.mpr ⟨trivial, ht⟩
    all_goals exact ht
  | escape done =>
    simp only [step] at h
    split_ifs at h
    · cases h
      exact ht
    · obtain ⟨e, -, rfl⟩ := Option.map_eq_some_iff.mp h
      exact ht
  | unicode done high value left =>
    simp only [step] at h
    split at h
    · cases h
    · split_ifs at h
      · obtain ⟨mode, -, rfl⟩ := Option.map_eq_some_iff.mp h
        exact ht
      · cases h
        exact ht
  | pair done high marked =>
    simp only [step] at h
    split_ifs at h <;> cases h <;> exact ht
  | number done =>
    simp only [step] at h
    split_ifs at h
    · cases h
      exact ht
    · obtain ⟨finished, hfinish, hstart⟩ := Option.bind_eq_some_iff.mp h
      exact start?_hasDistinctKeys (finish?_hasDistinctKeys ht hfinish) hstart
  | word done =>
    simp only [step] at h
    split_ifs at h
    · cases h
      exact ht
    · obtain ⟨finished, hfinish, hstart⟩ := Option.bind_eq_some_iff.mp h
      exact start?_hasDistinctKeys (finish?_hasDistinctKeys ht hfinish) hstart

end Scan

theorem tokens?_hasDistinctKeys {s : List Char} {tokens : List Token}
    (h : tokens? s = some tokens) : ∀ t ∈ tokens, t.HasDistinctKeys := by
  obtain ⟨reversed, hrun, rfl⟩ := Option.map_eq_some_iff.mp h
  obtain ⟨scan, hscan, hfinish⟩ := Option.bind_eq_some_iff.mp hrun
  have hkept : ∀ t ∈ scan.tokens, t.HasDistinctKeys :=
    foldlM_invariant (P := fun scan : Scan => ∀ t ∈ scan.tokens, t.HasDistinctKeys)
      (fun _ _ _ _ ht hstep => Scan.step_hasDistinctKeys ht hstep) (List.forall_mem_nil _) hscan
  intro t ht
  exact Scan.finish?_hasDistinctKeys hkept hfinish t (List.mem_reverse.mp ht)

/-! ## Reading -/

/-- A frame holds nothing with a key twice. -/
def Frame.HasDistinctKeys : Frame → Prop
  | .array items => (Json.array items).hasDistinctKeys = true
  | .object members _ => (Json.object members).hasDistinctKeys = true

/-- What was read last holds nothing with a key twice. -/
def Expect.HasDistinctKeys : Expect → Prop
  | .key members => (Json.object members).hasDistinctKeys = true
  | .separator v => v.hasDistinctKeys = true
  | _ => True

namespace Reading

/-- Nothing that was read so far has a key twice. -/
structure HasDistinctKeys (r : Reading) : Prop where
  frames : ∀ f ∈ r.frames, f.HasDistinctKeys
  expect : r.expect.HasDistinctKeys

theorem push?_hasDistinctKeys {frames : List Frame} {frame : Frame} {expect : Expect} {r : Reading}
    (hframes : ∀ f ∈ frames, f.HasDistinctKeys) (hframe : frame.HasDistinctKeys)
    (hexpect : expect.HasDistinctKeys) (h : push? frames frame expect = some r) :
    r.HasDistinctKeys := by
  unfold push? at h
  split_ifs at h
  cases h
  exact ⟨List.forall_mem_cons.mpr ⟨hframe, hframes⟩, hexpect⟩

theorem value?_hasDistinctKeys {frames : List Frame} {t : Token} {r : Reading}
    (hframes : ∀ f ∈ frames, f.HasDistinctKeys) (ht : t.HasDistinctKeys)
    (h : value? frames t = some r) : r.HasDistinctKeys := by
  cases t with
  | scalar v =>
    cases h
    exact ⟨hframes, ht⟩
  | string s =>
    cases h
    exact ⟨hframes, rfl⟩
  | openArray =>
    have hframe : (Frame.array []).HasDistinctKeys := rfl
    have hexpect : Expect.firstItem.HasDistinctKeys := trivial
    exact push?_hasDistinctKeys hframes hframe hexpect h
  | openObject =>
    have hframe : (Frame.object [] "").HasDistinctKeys := rfl
    have hexpect : Expect.firstKey.HasDistinctKeys := trivial
    exact push?_hasDistinctKeys hframes hframe hexpect h
  | closeArray | closeObject | comma | colon => cases h

/-- **One token keeps every object free of repeated keys.** -/
theorem step_hasDistinctKeys {r next : Reading} {t : Token} (hr : r.HasDistinctKeys)
    (ht : t.HasDistinctKeys) (h : r.step t = some next) : next.HasDistinctKeys := by
  obtain ⟨frames, expect⟩ := r
  obtain ⟨hframes, hexpect⟩ := hr
  simp only [step] at h
  -- A value begins, a container ends, or a mark moves on; only a finished member changes an object.
  split at h
  case h_1 => exact value?_hasDistinctKeys hframes ht h
  case h_3 => exact value?_hasDistinctKeys hframes ht h
  case h_12 => cases h
  all_goals
    cases h
    simp only [List.mem_cons, forall_eq_or_imp] at hframes
  case h_2 => exact ⟨hframes.2, rfl⟩
  case h_4 => exact ⟨hframes.2, rfl⟩
  case h_5 => exact ⟨List.forall_mem_cons.mpr hframes, trivial⟩
  case h_6 => exact ⟨List.forall_mem_cons.mpr ⟨hexpect, hframes⟩, trivial⟩
  case h_7 => exact ⟨hframes, trivial⟩
  case h_8 =>
    refine ⟨List.forall_mem_cons.mpr ⟨?_, hframes.2⟩, trivial⟩
    exact hasDistinctKeys_array_iff.mpr
      (List.forall_mem_cons.mpr ⟨hexpect, hasDistinctKeys_array_iff.mp hframes.1⟩)
  case h_9 =>
    refine ⟨hframes.2, hasDistinctKeys_array_iff.mpr fun j hj => ?_⟩
    rcases List.mem_cons.mp (List.mem_reverse.mp hj) with rfl | hmem
    · exact hexpect
    · exact hasDistinctKeys_array_iff.mp hframes.1 j hmem
  case h_10 => exact ⟨hframes.2, hasDistinctKeys_insertMember hframes.1 hexpect⟩
  case h_11 => exact ⟨hframes.2, hasDistinctKeys_insertMember hframes.1 hexpect⟩

end Reading

/-- **Every document that is read has distinct keys**, however deep its objects lie. -/
theorem read?_hasDistinctKeys {s : List Char} {j : Json} (h : read? s = some j) :
    j.hasDistinctKeys = true := by
  obtain ⟨tokens, htokens, hrun⟩ := Option.bind_eq_some_iff.mp h
  obtain ⟨r, hfold, hresult⟩ := Option.bind_eq_some_iff.mp hrun
  have hstart : Reading.HasDistinctKeys ⟨[], .value⟩ := ⟨List.forall_mem_nil _, trivial⟩
  have hr : r.HasDistinctKeys :=
    foldlM_invariant (fun _ t _ ht hs hstep =>
      Reading.step_hasDistinctKeys hs (tokens?_hasDistinctKeys htokens t ht) hstep) hstart hfold
  unfold Reading.result? at hresult
  split at hresult
  · cases hresult
    exact hr.expect
  · cases hresult

/-! ## Sameness of documents is an equivalence -/

/-! ### Induction over documents -/

/-- A property of documents that containers inherit from what they hold. -/
@[elab_as_elim]
theorem induction {P : Json → Prop} (null : P .null) (bool : ∀ b, P (.bool b))
    (number : ∀ n, P (.number n)) (string : ∀ s, P (.string s))
    (array : ∀ items, (∀ j ∈ items, P j) → P (.array items))
    (object : ∀ members, (∀ m ∈ members, P m.2) → P (.object members)) (j : Json) : P j :=
  @Json.rec P (fun items => ∀ j ∈ items, P j) (fun members => ∀ m ∈ members, P m.2)
    (fun m => P m.2) null bool number string array object (List.forall_mem_nil _)
    (fun _ _ hj hrest => List.forall_mem_cons.mpr ⟨hj, hrest⟩) (List.forall_mem_nil _)
    (fun _ _ hm hrest => List.forall_mem_cons.mpr ⟨hm, hrest⟩) (fun _ _ hj => hj) j

/-! ### Members -/

theorem mem_of_member? {key : String} {members : List (String × Json)} {v : Json}
    (h : member? key members = some v) : (key, v) ∈ members := by
  induction members with
  | nil => cases h
  | cons m rest ih =>
    unfold member? at h
    split_ifs at h with hkey
    · cases h
      rw [← hkey]
      exact List.mem_cons_self
    · exact List.mem_cons_of_mem _ (ih h)

theorem member?_of_mem {key : String} {members : List (String × Json)} {v : Json}
    (hkeys : (members.map (·.1)).Nodup) (h : (key, v) ∈ members) :
    member? key members = some v := by
  induction members with
  | nil => cases h
  | cons m rest ih =>
    rw [List.map_cons, List.nodup_cons] at hkeys
    unfold member?
    rcases List.mem_cons.mp h with rfl | hrest
    · rw [if_pos rfl]
    · have hne : m.1 ≠ key := by
        rintro rfl
        exact hkeys.1 (List.mem_map.mpr ⟨_, hrest, rfl⟩)
      rw [if_neg hne]
      exact ih hkeys.2 hrest

theorem sameItems_iff {as bs : List Json} :
    sameItems as bs = true ↔ List.Forall₂ (fun a b => a.same b = true) as bs := by
  induction as generalizing bs with
  | nil => cases bs <;> simp [sameItems]
  | cons a as ih => cases bs <;> simp [sameItems, ih]

theorem sameMembers_iff {xs ys : List (String × Json)} :
    sameMembers xs ys = true ↔ ∀ m ∈ xs, ∃ w, member? m.1 ys = some w ∧ m.2.same w = true := by
  induction xs with
  | nil => simp [sameMembers]
  | cons m rest ih =>
    rw [sameMembers, Bool.and_eq_true, ih, List.forall_mem_cons]
    refine and_congr_left fun _ => ?_
    cases member? m.1 ys with
    | none => simp
    | some w => simp

theorem forall₂_symm {R : Json → Json → Prop} {as bs : List Json}
    (hsymm : ∀ a ∈ as, ∀ b ∈ bs, R a b → R b a) (h : List.Forall₂ R as bs) :
    List.Forall₂ R bs as := by
  induction h with
  | nil => exact List.Forall₂.nil
  | cons hab _ ih =>
    refine List.Forall₂.cons (hsymm _ List.mem_cons_self _ List.mem_cons_self hab) (ih ?_)
    exact fun a ha b hb => hsymm a (List.mem_cons_of_mem _ ha) b (List.mem_cons_of_mem _ hb)

theorem forall₂_trans {R : Json → Json → Prop} {as bs cs : List Json}
    (htrans : ∀ a ∈ as, ∀ b c, R a b → R b c → R a c) (h : List.Forall₂ R as bs)
    (h' : List.Forall₂ R bs cs) : List.Forall₂ R as cs := by
  induction h generalizing cs with
  | nil => exact h'
  | cons hab _ ih =>
    cases h' with
    | cons hbc hrest =>
      refine List.Forall₂.cons (htrans _ List.mem_cons_self _ _ hab hbc) (ih ?_ hrest)
      exact fun a ha => htrans a (List.mem_cons_of_mem _ ha)

/-! ### The equivalence -/

/-- **Every document is the same as itself**, if its keys are distinct. -/
theorem same_self (j : Json) (hj : j.hasDistinctKeys = true) : j.same j = true := by
  induction j using Json.induction with
  | null => rfl
  | bool b => exact beq_self_eq_true b
  | number n => exact n.same_self
  | string s => exact beq_self_eq_true s
  | array items ih =>
    rw [hasDistinctKeys_array_iff] at hj
    rw [same, sameItems_iff, List.forall₂_same]
    exact fun j hmem => ih j hmem (hj j hmem)
  | object members ih =>
    rw [hasDistinctKeys_object_iff] at hj
    rw [same, Bool.and_eq_true, sameMembers_iff]
    refine ⟨beq_self_eq_true _, fun m hmem => ⟨m.2, ?_, ih m hmem (hj.2 m hmem)⟩⟩
    exact member?_of_mem hj.1 hmem

/-- As many distinct keys, all found among the others, are all the others. -/
theorem keys_subset {xs ys : List (String × Json)} (hkeys : (xs.map (·.1)).Nodup)
    (hlength : xs.length = ys.length)
    (hfound : ∀ m ∈ xs, ∃ w, member? m.1 ys = some w) : ys.map (·.1) ⊆ xs.map (·.1) := by
  have hsubset : xs.map (·.1) ⊆ ys.map (·.1) := by
    intro key hkey
    obtain ⟨m, hm, rfl⟩ := List.mem_map.mp hkey
    obtain ⟨w, hw⟩ := hfound m hm
    exact List.mem_map.mpr ⟨_, mem_of_member? hw, rfl⟩
  have hperm : (xs.map (·.1)).Perm (ys.map (·.1)) := by
    refine (hkeys.subperm hsubset).perm_of_length_le (Nat.le_of_eq ?_)
    rw [List.length_map, List.length_map, hlength]
  exact hperm.symm.subset

theorem same_symm {a b : Json} (ha : a.hasDistinctKeys = true) (hb : b.hasDistinctKeys = true)
    (h : a.same b = true) : b.same a = true := by
  induction a using Json.induction generalizing b with
  | null =>
    cases b with
    | null => rfl
    | _ => cases h
  | bool x =>
    cases b with
    | bool y => exact BEq.symm h
    | _ => cases h
  | number n =>
    cases b with
    | number m => exact (JsonNumber.same_comm m n).trans h
    | _ => cases h
  | string s =>
    cases b with
    | string t => exact BEq.symm h
    | _ => cases h
  | array as ih =>
    cases b with
    | array bs =>
      rw [hasDistinctKeys_array_iff] at ha hb
      rw [same, sameItems_iff] at h ⊢
      exact forall₂_symm (fun a hmem b hb' hab => ih a hmem (ha a hmem) (hb b hb') hab) h
    | _ => cases h
  | object xs ih =>
    cases b with
    | object ys =>
      rw [hasDistinctKeys_object_iff] at ha hb
      rw [same, Bool.and_eq_true, beq_iff_eq, sameMembers_iff] at h ⊢
      obtain ⟨hlength, hxs⟩ := h
      refine ⟨hlength.symm, fun m hm => ?_⟩
      -- The key of `m` is a key of `xs` by counting.  Looked up in `ys` again it finds `m` itself,
      -- because no other member there has that key.
      have hkey : m.1 ∈ xs.map (·.1) :=
        keys_subset ha.1 hlength (fun m hm => (hxs m hm).imp fun _ hw => hw.1)
          (List.mem_map_of_mem hm)
      obtain ⟨n, hn, hnm⟩ := List.mem_map.mp hkey
      obtain ⟨w, hw, hsame⟩ := hxs n hn
      have hwm : w = m.2 := by
        rw [hnm, member?_of_mem hb.1 hm] at hw
        exact (Option.some.inj hw).symm
      refine ⟨n.2, ?_, ?_⟩
      · rw [← hnm]
        exact member?_of_mem ha.1 hn
      · rw [← hwm]
        exact ih n hn (ha.2 n hn) (hwm ▸ hb.2 m hm) hsame
    | _ => cases h

/-- **Sameness of documents with distinct keys is symmetric.** -/
theorem same_comm {a b : Json} (ha : a.hasDistinctKeys = true) (hb : b.hasDistinctKeys = true) :
    a.same b = b.same a :=
  Bool.eq_iff_iff.mpr ⟨same_symm ha hb, same_symm hb ha⟩

/-- **Sameness of documents is transitive.** -/
theorem same_trans {a b c : Json} (hab : a.same b = true) (hbc : b.same c = true) :
    a.same c = true := by
  induction a using Json.induction generalizing b c with
  | null =>
    cases b with
    | null => exact hbc
    | _ => cases hab
  | bool x =>
    cases b with
    | bool y =>
      rw [beq_iff_eq.mp (show (x == y) = true from hab)]
      exact hbc
    | _ => cases hab
  | number l =>
    cases b with
    | number m =>
      cases c with
      | number n => exact JsonNumber.same_trans hab hbc
      | _ => cases hbc
    | _ => cases hab
  | string s =>
    cases b with
    | string t =>
      rw [beq_iff_eq.mp (show (s == t) = true from hab)]
      exact hbc
    | _ => cases hab
  | array as ih =>
    cases b with
    | array bs =>
      cases c with
      | array cs =>
        rw [same, sameItems_iff] at hab hbc ⊢
        exact forall₂_trans (fun a ha b c => ih a ha) hab hbc
      | _ => cases hbc
    | _ => cases hab
  | object xs ih =>
    cases b with
    | object ys =>
      cases c with
      | object zs =>
        rw [same, Bool.and_eq_true, beq_iff_eq, sameMembers_iff] at hab hbc ⊢
        refine ⟨hab.1.trans hbc.1, fun m hm => ?_⟩
        obtain ⟨v, hv, hmv⟩ := hab.2 m hm
        obtain ⟨w, hw, hvw⟩ := hbc.2 (m.1, v) (mem_of_member? hv)
        exact ⟨w, hw, ih m hm hmv hvw⟩
      | _ => cases hbc
    | _ => cases hab

end DocQuery.Json
