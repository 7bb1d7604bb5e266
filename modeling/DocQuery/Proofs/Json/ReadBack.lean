import DocQuery.Proofs.Json.Scanning
import Mathlib.Data.List.Induction

/-!
# DocQuery.Proofs.Json.ReadBack — written documents read back

What reading the spread text of a document gives is the document again with every number as it is
read from its own text, if containers are not nested too deep (`Json.reread?`).  Integers are read
as they are.  The text of a double stands for it (`Binary64.readBinary64?_write`), but the reader of
documents may miss it by a unit, because it takes one conversion and one operation; whether it does
is decided by reading (`Json.numberReadsBack`).  So a text gives its document back exactly if that has
distinct keys, is no deeper than the reader goes, and has no double that the reader misses
(`Json.read?_spread_eq_some_iff`).
-/

namespace DocQuery.Json

/-! ## What a text is read as -/

mutual

/-- The document that the text of a document is read as, if there is `room` for so many containers
one within the other: every number is read from its text, and members are added one by one. -/
def reread? (room : Nat) : Json → Option Json
  | .null => some .null
  | .bool b => some (.bool b)
  | .number n => (readNumber? n.write).map .number
  | .string s => some (.string s)
  | .array items => if 0 < room then (rereadItems? (room - 1) items).map .array else none
  | .object members =>
    if 0 < room then
      (rereadMembers? (room - 1) members).map fun ms =>
        .object (ms.foldl (fun ms m => insertMember ms m.1 m.2) [])
    else none

/-- The items of an array as they are read. -/
def rereadItems? (room : Nat) : List Json → Option (List Json)
  | [] => some []
  | item :: rest =>
    (reread? room item).bind fun item => (rereadItems? room rest).map (item :: ·)

/-- The members of an object as they are read. -/
def rereadMembers? (room : Nat) : List (String × Json) → Option (List (String × Json))
  | [] => some []
  | (k, v) :: rest =>
    (reread? room v).bind fun v => (rereadMembers? room rest).map ((k, v) :: ·)

end

/-! ## Runs of tokens -/

namespace Reading

/-- The state after tokens, if there are some and they can be read. -/
def run? (tokens? : Option (List Token)) (r : Reading) : Option Reading :=
  tokens?.bind fun tokens => tokens.foldlM step r

theorem run?_appended (first second : Option (List Token)) (r : Reading) :
    run? (appended? first second) r = (run? first r).bind (run? second) := by
  cases first with
  | none => rfl
  | some tokens =>
    cases second with
    | none =>
      show none = (tokens.foldlM step r).bind fun _ => none
      cases tokens.foldlM step r <;> rfl
    | some more => exact List.foldlM_append

/-- A value is read at the start of an array as it is read anywhere else. -/
theorem run?_tokensOf?_firstItem (j : Json) (frames : List Frame) :
    run? (tokensOf? j) ⟨.array [] :: frames, .firstItem⟩ =
      run? (tokensOf? j) ⟨.array [] :: frames, .value⟩ := by
  cases j with
  | null | bool | string => rfl
  | number n =>
    rw [tokensOf?]
    cases readNumber? n.write <;> rfl
  | array items =>
    cases items with
    | nil => rfl
    | cons item items => rw [tokensOf?, run?_appended, run?_appended]; rfl
  | object members =>
    cases members with
    | nil => rfl
    | cons m members => rw [tokensOf?, run?_appended, run?_appended]; rfl

/-- How many more containers may be opened within those that are open. -/
def room (frames : List Frame) : Nat := depthLimit - frames.length

theorem room_cons (frame : Frame) (frames : List Frame) : room (frame :: frames) = room frames - 1 := by
  simp only [room, List.length_cons]
  omega

theorem push?_eq (frames : List Frame) (frame : Frame) (expect : Expect) :
    push? frames frame expect =
      if 0 < room frames then some ⟨frame :: frames, expect⟩ else none := by
  unfold push? room
  congr 1
  exact propext ⟨fun h => by omega, fun h => by omega⟩

/-! ## Documents -/

/-- A document that its tokens are read as. -/
def ReadAs (j : Json) : Prop :=
  ∀ frames, run? (tokensOf? j) ⟨frames, .value⟩ =
    (reread? (room frames) j).map fun k => ⟨frames, .separator k⟩

/-- The items behind those that were read, up to the end of the array. -/
theorem run?_moreItems {items : List Json} (h : ∀ j ∈ items, ReadAs j) (frames : List Frame)
    (done : List Json) (last : Json) :
    (run? (moreItemTokens? items) ⟨.array done :: frames, .separator last⟩).bind
        (run? (some [.closeArray])) =
      (rereadItems? (room frames - 1) items).map fun more =>
        ⟨frames, .separator (.array ((last :: done).reverse ++ more))⟩ := by
  induction items generalizing done last with
  | nil =>
    have hclose : run? (some [.closeArray]) ⟨.array done :: frames, .separator last⟩ =
        some ⟨frames, .separator (.array (last :: done).reverse)⟩ := rfl
    rw [moreItemTokens?, rereadItems?, Option.map_some, List.append_nil, ← hclose]
    rfl
  | cons item rest ih =>
    have hcomma : run? (some [.comma]) ⟨.array done :: frames, .separator last⟩ =
        some ⟨.array (last :: done) :: frames, .value⟩ := rfl
    have hitem := h item List.mem_cons_self (.array (last :: done) :: frames)
    have hrest := ih (fun j hj => h j (List.mem_cons_of_mem _ hj)) (last :: done)
    rw [room_cons] at hitem
    rw [moreItemTokens?, run?_appended, hcomma, Option.bind_some, run?_appended, hitem,
      rereadItems?]
    cases reread? (room frames - 1) item with
    | none => rfl
    | some k =>
      rw [Option.map_some, Option.bind_some, hrest, Option.bind_some, Option.map_map]
      simp [Function.comp_def]

/-- The members behind those that were read, up to the end of the object. -/
theorem run?_moreMembers {members : List (String × Json)} (h : ∀ m ∈ members, ReadAs m.2)
    (frames : List Frame) (done : List (String × Json)) (key : String) (last : Json) :
    (run? (moreMemberTokens? members) ⟨.object done key :: frames, .separator last⟩).bind
        (run? (some [.closeObject])) =
      (rereadMembers? (room frames - 1) members).map fun more =>
        ⟨frames, .separator (.object (more.foldl (fun ms m => insertMember ms m.1 m.2)
          (insertMember done key last)))⟩ := by
  induction members generalizing done key last with
  | nil => rfl
  | cons m rest ih =>
    have hkey : run? (some [.comma, .string m.1, .colon]) ⟨.object done key :: frames, .separator last⟩ =
        some ⟨.object (insertMember done key last) m.1 :: frames, .value⟩ := rfl
    have hvalue := h m List.mem_cons_self (.object (insertMember done key last) m.1 :: frames)
    have hrest := ih (fun j hj => h j (List.mem_cons_of_mem _ hj)) (insertMember done key last) m.1
    rw [room_cons] at hvalue
    rw [moreMemberTokens?, run?_appended, hkey, Option.bind_some, run?_appended, hvalue,
      rereadMembers?]
    cases reread? (room frames - 1) m.2 with
    | none => rfl
    | some k =>
      rw [Option.map_some, Option.bind_some, hrest, Option.bind_some, Option.map_map]
      rfl

theorem run?_single (t : Token) (r : Reading) : run? (some [t]) r = r.step t := by
  show (r.step t).bind some = r.step t
  cases r.step t <;> rfl

theorem run?_openArray (frames : List Frame) :
    run? (some [.openArray]) ⟨frames, .value⟩ =
      if 0 < room frames then some ⟨.array [] :: frames, .firstItem⟩ else none := by
  rw [run?_single, ← push?_eq]
  rfl

theorem run?_openObject (frames : List Frame) :
    run? (some [.openObject]) ⟨frames, .value⟩ =
      if 0 < room frames then some ⟨.object [] "" :: frames, .firstKey⟩ else none := by
  rw [run?_single, ← push?_eq]
  rfl

theorem run?_openMember (frames : List Frame) (key : String) :
    run? (some [.openObject, .string key, .colon]) ⟨frames, .value⟩ =
      if 0 < room frames then some ⟨.object [] key :: frames, .value⟩ else none := by
  show (push? frames (.object [] "") .firstKey).bind _ = _
  rw [push?_eq]
  split_ifs <;> rfl

theorem readAs_array {items : List Json} (h : ∀ j ∈ items, ReadAs j) : ReadAs (.array items) := by
  intro frames
  rw [reread?]
  cases items with
  | nil =>
    have htokens : tokensOf? (.array []) = appended? (some [.openArray]) (some [.closeArray]) := rfl
    rw [htokens, run?_appended, run?_openArray]
    split_ifs <;> rfl
  | cons item items =>
    have hitem := h item List.mem_cons_self (.array [] :: frames)
    rw [room_cons] at hitem
    rw [tokensOf?, run?_appended, run?_openArray]
    split_ifs with hroom
    · rw [Option.bind_some, run?_appended, run?_tokensOf?_firstItem, hitem, rereadItems?]
      cases reread? (room frames - 1) item with
      | none => rfl
      | some k =>
        have hrest := run?_moreItems (fun j hj => h j (List.mem_cons_of_mem _ hj)) frames [] k
        rw [Option.map_some, Option.bind_some, run?_appended, hrest]
        simp [Function.comp_def]
    · rfl

theorem readAs_object {members : List (String × Json)} (h : ∀ m ∈ members, ReadAs m.2) :
    ReadAs (.object members) := by
  intro frames
  rw [reread?]
  cases members with
  | nil =>
    have htokens : tokensOf? (.object []) = appended? (some [.openObject]) (some [.closeObject]) :=
      rfl
    rw [htokens, run?_appended, run?_openObject]
    split_ifs <;> rfl
  | cons m members =>
    have hvalue := h m List.mem_cons_self (.object [] m.1 :: frames)
    rw [room_cons] at hvalue
    rw [tokensOf?, run?_appended, run?_openMember]
    split_ifs with hroom
    · rw [Option.bind_some, run?_appended, hvalue, rereadMembers?]
      cases reread? (room frames - 1) m.2 with
      | none => rfl
      | some k =>
        have hrest := run?_moreMembers (fun j hj => h j (List.mem_cons_of_mem _ hj)) frames [] m.1 k
        rw [Option.map_some, Option.bind_some, run?_appended, hrest]
        simp [Function.comp_def]
    · rfl

/-- **The tokens of a document are read as the document with its numbers read**, whatever containers
are open, if there is room for its own. -/
theorem readAs (j : Json) : ReadAs j := by
  induction j using Json.induction with
  | null | bool | string => exact fun _ => rfl
  | number n =>
    intro frames
    rw [tokensOf?, reread?]
    cases readNumber? n.write <;> rfl
  | array items ih => exact readAs_array ih
  | object members ih => exact readAs_object ih

end Reading

/-- **What the text of a document is read as.** -/
theorem read?_spread (j : Json) :
    read? (spread 0 j ++ ['\n']) = reread? Reading.depthLimit j := by
  have hrun : ((tokensOf? j).bind fun tokens => tokens.foldlM Reading.step ⟨[], .value⟩) =
      (reread? Reading.depthLimit j).map fun k => ⟨[], .separator k⟩ := Reading.readAs j []
  rw [read?, tokens?_spread, ← Option.bind_assoc, hrun]
  cases reread? Reading.depthLimit j <;> rfl

/-! ## Integers -/

section Integers

open Decimal (digitValue ofDigits)

/-- Digits only make a number greater. -/
theorem le_foldl_digits (ds : List Char) (n : Nat) :
    n ≤ ds.foldl (fun n d => 10 * n + digitValue d) n := by
  induction ds generalizing n with
  | nil => exact Nat.le_refl n
  | cons d ds ih => exact Nat.le_trans (by omega) (ih (10 * n + digitValue d))

/-- Digits of a number that fits 64 bits are all gathered. -/
theorem gather_eq {ds : List Char} {n : Nat}
    (h : ds.foldl (fun n d => 10 * n + digitValue d) n ≤ Word.greatestUnsigned) :
    gather n ds = (ds.foldl (fun n d => 10 * n + digitValue d) n, []) := by
  induction ds generalizing n with
  | nil => rfl
  | cons d ds ih =>
    have hnext : 10 * n + digitValue d ≤ Word.greatestUnsigned :=
      Nat.le_trans (le_foldl_digits ds _) h
    rw [gather]
    simp only [if_pos hnext]
    exact ih h

/-- No number but zero begins with a zero. -/
theorem head?_toDigits_ne_zero {n : Nat} (hn : 0 < n) : (Nat.toDigits 10 n).head? ≠ some '0' := by
  induction n using Nat.strongRecOn with
  | ind n ih =>
    by_cases h : n < 10
    · have hall : ∀ n < 10, 0 < n → (Nat.toDigits 10 n).head? ≠ some '0' := by decide
      exact hall n h hn
    · have hten : 10 ≤ n := Nat.le_of_not_lt h
      rw [Nat.toDigits_of_base_le (by decide) hten, List.head?_append_of_ne_nil _ Nat.toDigits_ne_nil]
      exact ih (n / 10) (by omega) (by omega)

/-- The number of a text behind its sign. -/
def readBehindSign? (negative : Bool) (s : List Char) : Option JsonNumber :=
  let (whole, rest) := Decimal.spanDigits s
  if whole = [] ∨ (whole.head? = some '0' ∧ whole.length ≠ 1) then none
  else
    let (significand, beyond) := gather 0 whole
    if rest = [] ∧ beyond = [] then ofInteger? negative significand
    else withFraction? negative significand beyond.length rest

theorem readNumber?_minus (s : List Char) : readNumber? ('-' :: s) = readBehindSign? true s := rfl

theorem readNumber?_of_isDigit {c : Char} (hc : c.isDigit = true) (s : List Char) :
    readNumber? (c :: s) = readBehindSign? false (c :: s) := by
  have hminus : ∀ r, c :: s ≠ '-' :: r := by
    rintro r heq
    rw [(List.cons.inj heq).1] at hc
    exact absurd hc (by decide)
  unfold readNumber?
  split
  next negative body hsign =>
    split at hsign
    next r heq => exact absurd heq (hminus r)
    next =>
      cases hsign
      rfl

theorem readBehindSign?_toDigits {n : Nat} (hn : n ≤ Word.greatestUnsigned) (negative : Bool) :
    readBehindSign? negative (Nat.toDigits 10 n) = ofInteger? negative n := by
  have hdigits : ∀ c ∈ Nat.toDigits 10 n, c.isDigit = true := fun c hc =>
    Grammar.isDigit_of_mem_toDigits hc
  have hgather : gather 0 (Nat.toDigits 10 n) = (n, []) := by
    have hvalue : ofDigits (Nat.toDigits 10 n) = n := Grammar.ofDigits_toDigits n
    rw [gather_eq (by rwa [← ofDigits, hvalue]), ← ofDigits, hvalue]
  have hzero : ¬ (Nat.toDigits 10 n = [] ∨
      ((Nat.toDigits 10 n).head? = some '0' ∧ (Nat.toDigits 10 n).length ≠ 1)) := by
    rintro (hnil | ⟨hhead, hlength⟩)
    · exact Nat.toDigits_ne_nil hnil
    · rcases Nat.eq_zero_or_pos n with rfl | hpos
      · exact hlength rfl
      · exact head?_toDigits_ne_zero hpos hhead
  simp only [readBehindSign?, Decimal.spanDigits_self hdigits, if_neg hzero, hgather, and_self,
    if_true]

/-- **An integer is read from its text as it is.** -/
theorem readNumber?_write_integer (i : Int) (lower : Word.least ≤ i)
    (upper : i ≤ Word.greatestUnsigned) :
    readNumber? (JsonNumber.write (.integer i lower upper)) = some (.integer i lower upper) := by
  have hsize : i.natAbs ≤ Word.greatestUnsigned := by
    unfold Word.least at lower
    unfold Word.greatestUnsigned at upper ⊢
    omega
  rw [JsonNumber.write, Grammar.toList_toString_int]
  by_cases h : 0 ≤ i
  · have hread : readNumber? (Nat.toDigits 10 i.natAbs) = ofInteger? false i.natAbs := by
      obtain ⟨c, rest, htext, hc⟩ := Grammar.exists_toDigits_cons i.natAbs
      rw [← readBehindSign?_toDigits hsize, htext, readNumber?_of_isDigit hc]
    have hvalue : (i.natAbs : Int) = i := by omega
    rw [if_pos h, List.nil_append, hread]
    unfold ofInteger?
    simp only [Bool.false_eq_true, if_false, false_and, not_false_eq_true, and_true, hvalue]
    rw [dif_pos ⟨lower, upper⟩]
  · have hread : readNumber? ('-' :: Nat.toDigits 10 i.natAbs) = ofInteger? true i.natAbs := by
      rw [readNumber?_minus, readBehindSign?_toDigits hsize]
    have hvalue : -(i.natAbs : Int) = i := by omega
    have hnonzero : i.natAbs ≠ 0 := by omega
    rw [if_neg h, List.singleton_append, hread]
    unfold ofInteger?
    simp only [if_true, true_and, hvalue]
    rw [dif_pos ⟨lower, upper, hnonzero⟩]

end Integers

/-! ## Documents that read back -/

/-- Whether a number is read from its text as itself: every integer is, and a double if the reader
does not miss it. -/
def numberReadsBack : JsonNumber → Bool
  | .integer .. => true
  | .float negative m => readNumber? (JsonNumber.write (.float negative m)) == some (.float negative m)

theorem numberReadsBack_iff (n : JsonNumber) :
    numberReadsBack n = true ↔ readNumber? n.write = some n := by
  cases n with
  | integer i lower upper => exact iff_of_true rfl (readNumber?_write_integer i lower upper)
  | float negative m => exact beq_iff_eq

mutual

/-- Whether the text of a document is read as the document itself, if there is `room` for so many
containers one within the other: every number is read as itself, and no object has a key twice. -/
def readsBack (room : Nat) : Json → Bool
  | .null | .bool _ | .string _ => true
  | .number n => numberReadsBack n
  | .array items => decide (0 < room) && itemsReadBack (room - 1) items
  | .object members =>
    decide (0 < room) && decide (members.map (·.1)).Nodup && membersReadBack (room - 1) members

/-- Whether the items of an array read back. -/
def itemsReadBack (room : Nat) : List Json → Bool
  | [] => true
  | item :: rest => readsBack room item && itemsReadBack room rest

/-- Whether the values of the members of an object read back. -/
def membersReadBack (room : Nat) : List (String × Json) → Bool
  | [] => true
  | (_, v) :: rest => readsBack room v && membersReadBack room rest

end

theorem itemsReadBack_iff {room : Nat} {items : List Json} :
    itemsReadBack room items = true ↔ ∀ j ∈ items, j.readsBack room = true := by
  induction items with
  | nil => simp [itemsReadBack]
  | cons item rest ih => simp [itemsReadBack, ih]

theorem membersReadBack_iff {room : Nat} {members : List (String × Json)} :
    membersReadBack room members = true ↔ ∀ m ∈ members, m.2.readsBack room = true := by
  induction members with
  | nil => simp [membersReadBack]
  | cons m rest ih => simp [membersReadBack, ih]

theorem readsBack_array_iff {room : Nat} {items : List Json} :
    (Json.array items).readsBack room = true ↔
      0 < room ∧ ∀ j ∈ items, j.readsBack (room - 1) = true := by
  rw [readsBack, Bool.and_eq_true, decide_eq_true_iff, itemsReadBack_iff]

theorem readsBack_object_iff {room : Nat} {members : List (String × Json)} :
    (Json.object members).readsBack room = true ↔ 0 < room ∧ (members.map (·.1)).Nodup ∧
      ∀ m ∈ members, m.2.readsBack (room - 1) = true := by
  rw [readsBack, Bool.and_eq_true, Bool.and_eq_true, decide_eq_true_iff, decide_eq_true_iff,
    membersReadBack_iff, and_assoc]

/-! ### Items and members -/

theorem rereadItems?_eq_some_iff {room : Nat} {items : List Json} :
    rereadItems? room items = some items ↔ ∀ j ∈ items, reread? room j = some j := by
  induction items with
  | nil => simp [rereadItems?]
  | cons item rest ih => simp [rereadItems?, Option.bind_eq_some_iff, Option.map_eq_some_iff, ih]

theorem rereadMembers?_eq_some_iff {room : Nat} {members : List (String × Json)} :
    rereadMembers? room members = some members ↔
      ∀ m ∈ members, reread? room m.2 = some m.2 := by
  induction members with
  | nil => simp [rereadMembers?]
  | cons m rest ih =>
    obtain ⟨k, v⟩ := m
    simp [rereadMembers?, Option.bind_eq_some_iff, Option.map_eq_some_iff, ih]

/-- Members keep their keys when they are read. -/
theorem keys_of_rereadMembers? {room : Nat} {members read : List (String × Json)}
    (h : rereadMembers? room members = some read) : read.map (·.1) = members.map (·.1) := by
  induction members generalizing read with
  | nil =>
    cases h
    rfl
  | cons m rest ih =>
    obtain ⟨v, -, hrest⟩ := Option.bind_eq_some_iff.mp h
    obtain ⟨more, hmore, rfl⟩ := Option.map_eq_some_iff.mp hrest
    rw [List.map_cons, List.map_cons, ih hmore]

/-! ### Members added one by one -/

theorem insertMember_of_notMem {members : List (String × Json)} {key : String} (value : Json)
    (h : key ∉ members.map (·.1)) : insertMember members key value = members ++ [(key, value)] := by
  induction members with
  | nil => rfl
  | cons m rest ih =>
    rw [List.map_cons, List.mem_cons, not_or] at h
    rw [insertMember, if_neg (Ne.symm h.1), ih h.2]
    rfl

/-- Members with distinct keys are added in their order. -/
theorem foldl_insertMember_of_nodup (done : List (String × Json)) {members : List (String × Json)}
    (h : ((done ++ members).map (·.1)).Nodup) :
    members.foldl (fun ms m => insertMember ms m.1 m.2) done = done ++ members := by
  induction members generalizing done with
  | nil => exact (List.append_nil _).symm
  | cons m rest ih =>
    have hfresh : m.1 ∉ done.map (·.1) := by
      rw [List.map_append, List.nodup_append] at h
      exact fun hmem => h.2.2 _ hmem _ (List.mem_map_of_mem List.mem_cons_self) rfl
    have hall : done ++ m :: rest = (done ++ [(m.1, m.2)]) ++ rest := by simp
    rw [List.foldl_cons, insertMember_of_notMem m.2 hfresh, ih _ (by rw [← hall]; exact h), hall]

/-- Members added one by one never have a key twice. -/
theorem foldl_insertMember_keys_nodup (members : List (String × Json)) :
    ((members.foldl (fun ms m => insertMember ms m.1 m.2) []).map (·.1)).Nodup := by
  induction members using List.reverseRecOn with
  | nil => exact List.nodup_nil
  | append_singleton members m ih =>
    rw [List.foldl_append]
    exact insertMember_keys_nodup m.1 m.2 ih

/-! ### Documents -/

/-- **A text is read as its document exactly if the document reads back.** -/
theorem reread?_eq_some_iff {room : Nat} (j : Json) :
    reread? room j = some j ↔ j.readsBack room = true := by
  induction j using Json.induction generalizing room with
  | null | bool | string => simp [reread?, readsBack]
  | number n => simp [reread?, readsBack, numberReadsBack_iff]
  | array items ih =>
    have hitems : (∀ j ∈ items, reread? (room - 1) j = some j) ↔
        ∀ j ∈ items, j.readsBack (room - 1) = true := forall₂_congr fun j hj => ih j hj
    rw [reread?, readsBack_array_iff, ← hitems, ← rereadItems?_eq_some_iff]
    by_cases hroom : 0 < room <;> simp [hroom]
  | object members ih =>
    have hmembers : (∀ m ∈ members, reread? (room - 1) m.2 = some m.2) ↔
        ∀ m ∈ members, m.2.readsBack (room - 1) = true := forall₂_congr fun m hm => ih m hm
    rw [reread?, readsBack_object_iff, ← hmembers, ← rereadMembers?_eq_some_iff]
    by_cases hroom : 0 < room
    · rw [if_pos hroom, Option.map_eq_some_iff]
      constructor
      · rintro ⟨read, hread, heq⟩
        -- What is read has the keys of the members, which are distinct, and so nothing was replaced.
        have hfold := Json.object.inj heq
        have hkeys : (members.map (·.1)).Nodup := by
          rw [← hfold]
          exact foldl_insertMember_keys_nodup read
        have hsame : read = members := by
          rw [← hfold]
          refine (foldl_insertMember_of_nodup [] ?_).symm
          rw [List.nil_append, keys_of_rereadMembers? hread]
          exact hkeys
        exact ⟨hroom, hkeys, hsame ▸ hread⟩
      · rintro ⟨-, hkeys, hread⟩
        exact ⟨members, hread, congrArg Json.object (foldl_insertMember_of_nodup [] hkeys)⟩
    · simp [hroom]

/-- **A written document is read as itself exactly if it reads back** within the reader's depth. -/
theorem read?_spread_eq_some_iff (j : Json) :
    read? (spread 0 j ++ ['\n']) = some j ↔ j.readsBack Reading.depthLimit = true := by
  rw [read?_spread, reread?_eq_some_iff]

end DocQuery.Json
