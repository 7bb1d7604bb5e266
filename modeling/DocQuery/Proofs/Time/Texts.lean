import DocQuery.Proofs.Number.Texts
import DocQuery.Time.Reading

/-!
# DocQuery.Proofs.Time.Texts — moments read back from their texts

The text of a moment shows its date and its time to the second.  The first of the patterns that are
tried for a cell takes it apart again, item by item, and the fields that come out give a moment
without a fraction (`Moment.read?_text`): the one shown.  It is the moment itself when there is no
fraction of a second to lose, where a leap second must be the sixty-first of its minute
(`Moment.shown_eq_iff`).
-/

namespace DocQuery

open Decimal (ofDigits)
open Grammar
open Text (Trimmed isBlank)

/-! ## Bounds of a date -/

namespace Date

theorem daysInMonth_le (year : Int) (month : Nat) : daysInMonth year month ≤ 31 := by
  unfold daysInMonth
  split <;> (try split_ifs) <;> decide

theorem month_of_daysInMonth_pos {year : Int} {month : Nat} (h : 0 < daysInMonth year month) :
    1 ≤ month ∧ month ≤ 12 := by
  unfold daysInMonth at h
  split at h <;> omega

theorem month_bounds (d : Date) : 1 ≤ d.month ∧ d.month ≤ 12 :=
  month_of_daysInMonth_pos (Nat.lt_of_lt_of_le d.first_day d.last_day)

theorem day_le (d : Date) : d.day ≤ 31 := d.last_day.trans (daysInMonth_le _ _)

theorem of?_self (d : Date) : of? d.year d.month d.day = some d :=
  dif_pos ⟨d.first_year, d.last_year, d.first_day, d.last_day⟩

end Date

/-! ## Fields that are given once -/

namespace Fields

variable {f : Fields} {v : Int}

theorem setNumber?_year (hf : f.year = none) (hv : -0x80000000 ≤ v ∧ v ≤ 0x7FFFFFFF) :
    f.setNumber? .year v = some { f with year := some v } := by
  simp [setNumber?, within?, agree?, hf, hv]

theorem setNumber?_month (hf : f.month = none) (hv : 1 ≤ v ∧ v ≤ 12) :
    f.setNumber? .month v = some { f with month := some v } := by
  simp [setNumber?, within?, agree?, hf, hv]

theorem setNumber?_day (hf : f.day = none) (hv : 1 ≤ v ∧ v ≤ 31) :
    f.setNumber? .day v = some { f with day := some v } := by
  simp [setNumber?, within?, agree?, hf, hv]

theorem setNumber?_hour (hhalf : f.half = none) (hf : f.hourOfHalf = none) (hv : 0 ≤ v ∧ v ≤ 23) :
    f.setNumber? .hour v = some { f with half := some (v / 12), hourOfHalf := some (v % 12) } := by
  simp [setNumber?, within?, agree?, hhalf, hf, hv]

theorem setNumber?_minute (hf : f.minute = none) (hv : 0 ≤ v ∧ v ≤ 59) :
    f.setNumber? .minute v = some { f with minute := some v } := by
  simp [setNumber?, within?, agree?, hf, hv]

theorem setNumber?_second (hf : f.second = none) (hv : 0 ≤ v ∧ v ≤ 60) :
    f.setNumber? .second v = some { f with second := some v } := by
  simp [setNumber?, within?, agree?, hf, hv]

end Fields

namespace Moment

/-! ## Numbers with leading zeros -/

theorem isDigit_of_mem_padded {width n : Nat} {c : Char} (h : c ∈ padded width n) :
    c.isDigit = true :=
  (List.mem_append.mp h).elim Decimal.isDigit_of_mem_zeros isDigit_of_mem_toDigits

theorem ofDigits_padded (width n : Nat) : ofDigits (padded width n) = n := by
  rw [padded, Decimal.ofDigits_zeros_append, ofDigits_toDigits]

theorem le_length_padded (width n : Nat) : width ≤ (padded width n).length := by
  rw [padded, List.length_append, List.length_replicate]
  omega

theorem length_padded {width n : Nat} (hwidth : 0 < width) (hn : n < Power.ten width) :
    (padded width n).length = width := by
  have hlength : (Nat.toDigits 10 n).length ≤ width := (length_toDigits_le_iff hwidth).mpr hn
  rw [padded, List.length_append, List.length_replicate]
  omega

theorem padded_ne_nil (width n : Nat) : padded width n ≠ [] :=
  List.append_ne_nil_of_right_ne_nil _ Nat.toDigits_ne_nil

theorem exists_padded_cons (width n : Nat) :
    ∃ c rest, padded width n = c :: rest ∧ c.isDigit = true := by
  obtain ⟨c, rest, h⟩ := List.exists_cons_of_ne_nil (padded_ne_nil width n)
  have hmem : c ∈ padded width n := by
    rw [h]
    exact List.mem_cons_self
  exact ⟨c, rest, h, isDigit_of_mem_padded hmem⟩

end Moment

namespace Layout

open Moment (padded yearText)

/-! ## Items -/

theorem number?_append {low high : Nat} {ds rest : List Char} (hds : ∀ c ∈ ds, c.isDigit = true)
    (hlow : low ≤ ds.length) (hhigh : ds.length ≤ high)
    (hend : ds.length = high ∨ ∀ c ∈ rest.head?, c.isDigit = false)
    (hfits : (ofDigits ds : Int) ≤ Word.greatest) :
    number? low high (ds ++ rest) = some ((ofDigits ds : Int), rest) := by
  have hstop : (rest.take (high - ds.length)).takeWhile Char.isDigit = [] := by
    rcases hend with heq | hrest
    · rw [heq, Nat.sub_self, List.take_zero, List.takeWhile_nil]
    · cases rest with
      | nil => simp
      | cons c rest =>
        have hc : c.isDigit = false := hrest c rfl
        cases high - ds.length <;> simp [hc]
  have hrun : ((ds ++ rest).take high).takeWhile Char.isDigit = ds := by
    rw [List.take_append, List.take_of_length_le hhigh, List.takeWhile_append_of_pos hds, hstop,
      List.append_nil]
  unfold number?
  simp only [hrun, List.drop_left]
  rw [if_neg (by omega)]

theorem trimStart_padded (width n : Nat) (rest : List Char) :
    Text.trimStart (padded width n ++ rest) = padded width n ++ rest := by
  obtain ⟨c, digits, hdigits, hc⟩ := Moment.exists_padded_cons width n
  apply Text.trimStart_eq_self
  rw [hdigits]
  rintro d ⟨⟩
  exact isBlank_of_isWordChar (isWordChar_of_isDigit hc)

/-- A number of two digits is read by a field of that width. -/
theorem readNumber_padded {field : NumberField} (hwidth : width field = 2)
    (hunsigned : (field == .year || field == .isoYear) = false) (htimestamp : field ≠ .timestamp)
    {n : Nat} (hn : n < 100) {f f' : Fields} (hf : f.setNumber? field n = some f')
    (rest : List Char) : readNumber field f (padded 2 n ++ rest) = some (f', rest) := by
  have hread : number? 1 2 (padded 2 n ++ rest) = some ((n : Int), rest) := by
    have hlength : (padded 2 n).length = 2 := Moment.length_padded (by decide) hn
    rw [number?_append (fun c hc => Moment.isDigit_of_mem_padded hc) (by omega) (by omega)
      (Or.inl hlength), Moment.ofDigits_padded]
    rw [Moment.ofDigits_padded]
    unfold Word.greatest
    omega
  unfold readNumber
  simp only [trimStart_padded, hunsigned, beq_eq_false_iff_ne.mpr htimestamp, hwidth, hread]
  simp [hf]

section

variable {f f' : Fields} {v : Int} {s rest : List Char}

theorem readNumber_minus (h : number? 1 s.length s = some (v, rest))
    (hf : f.setNumber? .year (-v) = some f') : readNumber .year f ('-' :: s) = some (f', rest) := by
  have htrim : Text.trimStart ('-' :: s) = '-' :: s := rfl
  unfold readNumber
  rw [htrim]
  simp [h, hf]

theorem readNumber_plus (h : number? 1 s.length s = some (v, rest))
    (hf : f.setNumber? .year v = some f') : readNumber .year f ('+' :: s) = some (f', rest) := by
  have htrim : Text.trimStart ('+' :: s) = '+' :: s := rfl
  unfold readNumber
  rw [htrim]
  simp [h, hf]

theorem readNumber_unsigned (hs : ∃ c digits, s = c :: digits ∧ c.isDigit = true)
    (h : number? 1 4 s = some (v, rest)) (hf : f.setNumber? .year v = some f') :
    readNumber .year f s = some (f', rest) := by
  obtain ⟨c, digits, rfl, hc⟩ := hs
  have htrim : Text.trimStart (c :: digits) = c :: digits :=
    Text.trimStart_eq_self (by rintro d ⟨⟩; exact isBlank_of_isWordChar (isWordChar_of_isDigit hc))
  have hwidth : width .year = 4 := rfl
  have hminus : c ≠ '-' := by
    rintro rfl
    cases hc
  have hplus : c ≠ '+' := by
    rintro rfl
    cases hc
  unfold readNumber
  rw [htrim]
  simp [hminus, hplus, hwidth, h, hf]

end

/-- A year is read up to the dash behind it, whether it has a sign or four digits. -/
theorem readNumber_yearText {year : Int} (hlow : -262143 ≤ year) (hhigh : year ≤ 262142)
    {f f' : Fields} (hf : f.setNumber? .year year = some f') (rest : List Char) :
    readNumber .year f (yearText year ++ '-' :: rest) = some (f', '-' :: rest) := by
  have hlength := Moment.le_length_padded 4 year.natAbs
  have hdash : ∀ c ∈ ('-' :: rest).head?, c.isDigit = false := by
    rintro c ⟨⟩
    rfl
  have hread {high : Nat} (hfits : (padded 4 year.natAbs).length ≤ high) :
      number? 1 high (padded 4 year.natAbs ++ '-' :: rest) =
        some ((year.natAbs : Int), '-' :: rest) := by
    rw [number?_append (fun c hc => Moment.isDigit_of_mem_padded hc) (by omega) hfits
      (Or.inr hdash), Moment.ofDigits_padded]
    rw [Moment.ofDigits_padded]
    unfold Word.greatest
    omega
  unfold yearText
  split_ifs with hfour hnegative
  · have hsmall : year.natAbs < Power.ten 4 := Nat.lt_of_le_of_lt (by omega) (by decide : 9999 < 10000)
    have hyear : (year.natAbs : Int) = year := by omega
    obtain ⟨c, digits, hcons, hc⟩ := Moment.exists_padded_cons 4 year.natAbs
    exact readNumber_unsigned ⟨c, digits ++ '-' :: rest, by rw [hcons]; rfl, hc⟩
      (hread (Moment.length_padded (by decide) hsmall).le) (by rw [hyear]; exact hf)
  · have hyear : -(year.natAbs : Int) = year := by omega
    exact readNumber_minus (hread (by simp)) (by rw [hyear]; exact hf)
  · have hyear : (year.natAbs : Int) = year := by omega
    exact readNumber_plus (hread (by simp)) (by rw [hyear]; exact hf)

/-! ## The whole text -/

/-- What a layout gives when its items are read one after the other up to the end of the text. -/
inductive Gives : Layout → Fields → List Char → Fields → Prop where
  | done {f : Fields} : Gives [] f [] f
  | item {item : LayoutItem} {items : Layout} {f f' g : Fields} {s s' : List Char}
      (h : readItem item f s = some (f', s')) (rest : Gives items f' s' g) :
      Gives (item :: items) f s g

theorem Gives.foldlM_eq {layout : Layout} {f g : Fields} {s : List Char} (h : Gives layout f s g) :
    layout.foldlM (fun r item => readItem item r.1 r.2) (f, s) = some (g, []) := by
  induction h with
  | done => rfl
  | item h _ ih =>
    rw [List.foldlM_cons, h]
    exact ih

theorem Gives.fields?_eq {layout : Layout} {g : Fields} {s : List Char} (h : Gives layout {} s g) :
    layout.fields? s = some g := by
  have hfold : layout.foldlM (fun r item => readItem item r.1 r.2) (({} : Fields), s) =
      some (g, []) := h.foldlM_eq
  unfold fields?
  rw [hfold]

theorem Gives.padded {field : NumberField} (hwidth : width field = 2)
    (hunsigned : (field == .year || field == .isoYear) = false) (htimestamp : field ≠ .timestamp)
    {n : Nat} (hn : n < 100) {items : Layout} {f f' g : Fields} {rest : List Char}
    (hf : f.setNumber? field n = some f') (h : Gives items f' rest g) :
    Gives (.number field :: items) f (padded 2 n ++ rest) g :=
  .item (readNumber_padded hwidth hunsigned htimestamp hn hf rest) h

/-- The items of a date and a time of day. -/
def dateTime : Layout :=
  [.number .year, .literal ['-'], .number .month, .literal ['-'], .number .day, .blanks,
    .number .hour, .literal [':'], .number .minute, .literal [':'], .number .second, .fraction]

/-- **A date and a time of day give their numbers as fields.** -/
theorem gives_dateTime {year : Int} {month day hour minute second : Nat}
    (hyear : -262143 ≤ year ∧ year ≤ 262142) (hmonth : 1 ≤ month ∧ month ≤ 12)
    (hday : 1 ≤ day ∧ day ≤ 31) (hhour : hour ≤ 23) (hminute : minute ≤ 59) (hsecond : second ≤ 60) :
    Gives dateTime {}
      (yearText year ++ '-' :: (padded 2 month ++ '-' :: (padded 2 day ++ ' ' :: (padded 2 hour ++
        ':' :: (padded 2 minute ++ ':' :: padded 2 second)))))
      { year := some year, month := some (month : Int), day := some (day : Int),
        half := some ((hour : Int) / 12), hourOfHalf := some ((hour : Int) % 12),
        minute := some (minute : Int), second := some (second : Int) } := by
  have hblanks (f : Fields) (rest : List Char) :
      readItem .blanks f (' ' :: (padded 2 hour ++ rest)) = some (f, padded 2 hour ++ rest) := by
    show some (f, Text.trimStart (padded 2 hour ++ rest)) = _
    rw [trimStart_padded]
  rw [← List.append_nil (padded 2 second)]
  refine .item (readNumber_yearText hyear.1 hyear.2 (Fields.setNumber?_year rfl (by omega)) _) ?_
  refine .item rfl (.padded rfl rfl (by decide) (by omega) (Fields.setNumber?_month rfl (by omega)) ?_)
  refine .item rfl (.padded rfl rfl (by decide) (by omega) (Fields.setNumber?_day rfl (by omega)) ?_)
  refine .item (hblanks _ _)
    (.padded rfl rfl (by decide) (by omega) (Fields.setNumber?_hour rfl rfl (by omega)) ?_)
  refine .item rfl (.padded rfl rfl (by decide) (by omega) (Fields.setNumber?_minute rfl (by omega)) ?_)
  exact .item rfl (.padded rfl rfl (by decide) (by omega)
    (Fields.setNumber?_second rfl (by omega)) (.item rfl .done))

theorem ofText?_dateTime : ofText? "%Y-%m-%d %H:%M:%S%.f".toList = some dateTime := by decide

end Layout

/-! ## What a text shows of a moment -/

namespace Moment

/-- The second of the minute that a text shows, where the sixty-first is a leap second. -/
def shownSecond (m : Moment) : Nat := m.second % 60 + m.nanos / 1000000000

/-- The moment that the text of a moment shows: the fraction of the second is left out, and a leap
second other than the sixty-first of its minute shows as the second after it. -/
def shown (m : Moment) : Moment where
  date := m.date
  second := if m.shownSecond = 60 then m.second else m.second + m.nanos / 1000000000
  nanos := if m.shownSecond = 60 then 1000000000 else 0
  second_lt := by
    have hsecond := m.second_lt
    have hnanos := m.nanos_lt
    unfold shownSecond
    split_ifs <;> omega
  nanos_lt := by split_ifs <;> decide

/-- The fields of what the text of a moment shows. -/
def shownFields (m : Moment) : Fields where
  year := some m.date.year
  month := some (m.date.month : Int)
  day := some (m.date.day : Int)
  half := some (((m.second / 3600 : Nat) : Int) / 12)
  hourOfHalf := some (((m.second / 3600 : Nat) : Int) % 12)
  minute := some ((m.second / 60 % 60 : Nat) : Int)
  second := some (m.shownSecond : Int)

theorem date_shownFields (m : Moment) : m.shownFields.date = .ok m.date := by
  have hyear : Fields.resolveYear m.shownFields.year m.shownFields.century
      m.shownFields.yearOfCentury = .ok (some m.date.year) := rfl
  have hiso : Fields.resolveYear m.shownFields.isoYear m.shownFields.isoCentury
      m.shownFields.isoYearOfCentury = .ok none := rfl
  have hmonth : m.shownFields.month = some (m.date.month : Int) := rfl
  have hday : m.shownFields.day = some (m.date.day : Int) := rfl
  have hdate : Date.of? m.date.year (m.date.month : Int).toNat (m.date.day : Int).toNat =
      some m.date := m.date.of?_self
  have hagrees : m.shownFields.dateAgrees m.date = true := by
    simp [Fields.dateAgrees, Fields.yearAgrees, Fields.agrees, shownFields]
  unfold Fields.date
  simp only [hyear, hiso, hmonth, hday, bind, Except.bind, hdate, hagrees, if_true]

theorem time_shownFields (m : Moment) :
    m.shownFields.time = .ok (m.shown.second, m.shown.nanos) := by
  have hhalf : m.shownFields.half = some (((m.second / 3600 : Nat) : Int) / 12) := rfl
  have hhour : m.shownFields.hourOfHalf = some (((m.second / 3600 : Nat) : Int) % 12) := rfl
  have hminute : m.shownFields.minute = some ((m.second / 60 % 60 : Nat) : Int) := rfl
  have hseconds : m.shownFields.second = some (m.shownSecond : Int) := rfl
  have hfraction : m.shownFields.nanosecond = none := rfl
  have hwhole : (((m.second / 3600 : Nat) : Int) / 12 * 12 + ((m.second / 3600 : Nat) : Int) % 12) *
      3600 + ((m.second / 60 % 60 : Nat) : Int) * 60 = (m.second : Int) - (m.second % 60 : Nat) := by
    omega
  have hshown : m.shownSecond = m.second % 60 + m.nanos / 1000000000 := rfl
  have hcarry : m.nanos / 1000000000 ≤ 1 := by
    have := m.nanos_lt
    omega
  unfold Fields.time
  simp only [hhalf, hhour, hminute, hseconds, hfraction, Option.getD_some, Option.getD_none,
    beq_iff_eq, hwhole]
  by_cases hleap : m.shownSecond = 60
  · have hmoment : m.shown.second = m.second ∧ m.shown.nanos = 1000000000 :=
      ⟨if_pos hleap, if_pos hleap⟩
    rw [if_pos (by omega), if_pos (by omega), hmoment.1, hmoment.2]
    congr 2
    omega
  · have hmoment : m.shown.second = m.second + m.nanos / 1000000000 ∧ m.shown.nanos = 0 :=
      ⟨if_neg hleap, if_neg hleap⟩
    rw [if_neg (by omega), if_neg (by omega), hmoment.1, hmoment.2]
    congr 2
    omega

/-- **The text of a moment gives the fields of what it shows.** -/
theorem gives_write (m : Moment) : Layout.Gives Layout.dateTime {} (m.write ' ') m.shownFields := by
  have hsecond := m.second_lt
  have hnanos := m.nanos_lt
  have hgives := Layout.gives_dateTime ⟨m.date.first_year, m.date.last_year⟩ m.date.month_bounds
    ⟨m.date.first_day, m.date.day_le⟩ (show m.second / 3600 ≤ 23 by omega)
    (show m.second / 60 % 60 ≤ 59 by omega) (show m.shownSecond ≤ 60 by unfold shownSecond; omega)
  unfold write
  simp only [List.append_assoc, List.cons_append]
  exact hgives

theorem momentAt?_shownFields (m : Moment) : m.shownFields.momentAt? 0 = some m.shown := by
  have htimestamp : m.shownFields.timestamp = none := rfl
  have hmoment : of? m.date m.shown.second m.shown.nanos = some m.shown :=
    dif_pos ⟨m.shown.second_lt, m.shown.nanos_lt⟩
  unfold Fields.momentAt?
  simp only [date_shownFields, time_shownFields, htimestamp, hmoment]

/-- The text of a moment begins with a sign or a digit and ends with a digit. -/
theorem trimmed_write (separator : Char) (m : Moment) : Trimmed (m.write separator) := by
  have hdigit {c : Char} (hc : c.isDigit = true) : isBlank c = false :=
    isBlank_of_isWordChar (isWordChar_of_isDigit hc)
  obtain ⟨c, rest, hyear, hc⟩ : ∃ c rest, yearText m.date.year = c :: rest ∧ isBlank c = false := by
    obtain ⟨d, digits, hdigits, hd⟩ := exists_padded_cons 4 m.date.year.natAbs
    unfold yearText
    split_ifs
    · exact ⟨d, digits, hdigits, hdigit hd⟩
    · exact ⟨'-', _, rfl, rfl⟩
    · exact ⟨'+', _, rfl, rfl⟩
  obtain ⟨tail, htail⟩ : ∃ tail, m.write separator = yearText m.date.year ++ tail := by
    unfold write
    simp only [List.append_assoc]
    exact ⟨_, rfl⟩
  obtain ⟨front, hfront⟩ : ∃ front, m.write separator = front ++ padded 2 m.shownSecond := by
    unfold write
    rw [List.append_cons]
    exact ⟨_, rfl⟩
  refine ⟨by rw [hfront]; exact List.append_ne_nil_of_right_ne_nil _ (padded_ne_nil _ _), ?_, ?_⟩
  · rw [htail, hyear]
    rintro d ⟨⟩
    exact hc
  · intro d hd
    rw [hfront, List.getLast?_append_of_ne_nil _ (padded_ne_nil _ _)] at hd
    exact hdigit (isDigit_of_mem_padded (List.mem_of_getLast? hd))

theorem backslash_not_mem_text (m : Moment) : '\\' ∉ m.text.toList := by
  have hpadded (width n : Nat) : '\\' ∉ padded width n := fun h =>
    absurd (isDigit_of_mem_padded h) (by decide)
  rw [text, String.toList_ofList]
  unfold write yearText
  split_ifs <;> simp [hpadded]

/-- **The text of a moment reads back as the moment that it shows.** -/
theorem read?_text (m : Moment) : read? m.text.toList = some m.shown := by
  have hmoment : Layout.dateTime.moment? (m.write ' ') = some m.shown := by
    rw [Layout.moment?, m.gives_write.fields?_eq, Option.bind_some, momentAt?_shownFields]
  unfold read? text
  rw [String.toList_ofList, (trimmed_write ' ' m).trim_eq]
  simp only [patterns, List.findSome?_cons, Layout.ofText?_dateTime, Option.bind_some, hmoment]
  rfl

/-- **A text shows a moment whole** if it has no fraction of a second, and is no leap second but the
sixty-first of a minute. -/
theorem shown_eq_iff (m : Moment) :
    m.shown = m ↔ m.nanos = 0 ∨ m.nanos = 1000000000 ∧ m.second % 60 = 59 := by
  have hdef : m.shownSecond = m.second % 60 + m.nanos / 1000000000 := rfl
  have hnanos := m.nanos_lt
  have hiff : m.shown = m ↔ m.shown.second = m.second ∧ m.shown.nanos = m.nanos := by
    constructor
    · intro h
      rw [h]
      exact ⟨rfl, rfl⟩
    · rintro ⟨hsecond, hnanos⟩
      cases m
      exact (Moment.mk.injEq ..).mpr ⟨rfl, hsecond, hnanos⟩
  rw [hiff]
  unfold shown
  simp only
  split_ifs with hleap
  · omega
  · omega

end Moment

end DocQuery
