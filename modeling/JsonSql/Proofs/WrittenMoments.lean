import JsonSql.Proofs.Instants
import JsonSql.Proofs.Numerals
import JsonSql.Sql.DateLiteral
import Mathlib.Data.List.Basic
import Mathlib.Data.List.TakeWhile
import Mathlib.Data.Nat.Digits.Defs

set_option autoImplicit false

/-!
# Written moments

The texts that stand for moments in statements: a date, or a date and a time of day with whole
seconds or with milliseconds.  Such a text gives every number in full, so it can be read without
knowing its writer (`readWritten?`), and it is one of the forms in which requests may write a moment
(`Form.readMoment?_text`).  Either way it is read as the moment that was written, as far as the form
is precise.
-/

namespace JsonSql.Calendar

open JsonSql.Decimal JsonSql.Text

/-! ## Numbers in full -/

/-- The digits of a number at a width, with zeros in front. -/
structure IsWritten (width n : Nat) (ds : List Char) : Prop where
  length_eq : ds.length = width
  isDigit : ∀ c ∈ ds, c.isDigit = true
  value_eq : digitsValue ds = n

theorem digitsValue_zeros (count : Nat) (ds : List Char) :
    digitsValue (List.replicate count '0' ++ ds) = digitsValue ds := by
  induction count with
  | zero => rfl
  | succ count ih => exact ih

theorem isWritten_padded {width n : Nat} (hwidth : 0 < width) (h : n < Nat.pow 10 width) :
    IsWritten width n (padded width n).toList := by
  have hle : (toString n).toList.length ≤ width := by
    rw [Sql.natText_toList]
    exact Nat.toDigits_length 10 n width hwidth h
  have hlist : (padded width n).toList =
      List.replicate (width - (toString n).length) '0' ++ (toString n).toList := by
    rw [padded, String.toList_append, String.toList_ofList]
  refine ⟨?_, ?_, ?_⟩
  · rw [hlist, List.length_append, List.length_replicate, ← String.length_toList]
    omega
  · rw [hlist]
    refine List.forall_mem_append.mpr ⟨fun c hc => ?_, fun c hc => Sql.isDigit_of_mem_natText hc⟩
    rw [List.eq_of_mem_replicate hc]
    rfl
  · rw [hlist, digitsValue_zeros, Sql.natText_toList]
    exact Nat.ofDigitChars_ten_toDigits

namespace IsWritten

variable {width n : Nat} {ds : List Char}

theorem ne_nil (h : IsWritten width n ds) (hwidth : 0 < width) : ds ≠ [] := by
  rintro rfl
  exact absurd h.length_eq (Nat.ne_of_lt hwidth)

theorem isBlank_eq_false (h : IsWritten width n ds) {c : Char} (hc : c ∈ ds) : isBlank c = false :=
  isBlank_of_isDigit (h.isDigit c hc)

theorem takeWhile_take (h : IsWritten width n ds) (rest : List Char) :
    ((ds ++ rest).take width).takeWhile Char.isDigit = ds := by
  rw [List.take_left' h.length_eq, List.takeWhile_eq_self_iff.mpr h.isDigit]

theorem readExactly?_append (h : IsWritten width n ds) (rest : List Char) :
    readExactly? width (ds ++ rest) = some (n, rest) := by
  rw [readExactly?, h.takeWhile_take, if_pos h.length_eq, h.value_eq, List.drop_left' h.length_eq]

theorem readUpTo?_append (h : IsWritten width n ds) (hwidth : 0 < width) (rest : List Char) :
    readUpTo? width (ds ++ rest) = some (n, rest) := by
  rw [readUpTo?, h.takeWhile_take, if_neg (h.ne_nil hwidth), h.value_eq, List.drop_left]

/-- Digits begin with no blank. -/
theorem dropWhile_append (h : IsWritten width n ds) (hwidth : 0 < width) (rest : List Char) :
    (ds ++ rest).dropWhile isBlank = ds ++ rest := by
  cases ds with
  | nil => exact absurd rfl (h.ne_nil hwidth)
  | cons d ds =>
    have hd : isBlank d = false := h.isBlank_eq_false List.mem_cons_self
    rw [List.cons_append, List.dropWhile_cons_of_neg (by rw [hd]; exact Bool.false_ne_true)]

theorem readPair?_append (h : IsWritten 2 n ds) (rest : List Char) :
    readPair? (ds ++ rest) = some (n, rest) := by
  rw [readPair?, h.dropWhile_append Nat.two_pos, h.readUpTo?_append Nat.two_pos]

theorem readYear?_append (h : IsWritten 4 n ds) (rest : List Char) :
    readYear? ((ds ++ rest).dropWhile isBlank) = some ((n : Int), rest) := by
  rw [h.dropWhile_append (by decide)]
  have hread := h.readUpTo?_append (by decide) rest
  cases ds with
  | nil => exact absurd rfl (h.ne_nil (by decide))
  | cons d ds =>
    have hd : d.isDigit = true := h.isDigit d List.mem_cons_self
    have hminus : d ≠ '-' := by
      rintro rfl
      cases hd
    have hplus : d ≠ '+' := by
      rintro rfl
      cases hd
    rw [List.cons_append] at hread ⊢
    rw [readYear?, hread]
    · rfl
    · exact fun cs hcs => hminus (List.cons.inj hcs).1
    · exact fun cs hcs => hplus (List.cons.inj hcs).1

theorem readExactly?_self (h : IsWritten width n ds) : readExactly? width ds = some (n, []) := by
  have hread := h.readExactly?_append []
  rwa [List.append_nil] at hread

theorem readPair?_self (h : IsWritten 2 n ds) : readPair? ds = some (n, []) := by
  have hread := h.readPair?_append []
  rwa [List.append_nil] at hread

/-- Three digits behind a point are milliseconds. -/
theorem readFraction?_append (h : IsWritten 3 n ds) {rest : List Char}
    (hrest : ∀ c ∈ rest.head?, c.isDigit = false) :
    readFraction? ('.' :: (ds ++ rest)) = some (n * 1000000, rest) := by
  obtain ⟨htake, hdrop⟩ := Sql.takeWhile_append_stop h.isDigit hrest
  have hkept : ds.take 9 = ds := List.take_of_length_le (by rw [h.length_eq]; decide)
  rw [readFraction?, readNanoseconds?]
  dsimp only
  rw [htake, hdrop, if_neg (h.ne_nil (by decide)), hkept, h.value_eq, h.length_eq]

end IsWritten

/-! ## Forms -/

/-- The written forms of moments in statements. -/
inductive Form where
  | date
  /-- whole seconds after a mark -/
  | seconds (mark : Char)
  /-- milliseconds, and whether the letter of universal time stands behind them -/
  | milliseconds (zoned : Bool)
  deriving DecidableEq, Repr, Inhabited

/-- How precise a form is. -/
def Form.precision : Form → Precision
  | date => .day
  | seconds _ => .second
  | milliseconds _ => .millisecond

/-- What follows the date in a form. -/
def Form.behindDate (t : Time) : Form → List Char
  | date => []
  | seconds mark => mark :: t.text.toList
  | milliseconds zoned =>
    'T' :: (t.text.toList ++ ((t.fractionText 3).toList ++ if zoned then ['Z'] else []))

/-- A moment in a form. -/
def Form.text (form : Form) (m : Moment) : String :=
  .ofList (m.date.text.toList ++ form.behindDate m.time)

/-- The mark between a date and a time of day. -/
def Form.marked : Form → Prop
  | seconds mark => mark = ' ' ∨ mark = 'T'
  | _ => True

/-- An ordinary moment of the years that are written with four digits. -/
structure Moment.IsPlain (m : Moment) : Prop where
  ordinary : m.IsOrdinary
  year_nonneg : 0 ≤ m.date.year
  year_le : m.date.year ≤ 9999

/-- What follows the mark between a date and a time of day. -/
def readBetween? (cs : List Char) : Option (List Char) := readMark? 'T' cs <|> readMark? ' ' cs

/-- The moment that a written date, or date with a time of day, denotes. -/
def readWritten? (cs : List Char) : Option Moment := do
  let (year, cs) ← readExactly? 4 cs
  let cs ← readMark? '-' cs
  let (month, cs) ← readExactly? 2 cs
  let cs ← readMark? '-' cs
  let (day, cs) ← readExactly? 2 cs
  if cs = [] then Reading.moment? { year, month, day }
  else do
    let cs ← readBetween? cs
    let (hour, cs) ← readExactly? 2 cs
    let cs ← readMark? ':' cs
    let (minute, cs) ← readExactly? 2 cs
    let cs ← readMark? ':' cs
    let (second, cs) ← readExactly? 2 cs
    let (nanosecond, cs) ← readFraction? cs
    if cs = [] ∨ cs = ['Z'] then
      Reading.moment? { year, month, day, hour, minute, second, nanosecond }
    else none

theorem readMark?_self (c : Char) (cs : List Char) : readMark? c (c :: cs) = some cs := if_pos rfl

theorem readBetween?_cons {mark : Char} (h : mark = ' ' ∨ mark = 'T') (cs : List Char) :
    readBetween? (mark :: cs) = some cs := by
  rcases h with rfl | rfl <;> rfl

theorem Moment.IsPlain.exists_date {m : Moment} (h : m.IsPlain) : ∃ year month day,
    IsWritten 4 m.date.year.toNat year ∧ IsWritten 2 m.date.month month ∧
      IsWritten 2 m.date.day day ∧
      m.date.text.toList = year ++ '-' :: (month ++ '-' :: day) := by
  obtain ⟨⟨-, hmonth, -, hday, -⟩, hyear, hyear'⟩ := h
  have hdays : daysInMonth m.date.year m.date.month ≤ 31 := by
    unfold daysInMonth
    split
    · split <;> decide
    · decide
    · decide
    · decide
    · decide
    · decide
  refine ⟨_, _, _, isWritten_padded (by decide) ?_, isWritten_padded (by decide) ?_,
    isWritten_padded (by decide) ?_, ?_⟩
  · show _ < 10000
    omega
  · show _ < 100
    omega
  · show _ < 100
    omega
  · rw [Date.text, yearText, if_pos (by simp [hyear, hyear'])]
    simp

theorem Moment.IsOrdinary.exists_time {m : Moment} (h : m.IsOrdinary) : ∃ hour minute second,
    IsWritten 2 m.time.hour hour ∧ IsWritten 2 m.time.minute minute ∧
      IsWritten 2 m.time.second second ∧
      m.time.text.toList = hour ++ ':' :: (minute ++ ':' :: second) := by
  obtain ⟨-, -, -, -, hhour, hminute, hsecond, -⟩ := h
  refine ⟨_, _, _, isWritten_padded (by decide) ?_, isWritten_padded (by decide) ?_,
    isWritten_padded (by decide) ?_, ?_⟩
  · show _ < 100
    omega
  · show _ < 100
    omega
  · show _ < 100
    omega
  · rw [Time.text]
    simp

theorem Moment.IsOrdinary.exists_fraction {m : Moment} (h : m.IsOrdinary) : ∃ fraction,
    IsWritten 3 (m.time.nanosecond / 1000000) fraction ∧
      (m.time.fractionText 3).toList = '.' :: fraction := by
  have hnanosecond := h.nanosecond_lt
  unfold nanosOfSecond at hnanosecond
  refine ⟨_, isWritten_padded (by decide) ?_, ?_⟩
  · show _ < 1000
    omega
  · rw [Time.fractionText, String.toList_append]
    rfl

namespace Moment.IsPlain

variable {m : Moment}

theorem floor (h : m.IsPlain) (p : Precision) : (m.floor p).IsPlain := by
  refine ⟨h.ordinary.floor p, ?_, ?_⟩ <;> cases p <;>
    first | exact h.year_nonneg | exact h.year_le

/-- The numbers of a moment are those of a moment. -/
theorem moment?_eq (h : m.IsPlain) : Reading.moment? {
    year := (m.date.year.toNat : Int), month := m.date.month, day := m.date.day
    hour := m.time.hour, minute := m.time.minute, second := m.time.second
    nanosecond := m.time.nanosecond } = some m := by
  obtain ⟨⟨hmonth, hmonth', hday, hday', hhour, hminute, hsecond, hnanosecond⟩, hyear, hyear'⟩ := h
  have hdate : m.date.Valid := by
    refine ⟨?_, ?_, hmonth, hmonth', hday, hday'⟩ <;> unfold yearRange <;> dsimp only <;> omega
  have htime : m.time.Valid := ⟨hhour, hminute, Nat.le_of_lt hsecond, hnanosecond⟩
  have hsame : (m.date.year.toNat : Int) = m.date.year := Int.toNat_of_nonneg hyear
  rw [Reading.moment?, Reading.date?, Reading.time?]
  simp only [hsame, if_pos hdate, if_pos htime]
  rfl

end Moment.IsPlain

/-- A form leaves out what it is not precise enough for. -/
theorem Form.text_floor (form : Form) (m : Moment) :
    form.text (m.floor form.precision) = form.text m := by
  cases form with
  | date => rfl
  | seconds mark => rfl
  | milliseconds zoned =>
    have hsame : (m.floor .millisecond).time.fractionText 3 = m.time.fractionText 3 := by
      unfold Time.fractionText Moment.floor
      dsimp only [Nat.reduceSub]
      rw [show Nat.pow 10 6 = 1000000 from rfl, Nat.mul_div_cancel _ (by decide)]
    unfold Form.text behindDate precision
    rw [hsame]
    rfl

theorem bind_of_eq_some {α β : Type} {x : Option α} {a : α} (h : x = some a) (f : α → Option β) :
    x.bind f = f a := by
  rw [h, Option.bind_some]

/-- A date and a time of day in full are read as what they say. -/
theorem readWritten?_append {year month day hour minute second rest zone : List Char}
    {y mo d ho mi s n : Nat} (hyear : IsWritten 4 y year) (hmonth : IsWritten 2 mo month)
    (hday : IsWritten 2 d day) (hhour : IsWritten 2 ho hour) (hminute : IsWritten 2 mi minute)
    (hsecond : IsWritten 2 s second) {mark : Char} (hmark : mark = ' ' ∨ mark = 'T')
    (hrest : readFraction? rest = some (n, zone)) (hzone : zone = [] ∨ zone = ['Z']) :
    readWritten? (year ++ '-' :: (month ++ '-' :: (day ++
        mark :: (hour ++ ':' :: (minute ++ ':' :: (second ++ rest)))))) =
      Reading.moment? {
        year := (y : Int), month := mo, day := d
        hour := ho, minute := mi, second := s, nanosecond := n } := by
  exact (bind_of_eq_some (hyear.readExactly?_append _) _).trans <|
    (bind_of_eq_some (readMark?_self '-' _) _).trans <|
    (bind_of_eq_some (hmonth.readExactly?_append _) _).trans <|
    (bind_of_eq_some (readMark?_self '-' _) _).trans <|
    (bind_of_eq_some (hday.readExactly?_append _) _).trans <|
    (if_neg (List.cons_ne_nil _ _)).trans <|
    (bind_of_eq_some (readBetween?_cons hmark _) _).trans <|
    (bind_of_eq_some (hhour.readExactly?_append _) _).trans <|
    (bind_of_eq_some (readMark?_self ':' _) _).trans <|
    (bind_of_eq_some (hminute.readExactly?_append _) _).trans <|
    (bind_of_eq_some (readMark?_self ':' _) _).trans <|
    (bind_of_eq_some (hsecond.readExactly?_append _) _).trans <|
    (bind_of_eq_some hrest _).trans <|
    if_pos hzone

/-- A written moment is read without knowing its form. -/
theorem Form.readWritten?_text {form : Form} (hform : form.marked) {m : Moment} (h : m.IsPlain) :
    readWritten? (form.text m).toList = some (m.floor form.precision) := by
  obtain ⟨year, month, day, hyear, hmonth, hday, hdate⟩ := h.exists_date
  obtain ⟨hour, minute, second, hhour, hminute, hsecond, htime⟩ := h.ordinary.exists_time
  have hfloor := (h.floor form.precision).moment?_eq
  have hread := fun mark (hmark : mark = ' ' ∨ mark = 'T') rest n zone
      (hrest : readFraction? rest = some (n, zone)) =>
    readWritten?_append hyear hmonth hday hhour hminute hsecond hmark hrest
  rw [Form.text, String.toList_ofList, hdate]
  cases form with
  | date =>
    rw [behindDate, List.append_nil]
    exact (bind_of_eq_some (hyear.readExactly?_append _) _).trans <|
      (bind_of_eq_some (readMark?_self '-' _) _).trans <|
      (bind_of_eq_some (hmonth.readExactly?_append _) _).trans <|
      (bind_of_eq_some (readMark?_self '-' _) _).trans <|
      (bind_of_eq_some hday.readExactly?_self _).trans <|
      (if_pos rfl).trans hfloor
  | seconds mark =>
    have hsome := hread mark hform [] 0 [] rfl (.inl rfl)
    rw [List.append_nil] at hsome
    simp only [behindDate, htime, List.append_assoc, List.cons_append]
    exact hsome.trans hfloor
  | milliseconds zoned =>
    obtain ⟨fraction, hfraction, hpoint⟩ := h.ordinary.exists_fraction
    have hzone : ∀ c ∈ (if zoned then ['Z'] else []).head?, c.isDigit = false := by
      cases zoned <;> rintro c ⟨⟩
      rfl
    have hend : (if zoned then ['Z'] else []) = [] ∨ (if zoned then ['Z'] else []) = ['Z'] := by
      cases zoned
      · exact .inl rfl
      · exact .inr rfl
    simp only [behindDate, htime, hpoint, List.append_assoc, List.cons_append]
    exact (hread 'T' (.inr rfl) _ _ _ (hfraction.readFraction?_append hzone) hend).trans hfloor

/-! ## Reading by the forms of requests -/

theorem IsWritten.trimChars_append {width n : Nat} {first rest : List Char}
    (h : IsWritten width n first) (hwidth : 0 < width) (last : List Char)
    (hsuffix : last <:+ rest) (hne : last ≠ [])
    (hlast : ∀ c ∈ last, isBlank c = false) : trimChars (first ++ rest) = first ++ rest := by
  refine trimChars_eq_self ?_ ?_
  · cases first with
    | nil => exact absurd rfl (h.ne_nil hwidth)
    | cons d ds =>
      rintro c ⟨⟩
      exact h.isBlank_eq_false List.mem_cons_self
  · obtain ⟨before, rfl⟩ := hsuffix
    rw [← List.append_assoc, List.getLast?_append_of_ne_nil _ hne]
    exact fun c hc => hlast c (List.mem_of_mem_getLast? hc)

section Parts

variable {year month day hour minute second rest zone : List Char} {y mo d ho mi s n : Nat}

theorem readPattern?_dateParts (hyear : IsWritten 4 y year) (hmonth : IsWritten 2 mo month)
    (hday : IsWritten 2 d day) (parts : List Part) (rest : List Char) :
    readPattern? (dateParts ++ parts) {} (year ++ '-' :: (month ++ '-' :: (day ++ rest))) =
      readPattern? parts { year := (y : Int), month := mo, day := d } rest := by
  simp only [dateParts, List.cons_append, List.nil_append, readPattern?, Part.read?,
    hyear.readYear?_append, hmonth.readPair?_append, hday.readPair?_append, readMark?_self,
    Option.map_some]

theorem readPattern?_secondParts (hhour : IsWritten 2 ho hour) (hminute : IsWritten 2 mi minute)
    (hsecond : IsWritten 2 s second) (r : Reading) (hrest : readFraction? rest = some (n, [])) :
    readPattern? secondParts r (hour ++ ':' :: (minute ++ ':' :: (second ++ rest))) =
      some { r with hour := ho, minute := mi, second := s, nanosecond := n } := by
  simp only [secondParts, minuteParts, List.cons_append, List.nil_append, readPattern?, Part.read?,
    hhour.readPair?_append, hminute.readPair?_append, hsecond.readPair?_append, readMark?_self,
    hrest, Option.map_some, if_true]

theorem readPattern?_clock (hyear : IsWritten 4 y year) (hmonth : IsWritten 2 mo month)
    (hday : IsWritten 2 d day) (hhour : IsWritten 2 ho hour) (hminute : IsWritten 2 mi minute)
    (hsecond : IsWritten 2 s second) (hrest : readFraction? rest = some (n, [])) :
    readPattern? (dateParts ++ .mark 'T' :: secondParts) {} (year ++ '-' :: (month ++ '-' :: (day ++
        'T' :: (hour ++ ':' :: (minute ++ ':' :: (second ++ rest)))))) =
      some {
        year := (y : Int), month := mo, day := d
        hour := ho, minute := mi, second := s, nanosecond := n } := by
  rw [readPattern?_dateParts hyear hmonth hday, readPattern?, Part.read?, readMark?_self]
  exact readPattern?_secondParts hhour hminute hsecond _ hrest

/-- A date and a time of day in full, and an offset, are an Internet time. -/
theorem readInternet?_append (hyear : IsWritten 4 y year) (hmonth : IsWritten 2 mo month)
    (hday : IsWritten 2 d day) (hhour : IsWritten 2 ho hour) (hminute : IsWritten 2 mi minute)
    (hsecond : IsWritten 2 s second) {mark : Char} (hmark : mark = ' ' ∨ mark = 'T')
    (hrest : readFraction? rest = some (n, zone)) :
    readInternet? (year ++ '-' :: (month ++ '-' :: (day ++
        mark :: (hour ++ ':' :: (minute ++ ':' :: (second ++ rest)))))) =
      (readOffset? zone).bind fun p =>
        if p.2 = [] then
          (Reading.moment? {
            year := (y : Int), month := mo, day := d
            hour := ho, minute := mi, second := s, nanosecond := n }).bind fun m =>
              some (m.minutesEarlier p.1)
        else none := by
  refine (bind_of_eq_some (hyear.readExactly?_append _) _).trans <|
    (bind_of_eq_some (readMark?_self '-' _) _).trans <|
    (bind_of_eq_some (hmonth.readExactly?_append _) _).trans <|
    (bind_of_eq_some (readMark?_self '-' _) _).trans <|
    (bind_of_eq_some (hday.readExactly?_append _) _).trans ?_
  rcases hmark with rfl | rfl <;>
    exact (bind_of_eq_some (hhour.readExactly?_append _) _).trans <|
      (bind_of_eq_some (readMark?_self ':' _) _).trans <|
      (bind_of_eq_some (hminute.readExactly?_append _) _).trans <|
      (bind_of_eq_some (readMark?_self ':' _) _).trans <|
      (bind_of_eq_some (hsecond.readExactly?_append _) _).trans <|
      (bind_of_eq_some hrest _).trans rfl

end Parts

/-- No minutes earlier is the same moment. -/
theorem Moment.IsPlain.minutesEarlier_zero {m : Moment} (h : m.IsPlain) :
    m.minutesEarlier 0 = m := by
  obtain ⟨⟨hmonth, hmonth', hday, hday', hhour, hminute, -, -⟩, hyear, hyear'⟩ := h
  have hdate : m.date.Valid := by
    refine ⟨?_, ?_, hmonth, hmonth', hday, hday'⟩ <;> unfold yearRange <;> dsimp only <;> omega
  unfold minutesEarlier
  have hday : (m.date.dayNumber * 1440 + (m.time.hour * 60 + m.time.minute : Nat) - 0) / 1440 =
      m.date.dayNumber := by
    omega
  have hminutes : ((m.date.dayNumber * 1440 + (m.time.hour * 60 + m.time.minute : Nat) - 0) %
      1440).toNat = m.time.hour * 60 + m.time.minute := by
    omega
  have hhours : (m.time.hour * 60 + m.time.minute) / 60 = m.time.hour := by omega
  have hrest : (m.time.hour * 60 + m.time.minute) % 60 = m.time.minute := by omega
  simp only [hday, hminutes, hhours, hrest, hdate.ofDayNumber_dayNumber]

/-- A written moment begins and ends with no blank. -/
theorem Form.trimChars_text {form : Form} {m : Moment} (h : m.IsPlain) :
    trimChars (form.text m).toList = (form.text m).toList := by
  obtain ⟨year, month, day, hyear, hmonth, hday, hdate⟩ := h.exists_date
  obtain ⟨hour, minute, second, hhour, hminute, hsecond, htime⟩ := h.ordinary.exists_time
  rw [Form.text, String.toList_ofList, hdate, List.append_assoc]
  cases form with
  | date =>
    exact hyear.trimChars_append (by decide) day
      ⟨'-' :: (month ++ ['-']), by simp [behindDate]⟩ (hday.ne_nil (by decide))
      fun c hc => hday.isBlank_eq_false hc
  | seconds mark =>
    refine hyear.trimChars_append (by decide) second ?_ (hsecond.ne_nil (by decide))
      fun c hc => hsecond.isBlank_eq_false hc
    exact ⟨'-' :: (month ++ '-' :: (day ++ mark :: (hour ++ ':' :: (minute ++ [':'])))),
      by simp [behindDate, htime]⟩
  | milliseconds zoned =>
    obtain ⟨fraction, hfraction, hpoint⟩ := h.ordinary.exists_fraction
    refine hyear.trimChars_append (by decide) (fraction ++ if zoned then ['Z'] else [])
      ?_ ?_ (List.forall_mem_append.mpr ⟨fun c hc => hfraction.isBlank_eq_false hc, ?_⟩)
    · exact ⟨'-' :: (month ++ '-' :: (day ++ 'T' :: (hour ++ ':' :: (minute ++ ':' ::
        (second ++ ['.']))))), by simp [behindDate, htime, hpoint]⟩
    · exact List.append_ne_nil_of_left_ne_nil (hfraction.ne_nil (by decide)) _
    · cases zoned
      · exact nofun
      · exact List.forall_mem_singleton.mpr (by decide)

/-- A written moment is a moment of requests, and it is read as what was written. -/
theorem Form.readMoment?_text {form : Form} (hform : form.marked) {m : Moment} (h : m.IsPlain) :
    readMoment? (form.text m) = some (m.floor form.precision) := by
  obtain ⟨year, month, day, hyear, hmonth, hday, hdate⟩ := h.exists_date
  obtain ⟨hour, minute, second, hhour, hminute, hsecond, htime⟩ := h.ordinary.exists_time
  have hfloor := (h.floor form.precision).moment?_eq
  have hparts := fun parts rest => readPattern?_dateParts hyear hmonth hday parts rest
  have hclock := fun rest n (hrest : readFraction? rest = some (n, [])) =>
    readPattern?_clock hyear hmonth hday hhour hminute hsecond hrest
  have hinternet := fun mark (hmark : mark = ' ' ∨ mark = 'T') rest n zone
      (hrest : readFraction? rest = some (n, zone)) =>
    readInternet?_append hyear hmonth hday hhour hminute hsecond hmark hrest
  rw [readMoment?, Form.trimChars_text h, Form.text, String.toList_ofList, hdate]
  simp only [Option.orElse_eq_orElse, Option.orElse_eq_or]
  cases form with
  | date =>
    have hnone : readInternet? (year ++ '-' :: (month ++ '-' :: day)) = none := by
      exact (bind_of_eq_some (hyear.readExactly?_append _) _).trans <|
        (bind_of_eq_some (readMark?_self '-' _) _).trans <|
        (bind_of_eq_some (hmonth.readExactly?_append _) _).trans <|
        (bind_of_eq_some (readMark?_self '-' _) _).trans <|
        (bind_of_eq_some hday.readExactly?_self _).trans rfl
    have hparts := fun parts => hparts parts []
    have hlast := hparts []
    simp only [List.append_nil, readPattern?, if_true] at hparts hlast
    simp only [behindDate, List.append_nil, hnone, hparts, hlast, readPattern?, Part.read?,
      minuteParts, secondParts, List.cons_append, List.nil_append, readMark?, Option.map_none]
    exact hfloor
  | seconds mark =>
    have hnone := hinternet mark hform [] 0 [] rfl
    have hsome := hclock [] 0 rfl
    simp only [List.append_nil, readOffset?, Option.bind_none] at hnone hsome
    simp only [behindDate, htime, List.append_assoc, List.cons_append, hnone, Option.none_or]
    rcases hform with rfl | rfl
    · have hmark (parts : List Part) (r : Reading) (cs : List Char) :
          readPattern? (.mark 'T' :: parts) r (' ' :: cs) = none := rfl
      have hgap : (' ' :: (hour ++ ':' :: (minute ++ ':' :: second))).dropWhile isBlank =
          hour ++ ':' :: (minute ++ ':' :: second) := by
        rw [List.dropWhile_cons_of_pos (by decide), hhour.dropWhile_append (by decide)]
      have hend : readFraction? [] = some (0, []) := rfl
      have hseconds := fun r => readPattern?_secondParts hhour hminute hsecond r hend
      rw [List.append_nil] at hseconds
      rw [hparts, hmark, Option.bind_none, Option.none_or, hparts, readPattern?, Part.read?, hgap]
      dsimp only
      rw [hseconds, Option.bind_some]
      exact Option.or_eq_some_iff.mpr (.inl hfloor)
    · rw [hsome, Option.bind_some]
      exact Option.or_eq_some_iff.mpr (.inl hfloor)
  | milliseconds zoned =>
    obtain ⟨fraction, hfraction, hpoint⟩ := h.ordinary.exists_fraction
    simp only [behindDate, htime, hpoint, List.append_assoc, List.cons_append]
    cases zoned with
    | true =>
      have hzone : ∀ c ∈ ['Z'].head?, c.isDigit = false := by
        rintro c ⟨⟩
        rfl
      rw [if_pos rfl, hinternet 'T' (.inr rfl) _ _ _ (hfraction.readFraction?_append hzone),
        readOffset?, Option.bind_some, if_pos rfl]
      refine Option.or_eq_some_iff.mpr (.inl ((bind_of_eq_some hfloor _).trans ?_))
      rw [(h.floor _).minutesEarlier_zero]
    | false =>
      have hfraction : readFraction? ('.' :: (fraction ++ [])) = some (_, []) :=
        hfraction.readFraction?_append (by simp)
      rw [if_neg Bool.false_ne_true, hinternet 'T' (.inr rfl) _ _ [] hfraction, readOffset?,
        Option.bind_none, Option.none_or, hclock _ _ hfraction, Option.bind_some]
      exact Option.or_eq_some_iff.mpr (.inl hfloor)

end JsonSql.Calendar
