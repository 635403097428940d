import SolarDrive.Lib.Bytes

/-!
# Calendar time

Seconds since 1970 and broken-down UTC time (`gmtime`, `timegm`), and the two
text formats in use: `std::put_time` with `%Y-%m-%dT%H:%M:%S` and
`std::get_time` with the same fields around a `T` or a blank.
-/

namespace Lib

/-- The fields of `std::tm` in use; `year` and `month` as written. -/
structure CivilTime where
  year : Int
  month : Int
  day : Int
  hour : Int
  minute : Int
  second : Int
deriving DecidableEq, Repr

/-- Days since 1970-01-01 of a date of the proleptic Gregorian calendar. Years
are counted from March, so that the leap day comes last. -/
def daysFromCivil (year month day : Int) : Int :=
  let y := if month ≤ 2 then year - 1 else year
  let era := y / 400
  let yearOfEra := y % 400
  let dayOfYear := (153 * (if month > 2 then month - 3 else month + 9) + 2) / 5 + day - 1
  let dayOfEra := yearOfEra * 365 + yearOfEra / 4 - yearOfEra / 100 + dayOfYear
  era * 146097 + dayOfEra - 719468

/-- `timegm`. -/
def timegm (t : CivilTime) : Int :=
  ((daysFromCivil t.year t.month t.day * 24 + t.hour) * 60 + t.minute) * 60 + t.second

/-- `gmtime_r`. -/
def gmtime (seconds : Int) : CivilTime :=
  let days := seconds / 86400
  let rest := seconds % 86400
  let z := days + 719468
  let era := z / 146097
  let dayOfEra := z % 146097
  let yearOfEra :=
    (dayOfEra - dayOfEra / 1460 + dayOfEra / 36524 - dayOfEra / 146096) / 365
  let dayOfYear := dayOfEra - (365 * yearOfEra + yearOfEra / 4 - yearOfEra / 100)
  let mp := (5 * dayOfYear + 2) / 153
  let month := if mp < 10 then mp + 3 else mp - 9
  { year := yearOfEra + era * 400 + (if month ≤ 2 then 1 else 0)
    month
    day := dayOfYear - (153 * mp + 2) / 5 + 1
    hour := rest / 3600
    minute := rest % 3600 / 60
    second := rest % 60 }

/-- Two digits, with a leading zero. -/
def twoDigits (n : Int) : Bytes :=
  if 0 ≤ n ∧ n < 10 then 48 :: decimalInt n else decimalInt n

/-- `%Y-%m-%dT%H:%M:%S`. -/
def putTime (t : CivilTime) : Bytes :=
  decimalInt t.year ++ ascii "-" ++ twoDigits t.month ++ ascii "-" ++ twoDigits t.day ++
    ascii "T" ++ twoDigits t.hour ++ ascii ":" ++ twoDigits t.minute ++ ascii ":" ++
    twoDigits t.second

/-- Up to `width` digits with a value between `low` and `high`. -/
def getNumber (width low high : Nat) (s : Bytes) : Option (Int × Bytes) :=
  let ds := (s.take width).takeWhile isDigit
  let v := digitsValue ds
  if ds = [] ∨ v < low ∨ high < v then none else some (v, s.drop ds.length)

def getLiteral (c : UInt8) : Bytes → Option Bytes
  | [] => none
  | x :: xs => if x = c then some xs else none

/-- `%Y-%m-%d`, the separator, `%H:%M:%S`; what follows is left unread. -/
def getTime (separator : UInt8) (s : Bytes) : Option CivilTime := do
  let (year, s) ← getNumber 4 0 9999 s
  let s ← getLiteral DASH s
  let (month, s) ← getNumber 2 1 12 s
  let s ← getLiteral DASH s
  let (day, s) ← getNumber 2 1 31 s
  -- a blank in the format matches any run of blanks
  let s ← if separator = SP then some (s.dropWhile isSpace) else getLiteral separator s
  let (hour, s) ← getNumber 2 0 23 s
  let s ← getLiteral COLON s
  let (minute, s) ← getNumber 2 0 59 s
  let s ← getLiteral COLON s
  let (second, _) ← getNumber 2 0 60 s
  return { year, month, day, hour, minute, second }

/-! ## The calendar -/

/-- Where a day of the 400 years of an era falls. -/
theorem yearOfEra_bounds {d y : Int} (h₀ : 0 ≤ d) (h₁ : d < 146097)
    (hy : y = (d - d / 1460 + d / 36524 - d / 146096) / 365) :
    0 ≤ y ∧ y ≤ 399 ∧ 0 ≤ d - (365 * y + y / 4 - y / 100) ∧
      d - (365 * y + y / 4 - y / 100) ≤ 365 := by
  have hcentury : d / 36524 = 0 ∨ d / 36524 = 1 ∨ d / 36524 = 2 ∨ d / 36524 = 3 ∨ d / 36524 = 4 := by
    omega
  have hyear : 0 ≤ y ∧ y ≤ 399 := by omega
  have hhundred : y / 100 = 0 ∨ y / 100 = 1 ∨ y / 100 = 2 ∨ y / 100 = 3 := by omega
  refine ⟨hyear.1, hyear.2, ?_⟩
  rcases hcentury with hb | hb | hb | hb | hb <;> rw [hb] at hy <;>
    rcases hhundred with hq | hq | hq | hq <;> rw [hq] <;> omega

/-- The months counted from March, as `gmtime` finds them. -/
theorem daysFromCivil_march {era y m : Int} (day : Int) (hy : 0 ≤ y ∧ y ≤ 399)
    (hm : 0 ≤ m ∧ m ≤ 11) :
    daysFromCivil (y + era * 400 + if (if m < 10 then m + 3 else m - 9) ≤ 2 then 1 else 0)
        (if m < 10 then m + 3 else m - 9) day =
      era * 146097 + (y * 365 + y / 4 - y / 100) + ((153 * m + 2) / 5 + day - 1) - 719468 := by
  unfold daysFromCivil
  by_cases hmarch : m < 10
  · have h2 : ¬ m + 3 ≤ 2 := by omega
    have h3 : m + 3 > 2 := by omega
    simp only [if_pos hmarch, if_neg h2, if_pos h3]
    omega
  · have h2 : m - 9 ≤ 2 := by omega
    have h3 : ¬ m - 9 > 2 := by omega
    simp only [if_neg hmarch, if_pos h2, if_neg h3]
    omega

/-- **`timegm` undoes `gmtime`**, at every second. -/
theorem timegm_gmtime (s : Int) : timegm (gmtime s) = s := by
  have hd := yearOfEra_bounds (d := (s / 86400 + 719468) % 146097) (by omega) (by omega) rfl
  unfold timegm gmtime
  dsimp only
  rw [daysFromCivil_march _ ⟨hd.1, hd.2.1⟩ (by omega)]
  omega

/-- The fields are in the ranges of the text formats. -/
structure CivilTime.Plain (t : CivilTime) : Prop where
  year : 1000 ≤ t.year ∧ t.year ≤ 9999
  month : 1 ≤ t.month ∧ t.month ≤ 12
  day : 1 ≤ t.day ∧ t.day ≤ 31
  hour : 0 ≤ t.hour ∧ t.hour ≤ 23
  minute : 0 ≤ t.minute ∧ t.minute ≤ 59
  second : 0 ≤ t.second ∧ t.second ≤ 59

/-- Some hundred years around 1970. -/
theorem plain_gmtime {s : Int} (hlow : -10000000000 ≤ s) (hhigh : s ≤ 10000000000) :
    (gmtime s).Plain := by
  have hd := yearOfEra_bounds (d := (s / 86400 + 719468) % 146097) (by omega) (by omega) rfl
  unfold gmtime
  constructor <;> dsimp only
  · split <;> split <;> omega
  · split <;> omega
  · omega
  · omega
  · omega
  · omega

/-! ## Reading what was written -/

/-- The fields around a separator. -/
def putFields (separator : UInt8) (t : CivilTime) : Bytes :=
  decimalInt t.year ++ DASH :: (twoDigits t.month ++ DASH :: (twoDigits t.day ++ separator ::
    (twoDigits t.hour ++ COLON :: (twoDigits t.minute ++ COLON :: twoDigits t.second))))

theorem putTime_eq (t : CivilTime) : putTime t = putFields 84 t := by
  simp [putTime, putFields, ascii, DASH, COLON]

theorem getNumber_digits {width low high : Nat} {ds : Bytes} (rest : Bytes)
    (hlen : ds.length = width) (hwidth : 0 < width) (hds : ∀ c ∈ ds, isDigit c = true)
    (hlow : low ≤ digitsValue ds) (hhigh : digitsValue ds ≤ high) :
    getNumber width low high (ds ++ rest) = some ((digitsValue ds : Int), rest) := by
  have htake : ((ds ++ rest).take width).takeWhile isDigit = ds := by
    rw [← hlen, List.take_left' rfl, List.takeWhile_eq_self_iff.mpr hds]
  have hne : ds ≠ [] := by
    rintro rfl
    simp only [List.length_nil] at hlen
    omega
  unfold getNumber
  rw [htake]
  dsimp only
  rw [if_neg (by rintro (h | h | h) <;> first | exact hne h | omega), List.drop_left' rfl]

/-- A number of two digits. -/
theorem twoDigits_spec {n : Int} (h₀ : 0 ≤ n) (h₁ : n ≤ 99) :
    (twoDigits n).length = 2 ∧ (∀ c ∈ twoDigits n, isDigit c = true) ∧
      (digitsValue (twoDigits n) : Int) = n := by
  obtain ⟨m, rfl⟩ := Int.eq_ofNat_of_zero_le h₀
  unfold twoDigits
  split
  · rename_i hlt
    have hm : m < 10 := by omega
    refine ⟨?_, ?_, ?_⟩
    · interval_cases m <;> decide
    · intro c hc
      rcases List.mem_cons.mp hc with rfl | hc
      · decide
      · exact isDigit_of_mem_decimal hc
    · interval_cases m <;> decide
  · rename_i hge
    refine ⟨length_decimal (k := 1) (by omega) (by omega), fun c hc => isDigit_of_mem_decimal hc, ?_⟩
    exact_mod_cast digitsValue_decimal m

theorem getNumber_twoDigits {low high : Nat} {n : Int} (rest : Bytes) (hlow : (low : Int) ≤ n)
    (hhigh : n ≤ high) (hsmall : high ≤ 99) :
    getNumber 2 low high (twoDigits n ++ rest) = some (n, rest) := by
  obtain ⟨hlen, hds, hvalue⟩ := twoDigits_spec (n := n) (by omega) (by omega)
  rw [getNumber_digits rest hlen (by omega) hds (by omega) (by omega), hvalue]

theorem getNumber_year {n : Int} (rest : Bytes) (hlow : 1000 ≤ n) (hhigh : n ≤ 9999) :
    getNumber 4 0 9999 (decimalInt n ++ rest) = some (n, rest) := by
  obtain ⟨m, rfl⟩ := Int.eq_ofNat_of_zero_le (show 0 ≤ n by omega)
  have hvalue := digitsValue_decimal m
  have hread := @getNumber_digits 4 0 9999 _ rest
    (length_decimal (n := m) (k := 3) (by omega) (by omega)) (by omega)
    (fun c hc => isDigit_of_mem_decimal hc) (by omega) (by omega)
  rw [hvalue] at hread
  exact hread

theorem dropWhile_twoDigits {n : Int} (rest : Bytes) (h₀ : 0 ≤ n) (h₁ : n ≤ 99) :
    (SP :: (twoDigits n ++ rest)).dropWhile isSpace = twoDigits n ++ rest := by
  obtain ⟨hlen, hds, -⟩ := twoDigits_spec h₀ h₁
  obtain ⟨c, ds, hcons⟩ := List.exists_cons_of_length_eq_add_one hlen
  have hc : isSpace c = false := isSpace_of_isDigit (hds c (by rw [hcons]; exact List.mem_cons_self))
  rw [hcons, List.dropWhile_cons_of_pos (by decide), List.cons_append,
    List.dropWhile_cons_of_neg (by rw [hc]; decide)]

theorem getLiteral_self (c : UInt8) (rest : Bytes) : getLiteral c (c :: rest) = some rest :=
  if_pos rfl

/-- **The fields are read back**, whatever follows them. -/
theorem getTime_putFields {separator : UInt8} {t : CivilTime} (ht : t.Plain) (rest : Bytes) :
    getTime separator (putFields separator t ++ rest) = some t := by
  have hyear := fun s => getNumber_year s ht.year.1 ht.year.2
  have hmonth := fun s => @getNumber_twoDigits 1 12 _ s ht.month.1 ht.month.2 (by decide)
  have hday := fun s => @getNumber_twoDigits 1 31 _ s ht.day.1 ht.day.2 (by decide)
  have hhour := fun s => @getNumber_twoDigits 0 23 _ s ht.hour.1 ht.hour.2 (by decide)
  have hminute := fun s =>
    @getNumber_twoDigits 0 59 _ s ht.minute.1 ht.minute.2 (by decide)
  have hsecond := fun s => @getNumber_twoDigits 0 60 _ s ht.second.1
    (by have := ht.second.2; omega) (by decide)
  unfold getTime putFields
  simp only [List.append_assoc, List.cons_append]
  by_cases hblank : separator = SP
  · subst hblank
    have hdrop := fun s => dropWhile_twoDigits s ht.hour.1 (by have := ht.hour.2; omega)
    simp only [hyear, hmonth, hday, hhour, hminute, hsecond, hdrop, getLiteral_self,
      Option.bind_eq_bind, Option.bind_some, if_true]
    rfl
  · simp only [hyear, hmonth, hday, hhour, hminute, hsecond, getLiteral_self,
      Option.bind_eq_bind, Option.bind_some, if_neg hblank]
    rfl

/-- A blank is no `T`. -/
theorem getTime_wrong_separator {separator : UInt8} {t : CivilTime} (ht : t.Plain)
    (hT : separator ≠ 84) (rest : Bytes) : getTime 84 (putFields separator t ++ rest) = none := by
  have hyear := fun s => getNumber_year s ht.year.1 ht.year.2
  have hmonth := fun s => @getNumber_twoDigits 1 12 _ s ht.month.1 ht.month.2 (by decide)
  have hday := fun s => @getNumber_twoDigits 1 31 _ s ht.day.1 ht.day.2 (by decide)
  have hliteral := fun s => show getLiteral 84 (separator :: s) = none from if_neg hT
  unfold getTime putFields
  simp only [List.append_assoc, List.cons_append]
  simp only [hyear, hmonth, hday, hliteral, getLiteral_self, Option.bind_eq_bind, Option.bind_some,
    Option.bind_none, if_neg (show ¬ (84 : UInt8) = SP by decide)]

end Lib
