import CycloneCache.Ref.HttpDate

/-!
# The date parser inverts the calendar

`to_epoch` counts days from the first of March of the year 0 in eras of 400
years. It is compared with a calendar that goes from one day to the next: both
agree on 1970-01-01, and the count grows by one at every step (`dayCount_next`).
The text then is a matter of reading each field where it stands.
-/

namespace CycloneCache.Ref.Http

variable {n t : Nat} {d : Date}

/-- Days before the first of March of a year, in `to_epoch`. -/
def eraDays (y : Nat) : Nat :=
  y / 400 * 146097 + ((y - y / 400 * 400) * 365 + (y - y / 400 * 400) / 4 -
    (y - y / 400 * 400) / 100)

/-- The day number in `to_epoch`, from the first of March of the year 0. -/
def dayCount (d : Date) : Nat :=
  eraDays (if d.month ≤ 2 then d.year - 1 else d.year) +
    ((153 * (if 2 < d.month then d.month - 3 else d.month + 9) + 2) / 5 + d.day - 1)

theorem eraDays_succ (y : Nat) :
    eraDays (y + 1) = eraDays y + 365 + if isLeap (y + 1) then 1 else 0 := by
  unfold eraDays
  split
  · next hleap =>
    simp only [isLeap, Bool.and_eq_true, beq_iff_eq, Bool.or_eq_true, bne_iff_ne, ne_eq] at hleap
    omega
  · next hleap =>
    simp only [isLeap, Bool.and_eq_true, beq_iff_eq, Bool.or_eq_true, bne_iff_ne, ne_eq] at hleap
    omega

structure Date.Valid (d : Date) : Prop where
  year : 1970 ≤ d.year
  month : 1 ≤ d.month ∧ d.month ≤ 12
  day : 1 ≤ d.day ∧ d.day ≤ daysInMonth d.year d.month

theorem daysInMonth_le (y m : Nat) : 28 ≤ daysInMonth y m ∧ daysInMonth y m ≤ 31 := by
  unfold daysInMonth
  split <;> (split <;> omega)

theorem Date.Valid.next (h : d.Valid) : d.next.Valid := by
  obtain ⟨hy, hm, hd⟩ := h
  have hone (y m : Nat) : 1 ≤ 1 ∧ 1 ≤ daysInMonth y m :=
    ⟨Nat.le_refl 1, le_trans (by decide) (daysInMonth_le y m).1⟩
  unfold Date.next
  split
  · exact ⟨hy, hm, by simp only; omega⟩
  · split
    · exact ⟨hy, by simp only; omega, hone ..⟩
    · exact ⟨Nat.le_succ_of_le hy, ⟨Nat.le_refl 1, by simp⟩, hone ..⟩

/-- From one day to the next the count grows by one. -/
theorem dayCount_next (h : d.Valid) : dayCount d.next = dayCount d + 1 := by
  obtain ⟨y, m, day⟩ := d
  obtain ⟨hy, hm, hd⟩ := h
  simp only at hy hm hd
  simp only [Date.next]
  split
  · simp only [dayCount]
    omega
  · next hlast =>
    obtain rfl : day = daysInMonth y m := by omega
    split
    · obtain rfl | hm : m = 2 ∨ m ≠ 2 := by omega
      · -- the leap day, at the end of a year that begins in March
        have hyear := eraDays_succ (y - 1)
        rw [Nat.sub_add_cancel (by omega)] at hyear
        simp only [dayCount, daysInMonth]
        cases hleap : isLeap y <;> simp [hleap] at hyear ⊢ <;> omega
      · have hcases : m = 1 ∨ m = 3 ∨ m = 4 ∨ m = 5 ∨ m = 6 ∨ m = 7 ∨ m = 8 ∨ m = 9 ∨ m = 10 ∨
          m = 11 := by omega
        rcases hcases with rfl | rfl | rfl | rfl | rfl | rfl | rfl | rfl | rfl | rfl <;>
          simp [dayCount, daysInMonth]
    · obtain rfl : m = 12 := by omega
      simp [dayCount, daysInMonth]

theorem dateOf_spec (n : Nat) : (dateOf n).Valid ∧ dayCount (dateOf n) = n + 719468 := by
  induction n with
  | zero => exact ⟨⟨by decide, by decide, by decide⟩, by decide⟩
  | succ n ih =>
    have hnext := dayCount_next ih.1
    rw [ih.2] at hnext
    exact ⟨ih.1.next, hnext.trans (Nat.add_right_comm ..)⟩

theorem year_le (h : n < 2932897) : (dateOf n).year ≤ 9999 := by
  obtain ⟨⟨hy, hm, hd⟩, hcount⟩ := dateOf_spec n
  by_contra hlate
  simp only [dayCount, eraDays] at hcount
  split at hcount <;> split at hcount <;> omega

/-- The fields of a second, counted back. -/
theorem toEpoch_dateOf (t : Nat) :
    toEpoch (dateOf (t / 86400)).year (dateOf (t / 86400)).month (dateOf (t / 86400)).day
      (t / 3600 % 24) (t / 60 % 60) (t % 60) = some (t : Int) := by
  obtain ⟨⟨hy, hm, hd⟩, hcount⟩ := dateOf_spec (t / 86400)
  have hlen := (daysInMonth_le (dateOf (t / 86400)).year (dateOf (t / 86400)).month).2
  unfold toEpoch
  rw [if_neg (by omega)]
  simp only [dayCount, eraDays, Nat.add_assoc] at hcount
  simp only [hcount, Option.some.injEq]
  omega

/-! Reading the text. -/

theorem toNat_digit (n : Nat) : (digit n).toNat = 48 + n % 10 := by
  rw [digit, UInt8.toNat_ofNat']
  omega

theorem digit_ne {b : UInt8} (h : b.toNat < 48 ∨ 57 < b.toNat) (n : Nat) : digit n ≠ b := by
  intro hb
  have := toNat_digit n
  rw [hb] at this
  omega

theorem digitsValue_digit (r n : Nat) (cs : Str) :
    digitsValue r (digit n :: cs) = digitsValue (r * 10 + n % 10) cs := by
  have hval := toNat_digit n
  rw [digitsValue, if_neg, hval, Nat.add_sub_cancel_left]
  simp only [Bool.or_eq_true, decide_eq_true_eq, UInt8.lt_iff_toNat_lt, hval, not_or]
  exact ⟨Nat.not_lt.mpr (Nat.le_add_right ..), Nat.not_lt.mpr (by show 48 + n % 10 ≤ 57; omega)⟩

theorem dayName_spec (n : Nat) :
    ∃ a b c, dayName n = [a, b, c] ∧ ∀ x ∈ [a, b, c], x ≠ 44 ∧ isOws x = false := by
  have hall : ∀ i < 7, ∃ a b c, kDays.getD i [] = [a, b, c] ∧
      ∀ x ∈ [a, b, c], x ≠ 44 ∧ isOws x = false := by
    intro i hi
    interval_cases i <;> exact ⟨_, _, _, rfl, by simp [isOws]⟩
  exact hall (n % 7) (Nat.mod_lt _ (by decide))

theorem monthName_spec {m : Nat} (h : 1 ≤ m ∧ m ≤ 12) :
    ∃ a b c, monthName m = [a, b, c] ∧ parseMonth [a, b, c] = some m ∧ 44 ∉ [a, b, c] := by
  obtain ⟨h1, h2⟩ := h
  interval_cases m <;> exact ⟨_, _, _, rfl, by decide, by decide⟩

theorem digitsValue_two (h : n < 100) : digitsValue 0 [digit (n / 10), digit n] = some n := by
  rw [digitsValue_digit, digitsValue_digit, digitsValue, Option.some.injEq]
  omega

theorem digitsValue_four (h : n < 10000) :
    digitsValue 0 [digit (n / 100 / 10), digit (n / 100), digit (n / 10), digit n] = some n := by
  rw [digitsValue_digit, digitsValue_digit, digitsValue_digit, digitsValue_digit, digitsValue,
    Option.some.injEq]
  omega

/-- What the two parsers read out of the text of `t`. -/
structure Fields (t : Nat) (d : Date) : Prop where
  day : digitsValue 0 [digit (d.day / 10), digit d.day] = some d.day
  one : d.day < 10 → digitsValue 0 [digit d.day] = some d.day
  year : digitsValue 0 [digit (d.year / 100 / 10), digit (d.year / 100), digit (d.year / 10),
    digit d.year] = some d.year
  hour : digitsValue 0 [digit (t / 3600 % 24 / 10), digit (t / 3600 % 24)] = some (t / 3600 % 24)
  minute : digitsValue 0 [digit (t / 60 % 60 / 10), digit (t / 60 % 60)] = some (t / 60 % 60)
  second : digitsValue 0 [digit (t % 60 / 10), digit (t % 60)] = some (t % 60)

theorem fields_dateOf (ht : t < 253402300800) : Fields t (dateOf (t / 86400)) := by
  obtain ⟨⟨-, -, hd⟩, -⟩ := dateOf_spec (t / 86400)
  have hlen := (daysInMonth_le (dateOf (t / 86400)).year (dateOf (t / 86400)).month).2
  have hyear := year_le (n := t / 86400) (by omega)
  refine ⟨digitsValue_two (by omega), fun hlt => ?_, digitsValue_four (by omega),
    digitsValue_two (by omega), digitsValue_two (by omega), digitsValue_two (by omega)⟩
  rw [digitsValue_digit, digitsValue, Option.some.injEq]
  omega

theorem digit_not_ows (n : Nat) : digit n ≠ 32 ∧ digit n ≠ 9 ∧ digit n ≠ 44 :=
  ⟨digit_ne (.inl (by decide)) n, digit_ne (.inl (by decide)) n, digit_ne (.inl (by decide)) n⟩

theorem imf_read (ht : t < 253402300800) (y : Nat) : parseHttpDate y (imfFixdate t) = some t := by
  obtain ⟨a, b, c, hname, hplain⟩ := dayName_spec (t / 86400)
  obtain ⟨p, q, r, hmonth, hparse, -⟩ := monthName_spec (dateOf_spec (t / 86400)).1.month
  obtain ⟨hday, -, hyear, hhour, hminute, hsecond⟩ := fields_dateOf ht
  simp only [List.mem_cons, List.not_mem_nil, or_false, forall_eq_or_imp, forall_eq, isOws,
    Bool.or_eq_false_iff, beq_eq_false_iff_ne, ne_eq] at hplain
  simp [parseHttpDate, imfFixdate, hname, hmonth, trim, trimBy, List.rdropWhile, isOws, str,
    twoDigits, fourDigits, clockText, hplain, digit_not_ows, parseImf, marks, parseDigits, parseClock, hparse, hday,
    hyear, hhour, hminute, hsecond, toEpoch_dateOf]

theorem asctime_read (ht : t < 253402300800) (y : Nat) : parseHttpDate y (asctime t) = some t := by
  obtain ⟨a, b, c, hname, hplain⟩ := dayName_spec (t / 86400)
  obtain ⟨p, q, r, hmonth, hparse, hcomma⟩ := monthName_spec (dateOf_spec (t / 86400)).1.month
  obtain ⟨hday, hone, hyear, hhour, hminute, hsecond⟩ := fields_dateOf ht
  simp only [List.mem_cons, List.not_mem_nil, or_false, forall_eq_or_imp, forall_eq, isOws,
    Bool.or_eq_false_iff, beq_eq_false_iff_ne, ne_eq, not_or] at hplain hcomma
  by_cases hlt : (dateOf (t / 86400)).day < 10 <;>
    simp [parseHttpDate, asctime, hname, hmonth, trim, trimBy, List.rdropWhile, isOws, twoDigits,
      fourDigits, clockText, hplain, hcomma, digit_not_ows, @eq_comm UInt8 44, parseAsctime, marks, parseDigits,
      parseClock, hparse, hlt, hone, hday, hyear, hhour, hminute, hsecond, toEpoch_dateOf]

/-- **Every second from 1970 to 9999 is read back from its two texts**, so
later seconds are read as larger numbers. -/
theorem http_dates (y : Nat) :
    (∀ t < 253402300800, parseHttpDate y (imfFixdate t) = some (t : Int) ∧
      parseHttpDate y (asctime t) = some (t : Int)) ∧
    ∀ t t' : Nat, t < t' → t' < 253402300800 → ∀ f ∈ [imfFixdate, asctime], ∀ v v' : Int,
      parseHttpDate y (f t) = some v → parseHttpDate y (f t') = some v' → v < v' := by
  have hread : ∀ t < 253402300800, ∀ f ∈ [imfFixdate, asctime],
      parseHttpDate y (f t) = some (t : Int) := by
    intro t ht f hf
    simp only [List.mem_cons, List.not_mem_nil, or_false] at hf
    obtain rfl | rfl := hf
    · exact imf_read ht y
    · exact asctime_read ht y
  refine ⟨fun t ht => ⟨imf_read ht y, asctime_read ht y⟩, fun t t' hlt ht' f hf v v' hv hv' => ?_⟩
  rw [hread t (hlt.trans ht') f hf] at hv
  rw [hread t' ht' f hf] at hv'
  cases hv
  cases hv'
  exact Int.ofNat_lt.mpr hlt

theorem http_dates_last : parseHttpDate 2026 (imfFixdate 253402300799) = some 253402300799 :=
  ((http_dates 2026).1 253402300799 (by decide)).1

end CycloneCache.Ref.Http
