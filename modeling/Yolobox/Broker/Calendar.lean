/-
# The calendar

The date of a day number and the day number of a date are inverse to each other
(`dateOf_spec`).  Years go by cycles of 400, 100, 4 and 1; the last day of a cycle that is
one longer than its parts is the special case of `dateOf`.
-/
import Yolobox.Broker.Mint

namespace Broker

variable {year year' month n : ℕ}

/-! ## Years -/

theorem isLeap_iff : isLeap year = true ↔ year % 4 = 0 ∧ (year % 100 ≠ 0 ∨ year % 400 = 0) := by
  simp [isLeap]

/-- The days before a year, by its place in the cycles. -/
theorem daysBeforeYear_cycles {q c k s : ℕ} (hc : c ≤ 3) (hk : k ≤ 24) (hs : s ≤ 3) :
    daysBeforeYear (q * 400 + c * 100 + k * 4 + s + 1) =
      q * 146097 + c * 36524 + k * 1461 + s * 365 := by
  unfold daysBeforeYear
  omega

theorem daysBeforeYear_mono (h : year ≤ year') : daysBeforeYear year ≤ daysBeforeYear year' := by
  induction h with
  | refl => exact le_rfl
  | step _ ih =>
    refine ih.trans ?_
    unfold daysBeforeYear
    omega

/-! ## Months -/

/-- Months depend on a year only by whether it is a leap year. -/
theorem daysInMonth_congr (h : isLeap year = isLeap year') (month : ℕ) :
    daysInMonth year month = daysInMonth year' month := by
  simp [daysInMonth, h]

theorem daysBeforeMonth_congr (h : isLeap year = isLeap year') (month : ℕ) :
    daysBeforeMonth year month = daysBeforeMonth year' month := by
  simp [daysBeforeMonth, daysInMonth_congr h]

/-- The month that a day of the year is in, from none before it. -/
def monthOf (year left : ℕ) : ℕ :=
  ((List.range 12).filter fun m => daysBeforeMonth year (m + 1) ≤ left).length

theorem monthOf_congr (h : isLeap year = isLeap year') (left : ℕ) :
    monthOf year left = monthOf year' left := by
  simp [monthOf, daysBeforeMonth_congr h]

/-- Whether a date is one of the calendar. -/
structure IsDate (year month day : ℕ) : Prop where
  year_pos : 1 ≤ year
  month_pos : 1 ≤ month
  month_le : month ≤ 12
  day_pos : 1 ≤ day
  day_le : day ≤ daysInMonth year month

/-- The days of a common year and of a leap year, but its last. -/
theorem monthOf_table : ∀ year ∈ [1, 4], ∀ left < 365,
    1 ≤ monthOf year left ∧ monthOf year left ≤ 12 ∧
      daysBeforeMonth year (monthOf year left) ≤ left ∧
      left - daysBeforeMonth year (monthOf year left) + 1 ≤
        daysInMonth year (monthOf year left) := by
  decide +kernel

theorem exists_isLeap_eq (year : ℕ) : ∃ year' ∈ [1, 4], isLeap year = isLeap year' := by
  cases h : isLeap year with
  | false => exact ⟨1, by simp, by decide⟩
  | true => exact ⟨4, by simp, by decide⟩

theorem isDate_monthOf {left : ℕ} (hyear : 1 ≤ year) (hleft : left < 365) :
    IsDate year (monthOf year left) (left - daysBeforeMonth year (monthOf year left) + 1) ∧
      daysBeforeMonth year (monthOf year left) ≤ left := by
  obtain ⟨year', hmem, hleap⟩ := exists_isLeap_eq year
  obtain ⟨hpos, hle, hbefore, hday⟩ := monthOf_table year' hmem left hleft
  rw [monthOf_congr hleap, daysBeforeMonth_congr hleap]
  refine ⟨⟨hyear, hpos, hle, Nat.le_add_left 1 _, ?_⟩, hbefore⟩
  rw [daysInMonth_congr hleap]
  exact hday

/-- The last day of a leap year. -/
theorem isDate_lastDay (hyear : 1 ≤ year) : IsDate year 12 31 :=
  ⟨hyear, by norm_num, by norm_num, by norm_num, by simp [daysInMonth]⟩

theorem daysBeforeMonth_december (h : isLeap year = true) : daysBeforeMonth year 12 = 335 := by
  have hleap : isLeap year = isLeap 4 := h.trans (by decide)
  rw [daysBeforeMonth_congr hleap]
  decide

/-! ## Day numbers -/

/-- A day number by the cycles it is in: the third cycle is one short where the second ends,
so a fourth part is left over only at the end of a cycle. -/
theorem exists_cycles (n : ℕ) (hn : 1 ≤ n) :
    ∃ q c k s left, (n - 1) / 146097 = q ∧ (n - 1) % 146097 / 36524 = c ∧
      (n - 1) % 146097 % 36524 / 1461 = k ∧ (n - 1) % 146097 % 36524 % 1461 / 365 = s ∧
      (n - 1) % 146097 % 36524 % 1461 % 365 = left ∧
      n = q * 146097 + c * 36524 + k * 1461 + s * 365 + left + 1 ∧ left < 365 ∧
      (c ≤ 3 ∧ k ≤ 24 ∧ s ≤ 3 ∨ c ≤ 3 ∧ k ≤ 23 ∧ s = 4 ∧ left = 0 ∨
        c = 4 ∧ k = 0 ∧ s = 0 ∧ left = 0) := by
  refine ⟨_, _, _, _, _, rfl, rfl, rfl, rfl, rfl, ?_, Nat.mod_lt _ (by norm_num), ?_⟩
  · omega
  · omega

/-- **A day number's date** is one of the calendar, with that day number. -/
theorem dateOf_spec (hn : 1 ≤ n) :
    IsDate (dateOf n).1 (dateOf n).2.1 (dateOf n).2.2 ∧
      daysBeforeYear (dateOf n).1 + daysBeforeMonth (dateOf n).1 (dateOf n).2.1 + (dateOf n).2.2 =
        n := by
  obtain ⟨q, c, k, s, left, hq, hc, hk, hs, hl, hsum, hleft, hcycle⟩ := exists_cycles n hn
  unfold dateOf
  simp only [hq, hc, hk, hs, hl]
  rcases hcycle with ⟨hc3, hk24, hs3⟩ | ⟨hc3, hk23, rfl, rfl⟩ | ⟨rfl, rfl, rfl, rfl⟩
  · rw [if_neg (by omega)]
    obtain ⟨hdate, hbefore⟩ := isDate_monthOf (Nat.le_add_left 1 (q * 400 + c * 100 + k * 4 + s)) hleft
    refine ⟨hdate, ?_⟩
    have hyear := daysBeforeYear_cycles (q := q) hc3 hk24 hs3
    unfold monthOf at hbefore
    dsimp only
    omega
  · rw [if_pos (by omega)]
    have hyear : daysBeforeYear (q * 400 + c * 100 + k * 4 + 4 + 1 - 1) =
        q * 146097 + c * 36524 + k * 1461 + 1095 :=
      daysBeforeYear_cycles (q := q) (s := 3) hc3 (by omega) le_rfl
    have hleap : isLeap (q * 400 + c * 100 + k * 4 + 4 + 1 - 1) = true := by
      rw [isLeap_iff]
      omega
    have hmonth := daysBeforeMonth_december hleap
    refine ⟨isDate_lastDay (by omega), ?_⟩
    dsimp only
    omega
  · rw [if_pos (by omega)]
    have hyear : daysBeforeYear (q * 400 + 4 * 100 + 0 * 4 + 0 + 1 - 1) =
        q * 146097 + 3 * 36524 + 24 * 1461 + 3 * 365 :=
      daysBeforeYear_cycles (q := q) (c := 3) (k := 24) (s := 3) le_rfl le_rfl le_rfl
    have hleap : isLeap (q * 400 + 4 * 100 + 0 * 4 + 0 + 1 - 1) = true := by
      rw [isLeap_iff]
      omega
    have hmonth := daysBeforeMonth_december hleap
    refine ⟨isDate_lastDay (by omega), ?_⟩
    dsimp only
    omega

/-- The days of a year, up to the end of each month. -/
theorem daysToMonthEnd_table : ∀ year ∈ [1, 4], ∀ month < 13,
    daysBeforeMonth year month + daysInMonth year month ≤ if isLeap year then 366 else 365 := by
  decide +kernel

/-- One more than a number, in its quotients. -/
theorem succ_div (z d : ℕ) : (z + 1) / d = z / d + if (z + 1) % d = 0 then 1 else 0 := by
  rw [Nat.succ_div]
  simp [Nat.dvd_iff_mod_eq_zero]

theorem daysBeforeYear_succ (hyear : 1 ≤ year) :
    daysBeforeYear (year + 1) = daysBeforeYear year + if isLeap year then 366 else 365 := by
  obtain ⟨z, rfl⟩ := Nat.exists_eq_add_of_le' hyear
  have hfour : (z + 1) % 100 = 0 → (z + 1) % 4 = 0 := by omega
  have hhundred : (z + 1) % 400 = 0 → (z + 1) % 100 = 0 := by omega
  have hle : z / 100 ≤ z / 4 := by omega
  unfold daysBeforeYear
  simp only [Nat.add_sub_cancel, succ_div z 4, succ_div z 100, succ_div z 400, isLeap_iff]
  split_ifs <;> omega

/-- **A date's day number** is among those of its year. -/
theorem dayNumber_le {day : ℕ} (h : IsDate year month day) :
    daysBeforeYear year + daysBeforeMonth year month + day ≤ daysBeforeYear (year + 1) := by
  obtain ⟨year', hmem, hleap⟩ := exists_isLeap_eq year
  have htable := daysToMonthEnd_table year' hmem month (Nat.lt_succ_of_le h.month_le)
  rw [← daysBeforeMonth_congr hleap, ← daysInMonth_congr hleap, ← hleap] at htable
  have hday := h.day_le
  rw [daysBeforeYear_succ h.year_pos]
  omega

/-- The first years that are written with four digits, and with five. -/
theorem year_lt_iff {bound : ℕ} (hn : 1 ≤ n) :
    (dateOf n).1 < bound ↔ n ≤ daysBeforeYear bound := by
  obtain ⟨hdate, hsum⟩ := dateOf_spec hn
  have hle := dayNumber_le hdate
  have hpos := hdate.day_pos
  constructor
  · intro h
    have hmono := daysBeforeYear_mono (Nat.succ_le_of_lt h)
    rw [Nat.succ_eq_add_one] at hmono
    omega
  · intro h
    by_contra hge
    have hmono := daysBeforeYear_mono (not_lt.mp hge)
    omega

end Broker
