/-
# The expiration that is served

`parse_expiration` reads the instant a timestamp denotes (`parse_denotes`), and what
`export_credentials` makes of it is read back as the same instant, to the second
(`parse_served`), unless the instant is too early or too late to be written.
-/
import Yolobox.Broker.Calendar

namespace Broker

/-! ## What a timestamp denotes -/

/-- The minutes a zone is east of UTC; no zone is UTC. -/
def zoneMinutes (zone : PyStr) : ℤ :=
  if zone = [] ∨ zone = lit "Z" then 0
  else
    let digits := zone.tail.filter (· ≠ 58)
    let minutes : ℤ := num (digits.take 2) * 60 + num (digits.drop 2)
    if zone.head? = some 45 then -minutes else minutes

/-- The number a part of a text spells. -/
def field (text : PyStr) (start length : ℕ) : ℕ := num ((text.drop start).take length)

/-- The seconds since 1970 at a second of a day, in a zone so many minutes east of UTC. -/
def instant (year month day clock : ℕ) (east : ℤ) : ℤ :=
  ((daysBeforeYear year : ℤ) + daysBeforeMonth year month + day - epochOrdinal) * 86400 + clock -
    east * 60

/-- The seconds since 1970 that a timestamp denotes, its fraction left out. -/
def denotedSeconds (text : PyStr) : ℤ :=
  let rest := text.drop 19
  let zone := if rest.head? = some 46 then rest.tail.dropWhile isDecimal else rest
  instant (field text 0 4) (field text 5 2) (field text 8 2)
    (field text 11 2 * 3600 + field text 14 2 * 60 + field text 17 2) (zoneMinutes zone)

example : denotedSeconds (lit "2024-02-29 23:59:59.5+0130") = 1709245799 := by decide +kernel

/-! ## Reading -/

variable {pattern text zone : PyStr}

/-- Where the pattern has a `d` the text has a digit. -/
theorem isDigit_of_shaped (h : shaped pattern text = true) {i c : ℕ} (hp : pattern[i]? = some 100)
    (hc : text[i]? = some c) : isDigit c = true := by
  simp only [shaped, Bool.and_eq_true, List.all_eq_true] at h
  have hmem : (100, c) ∈ pattern.zip text :=
    List.mem_of_getElem? (List.getElem?_zip_eq_some.mpr ⟨hp, hc⟩)
  simpa using h.2 _ hmem

theorem length_of_shaped (h : shaped pattern text = true) : text.length = pattern.length := by
  simp only [shaped, Bool.and_eq_true, beq_iff_eq] at h
  exact h.1.symm

/-- A number of six digits. -/
theorem num_lt_of_digits {digits : PyStr} (h : ∀ c ∈ digits, isDigit c = true) :
    num digits < 10 ^ digits.length := by
  have hlt := Nat.ofDigits_lt_base_pow_length (b := 10) (l := digits.reverse.map (· - 48))
    (by norm_num) (by
      intro d hd
      obtain ⟨c, hc, rfl⟩ := List.mem_map.mp hd
      have hdigit := h c (List.mem_reverse.mp hc)
      simp only [isDigit, Bool.and_eq_true, decide_eq_true_eq] at hdigit
      omega)
  simpa [num] using hlt

/-- Whether a zone is a sign, `hh`, a colon or none, and `mm`. -/
theorem exists_of_shaped_colon {sign : ℕ} (hsign : sign ≠ 100)
    (h : shaped ([sign, 100, 100, 58, 100, 100]) zone = true) :
    ∃ a b c d, zone = [sign, a, b, 58, c, d] ∧ ∀ x ∈ [a, b, c, d], isDigit x = true := by
  have hlength := length_of_shaped h
  rcases zone with _ | ⟨z, _ | ⟨a, _ | ⟨b, _ | ⟨m, _ | ⟨c, _ | ⟨d, _ | ⟨x, rest⟩⟩⟩⟩⟩⟩⟩ <;>
    simp at hlength
  simp [shaped, hsign] at h
  obtain ⟨rfl, ha, hb, rfl, hc, hd⟩ := h
  exact ⟨a, b, c, d, rfl, by simp [ha, hb, hc, hd]⟩

theorem exists_of_shaped_plain {sign : ℕ} (hsign : sign ≠ 100)
    (h : shaped ([sign, 100, 100, 100, 100]) zone = true) :
    ∃ a b c d, zone = [sign, a, b, c, d] ∧ ∀ x ∈ [a, b, c, d], isDigit x = true := by
  have hlength := length_of_shaped h
  rcases zone with _ | ⟨z, _ | ⟨a, _ | ⟨b, _ | ⟨c, _ | ⟨d, _ | ⟨x, rest⟩⟩⟩⟩⟩⟩ <;>
    simp at hlength
  simp [shaped, hsign] at h
  obtain ⟨rfl, ha, hb, hc, hd⟩ := h
  exact ⟨a, b, c, d, rfl, by simp [ha, hb, hc, hd]⟩

theorem filter_digits {digits : PyStr} (h : ∀ x ∈ digits, isDigit x = true) :
    digits.filter (· ≠ 58) = digits := by
  refine List.filter_eq_self.mpr fun x hx => ?_
  have hdigit := h x hx
  simp only [isDigit, Bool.and_eq_true, decide_eq_true_eq] at hdigit
  simp
  omega

/-- The minutes of a zone that is a sign and four digits, with a colon or without. -/
theorem zoneMinutes_of_digits (sign : ℕ) {a b c d : ℕ} {colon : PyStr} (hcolon : colon = [58] ∨ colon = [])
    (hdigits : ∀ x ∈ [a, b, c, d], isDigit x = true) :
    zoneMinutes ([sign, a, b] ++ colon ++ [c, d]) =
      if sign = 45 then -((num [a, b] * 60 + num [c, d] : ℕ) : ℤ)
      else ((num [a, b] * 60 + num [c, d] : ℕ) : ℤ) := by
  have hZ : [sign, a, b] ++ colon ++ [c, d] ≠ lit "Z" := by
    intro h
    have hlength := congrArg List.length h
    rcases hcolon with rfl | rfl <;> simp [lit] at hlength
  have hfilter : ([sign, a, b] ++ colon ++ [c, d]).tail.filter (· ≠ 58) = [a, b, c, d] := by
    have hab : [a, b].filter (· ≠ 58) = [a, b] :=
      filter_digits fun x hx => hdigits x (by simp at hx ⊢; tauto)
    have hcd : [c, d].filter (· ≠ 58) = [c, d] :=
      filter_digits fun x hx => hdigits x (by simp at hx ⊢; tauto)
    have htail : ([sign, a, b] ++ colon ++ [c, d]).tail = [a, b] ++ colon ++ [c, d] := rfl
    rw [htail, List.filter_append, List.filter_append, hab, hcd]
    rcases hcolon with rfl | rfl <;> rfl
  unfold zoneMinutes
  rw [if_neg (not_or.mpr ⟨by simp, hZ⟩), hfilter]
  simp

/-- A zone `fromisoformat` reads is the zone of the timestamp. -/
theorem rebuiltZone_minutes {zone' : PyStr} (h : rebuiltZone zone = some zone') :
    (if zone'.head? = some 45 then
          -((num ((zone'.drop 1).take 2) * 60 + num ((zone'.drop 4).take 2) : ℕ) : ℤ)
        else ((num ((zone'.drop 1).take 2) * 60 + num ((zone'.drop 4).take 2) : ℕ) : ℤ)) =
      zoneMinutes zone := by
  unfold rebuiltZone at h
  split_ifs at h with hnone hcolon hplain
  · cases h
    rw [zoneMinutes, if_pos hnone]
    decide
  · cases h
    have hshape : ∃ sign, sign ≠ 100 ∧ shaped [sign, 100, 100, 58, 100, 100] zone = true :=
      hcolon.elim (fun h => ⟨43, by decide, h⟩) fun h => ⟨45, by decide, h⟩
    obtain ⟨sign, hsign, hshape⟩ := hshape
    obtain ⟨a, b, c, d, rfl, hdigits⟩ := exists_of_shaped_colon hsign hshape
    have hminutes := zoneMinutes_of_digits sign (.inl rfl) hdigits
    simpa using hminutes.symm
  · cases h
    have hshape : ∃ sign, sign ≠ 100 ∧ shaped [sign, 100, 100, 100, 100] zone = true :=
      hplain.elim (fun h => ⟨43, by decide, h⟩) fun h => ⟨45, by decide, h⟩
    obtain ⟨sign, hsign, hshape⟩ := hshape
    obtain ⟨a, b, c, d, rfl, hdigits⟩ := exists_of_shaped_plain hsign hshape
    have hminutes := zoneMinutes_of_digits sign (.inr rfl) hdigits
    simpa [lit] using hminutes.symm

/-- The minutes of a zone in the rebuilt shape. -/
def rebuiltMinutes (zone : PyStr) : ℤ :=
  if zone.head? = some 45 then -((field zone 1 2 * 60 + field zone 4 2 : ℕ) : ℤ)
  else ((field zone 1 2 * 60 + field zone 4 2 : ℕ) : ℤ)

theorem fromisoformat_some {time : ℤ} (h : fromisoformat text = some time) :
    (∀ i < 6, ∀ c, text[20 + i]? = some c → isDigit c = true) ∧
      time = instant (field text 0 4) (field text 5 2) (field text 8 2)
          (field text 11 2 * 3600 + field text 14 2 * 60 + field text 17 2)
          (rebuiltMinutes (text.drop 26)) * secondMicros + field text 20 6 := by
  unfold fromisoformat at h
  dsimp only at h
  split_ifs at h with hshape hranges heast
  all_goals
    refine ⟨fun i hi c hc => ?_, ?_⟩
    · rcases hshape with hshape | hshape
      · exact isDigit_of_shaped hshape (by interval_cases i <;> rfl) hc
      · exact isDigit_of_shaped hshape (by interval_cases i <;> rfl) hc
    · rw [← Option.some.inj h, instant, rebuiltMinutes]
      first
        | rw [if_pos heast]
        | rw [if_neg heast]
      simp [field, List.drop_drop]

theorem field_append_left {a b : PyStr} {start length : ℕ} (h : start + length ≤ a.length) :
    field (a ++ b) start length = field a start length := by
  rw [field, field, List.drop_append_of_le_length (by omega),
    List.take_append_of_le_length (by rw [List.length_drop]; omega)]

theorem field_append_right {a b : PyStr} {n start length : ℕ} (h : n = a.length + start) :
    field (a ++ b) n length = field b start length := by
  rw [field, field, h, List.drop_length_add_append]

theorem field_lt {start length : ℕ}
    (h : ∀ i < length, ∀ c, text[start + i]? = some c → isDigit c = true) :
    field text start length < 10 ^ length := by
  refine (num_lt_of_digits fun c hc => ?_).trans_le (Nat.pow_le_pow_right (by norm_num)
    (List.length_take_le _ _))
  obtain ⟨i, hi⟩ := List.mem_iff_getElem?.mp hc
  rw [List.getElem?_take, Option.ite_none_right_eq_some, List.getElem?_drop] at hi
  exact h i hi.1 c hi.2

/-- What `fromisoformat` makes of the rebuilt text, to the second. -/
theorem fromisoformat_seconds {day clock six : PyStr} {time : ℤ} (hday : day.length = 10)
    (hclock : clock.length = 8) (hsix : six.length = 6)
    (h : fromisoformat (day ++ lit "T" ++ clock ++ lit "." ++ six ++ zone) = some time) :
    time / secondMicros = instant (field day 0 4) (field day 5 2) (field day 8 2)
      (field clock 0 2 * 3600 + field clock 3 2 * 60 + field clock 6 2) (rebuiltMinutes zone) := by
  have hT : (lit "T").length = 1 := rfl
  have hdot : (lit ".").length = 1 := rfl
  obtain ⟨hdigits, rfl⟩ := fromisoformat_some h
  have hmicros := field_lt hdigits
  generalize field _ 20 6 = micros at hmicros
  have hassoc : day ++ lit "T" ++ clock ++ lit "." ++ six ++ zone =
      day ++ (lit "T" ++ (clock ++ (lit "." ++ (six ++ zone)))) := by simp
  have hzone : (day ++ lit "T" ++ clock ++ lit "." ++ six ++ zone).drop 26 = zone := by
    have hlength : (day ++ lit "T" ++ clock ++ lit "." ++ six).length = 26 := by
      simp [hday, hclock, hsix, hT, hdot]
    rw [← hlength, List.drop_left]
  rw [hzone, hassoc, field_append_left (by omega), field_append_left (by omega),
    field_append_left (by omega)]
  have hfield : ∀ start, start + 2 ≤ 8 →
      field (day ++ (lit "T" ++ (clock ++ (lit "." ++ (six ++ zone))))) (11 + start) 2 =
        field clock start 2 := by
    intro start hstart
    rw [field_append_right (show 11 + start = day.length + (1 + start) by omega),
      field_append_right (show 1 + start = (lit "T").length + start by omega),
      field_append_left (by omega)]
  rw [hfield 0 (by norm_num), hfield 3 (by norm_num), hfield 6 (by norm_num)]
  unfold secondMicros
  omega

theorem field_take {start length k : ℕ} (h : start + length ≤ k) :
    field (text.take k) start length = field text start length := by
  rw [field, field, List.drop_take, List.take_take, Nat.min_eq_left (by omega)]

theorem field_drop {start length k : ℕ} :
    field (text.drop k) start length = field text (k + start) length := by
  rw [field, field, List.drop_drop]

theorem drop_length_takeWhile (p : ℕ → Bool) (text : PyStr) :
    text.drop (text.takeWhile p).length = text.dropWhile p :=
  (congrArg (List.drop _) List.takeWhile_append_dropWhile.symm).trans List.drop_left

/-- **What `parse_expiration` returns** is what the timestamp denotes. -/
theorem parse_denotes {time : ℤ} (h : parseExpiration text = some time) :
    time / secondMicros = denotedSeconds text := by
  have hzeros : lit ".000000" = lit "." ++ lit "000000" := by decide
  unfold parseExpiration at h
  dsimp only at h
  rw [Option.ite_none_right_eq_some] at h
  obtain ⟨⟨hshape, -⟩, h⟩ := h
  have hlength := length_of_shaped hshape
  have hpattern : (lit "dddd-dd-dd dd:dd:dd").length = 19 := by decide
  have hspace : (lit " ").length = 1 := rfl
  rw [List.length_append, List.length_append, hpattern, hspace, List.length_take, List.length_take,
    List.length_drop] at hlength
  have hday : (text.take 10).length = 10 := by
    rw [List.length_take]
    omega
  have hclock : ((text.drop 11).take 8).length = 8 := by
    rw [List.length_take, List.length_drop]
    omega
  have hfields : ∀ six zone zone' : PyStr, six.length = 6 → rebuiltZone zone = some zone' →
      fromisoformat (text.take 10 ++ lit "T" ++ (text.drop 11).take 8 ++ lit "." ++ six ++ zone') =
        some time →
      time / secondMicros = instant (field text 0 4) (field text 5 2) (field text 8 2)
        (field text 11 2 * 3600 + field text 14 2 * 60 + field text 17 2) (zoneMinutes zone) := by
    intro six zone zone' hsix hzone hiso
    rw [fromisoformat_seconds hday hclock hsix hiso, field_take (by norm_num),
      field_take (by norm_num), field_take (by norm_num), field_take (by norm_num),
      field_take (by norm_num), field_take (by norm_num), field_drop, field_drop, field_drop,
      ← rebuiltZone_minutes hzone]
    rfl
  unfold denotedSeconds
  dsimp only
  split_ifs at h ⊢ with hdot hfraction
  · obtain ⟨zone', hzone, hiso⟩ := Option.bind_eq_some_iff.mp h
    rw [drop_length_takeWhile] at hzone
    refine hfields _ _ zone' ?_ hzone hiso
    rw [List.length_rightpad, List.length_take]
    omega
  · obtain ⟨zone', hzone, hiso⟩ := Option.bind_eq_some_iff.mp h
    rw [hzeros, ← List.append_assoc] at hiso
    exact hfields _ _ zone' rfl hzone hiso

/-! ## Writing -/

/-- The digits of a year. -/
def fourDigits (year : ℕ) : PyStr :=
  [48 + year / 1000, 48 + year / 100 % 10, 48 + year / 10 % 10, 48 + year % 10]

/-- A year of up to four digits, padded. -/
theorem leftpad_dec {year : ℕ} (hlow : 1 ≤ year) (hhigh : year < 10000) :
    (dec year).leftpad 4 48 = fourDigits year := by
  have hcases : year < 10 ∨ 10 ≤ year ∧ year < 100 ∨ 100 ≤ year ∧ year < 1000 ∨ 1000 ≤ year := by
    omega
  rcases hcases with h | ⟨h, h'⟩ | ⟨h, h'⟩ | h
  · rw [dec_of_pos hlow, Nat.digits_of_lt 10 year (by omega) h]
    simp [List.leftpad, fourDigits]
    omega
  · rw [dec_of_pos hlow, Nat.digits_def' (by norm_num) (by omega),
      Nat.digits_of_lt 10 (year / 10) (by omega) (by omega)]
    simp [List.leftpad, fourDigits]
    omega
  · rw [dec_of_pos hlow, Nat.digits_def' (by norm_num) (by omega),
      Nat.digits_def' (by norm_num) (by omega),
      Nat.digits_of_lt 10 (year / 10 / 10) (by omega) (by omega)]
    simp [List.leftpad, fourDigits]
    omega
  · rw [dec_of_pos hlow, Nat.digits_def' (by norm_num) (by omega),
      Nat.digits_def' (by norm_num) (by omega), Nat.digits_def' (by norm_num) (by omega),
      Nat.digits_of_lt 10 (year / 10 / 10 / 10) (by omega) (by omega)]
    simp [List.leftpad, fourDigits]
    omega

/-- A year is written with four digits from 1000 on. -/
theorem length_dec_lt_iff {year : ℕ} : (dec year).length < 4 ↔ year < 1000 := by
  rw [Nat.lt_succ_iff, length_dec_le_iff (show 0 < 3 by norm_num)]
  norm_num

/-- The text of a second of a day, in UTC. -/
def stamp (yearText : PyStr) (month day hour minute second : ℕ) : PyStr :=
  yearText ++ lit "-" ++ twoDigits month ++ lit "-" ++ twoDigits day ++ lit "T" ++
    twoDigits hour ++ lit ":" ++ twoDigits minute ++ lit ":" ++ twoDigits second ++ lit "Z"

/-- The rebuilt text of a stamp. -/
theorem parse_digits {a b c e m m' d d' h h' i i' s s' : ℕ}
    (hdigits : ∀ x ∈ [a, b, c, e, m, m', d, d', h, h', i, i', s, s'], 48 + x ≤ 57) :
    parseExpiration [48 + a, 48 + b, 48 + c, 48 + e, 45, 48 + m, 48 + m', 45, 48 + d, 48 + d', 84,
        48 + h, 48 + h', 58, 48 + i, 48 + i', 58, 48 + s, 48 + s', 90] =
      fromisoformat [48 + a, 48 + b, 48 + c, 48 + e, 45, 48 + m, 48 + m', 45, 48 + d, 48 + d', 84,
        48 + h, 48 + h', 58, 48 + i, 48 + i', 58, 48 + s, 48 + s', 46, 48, 48, 48, 48, 48, 48, 43,
        48, 48, 58, 48, 48] := by
  simp only [List.forall_mem_cons, List.not_mem_nil, false_imp_iff, implies_true, and_true] at hdigits
  simp [parseExpiration, shaped, lit, isDigit, rebuiltZone, hdigits]

theorem num_four (a b c e : ℕ) :
    num [48 + a, 48 + b, 48 + c, 48 + e] = a * 1000 + b * 100 + c * 10 + e := by
  simp [num, Nat.ofDigits_cons]
  omega

theorem num_two (a b : ℕ) : num [48 + a, 48 + b] = a * 10 + b := by
  simp [num, Nat.ofDigits_cons]
  omega

/-- What `fromisoformat` makes of the digits. -/
theorem fromisoformat_digits {a b c e m m' d d' h h' i i' s s' year month day clock : ℕ}
    (hdigits : ∀ x ∈ [a, b, c, e, m, m', d, d', h, h', i, i', s, s'], 48 + x ≤ 57)
    (hyear : a * 1000 + b * 100 + c * 10 + e = year) (hmonth : m * 10 + m' = month)
    (hday : d * 10 + d' = day) (hdate : IsDate year month day) (hhour : h * 10 + h' < 24)
    (hminute : i * 10 + i' < 60) (hsecond : s * 10 + s' < 60)
    (hclock : (h * 10 + h') * 3600 + (i * 10 + i') * 60 + (s * 10 + s') = clock) :
    fromisoformat [48 + a, 48 + b, 48 + c, 48 + e, 45, 48 + m, 48 + m', 45, 48 + d, 48 + d', 84,
        48 + h, 48 + h', 58, 48 + i, 48 + i', 58, 48 + s, 48 + s', 46, 48, 48, 48, 48, 48, 48, 43,
        48, 48, 58, 48, 48] =
      some (instant year month day clock 0 * secondMicros) := by
  simp only [List.forall_mem_cons, List.not_mem_nil, false_imp_iff, implies_true, and_true] at hdigits
  have hshape : shaped (lit "dddd-dd-ddTdd:dd:dd.dddddd+dd:dd") [48 + a, 48 + b, 48 + c, 48 + e,
      45, 48 + m, 48 + m', 45, 48 + d, 48 + d', 84, 48 + h, 48 + h', 58, 48 + i, 48 + i', 58,
      48 + s, 48 + s', 46, 48, 48, 48, 48, 48, 48, 43, 48, 48, 58, 48, 48] = true := by
    simp [shaped, lit, isDigit, hdigits]
  have hzero : num [48, 48, 48, 48, 48, 48] = 0 := by decide
  have hzero' : num [48, 48] = 0 := by decide
  unfold fromisoformat
  rw [if_pos (.inl hshape)]
  simp only [List.drop_succ_cons, List.drop_zero, List.take_succ_cons, List.take_zero, num_four,
    num_two, hyear, hmonth, hday, hzero, hzero', List.head?_cons]
  rw [if_pos ⟨⟨hdate.year_pos, hdate.month_pos, hdate.month_le, hdate.day_pos, hdate.day_le⟩, hhour,
    hminute, hsecond, by norm_num⟩, if_neg (by simp), instant, ← hclock]
  push_cast
  ring_nf

/-- **A stamp is read back.** -/
theorem parse_stamp {year month day hour minute second : ℕ} (hdate : IsDate year month day)
    (hyear : year < 10000) (hhour : hour < 24) (hminute : minute < 60) (hsecond : second < 60) :
    parseExpiration (stamp (fourDigits year) month day hour minute second) =
      some (instant year month day (hour * 3600 + minute * 60 + second) 0 * secondMicros) := by
  have hmonth := hdate.month_le
  have hday : day < 100 := by
    have hle := hdate.day_le
    unfold daysInMonth at hle
    split_ifs at hle <;> omega
  have hdigits : ∀ x ∈ [year / 1000, year / 100 % 10, year / 10 % 10, year % 10, month / 10,
      month % 10, day / 10, day % 10, hour / 10, hour % 10, minute / 10, minute % 10, second / 10,
      second % 10], 48 + x ≤ 57 := by
    simp only [List.forall_mem_cons, List.not_mem_nil, false_imp_iff, implies_true, and_true]
    omega
  refine (parse_digits hdigits).trans (fromisoformat_digits hdigits ?_ ?_ ?_ hdate ?_ ?_ ?_ ?_)
  all_goals omega

/-- The instants that can be written so that they are read back: those of the years up to
9999, from the year 1 on where `%Y` is padded and from the year 1000 on where it is not. -/
def Writable (padsYear : Bool) (time : ℤ) : Prop :=
  (daysBeforeYear (if padsYear then 1 else 1000) : ℤ) < time / secondMicros / 86400 + epochOrdinal ∧
    time / secondMicros / 86400 + epochOrdinal ≤ daysBeforeYear 10000

/-- What is written is the stamp of a date. -/
theorem servedExpiration_some {padsYear : Bool} {time : ℤ} {served : PyStr}
    (h : servedExpiration padsYear time = some served) :
    ∃ day : ℕ, 1 ≤ day ∧ day ≤ daysBeforeYear 10000 ∧
      time / secondMicros / 86400 + epochOrdinal = day ∧
      served = stamp (if padsYear then (dec (dateOf day).1).leftpad 4 48 else dec (dateOf day).1)
        (dateOf day).2.1 (dateOf day).2.2 ((time / secondMicros % 86400).toNat / 3600)
        ((time / secondMicros % 86400).toNat / 60 % 60) ((time / secondMicros % 86400).toNat % 60) := by
  have hlast : daysBeforeYear 10000 = 3652059 := by decide
  unfold servedExpiration at h
  dsimp only at h
  rw [Option.ite_none_right_eq_some, Option.some.injEq] at h
  obtain ⟨⟨hlow, hhigh⟩, rfl⟩ := h
  exact ⟨(time / secondMicros / 86400 + epochOrdinal).toNat, by omega, by omega, by omega, rfl⟩

/-- **An instant that can be written** is read back, to the second. -/
theorem parse_served {padsYear : Bool} {time : ℤ} (h : Writable padsYear time) :
    ∃ served, servedExpiration padsYear time = some served ∧
      parseExpiration served = some (time / secondMicros * secondMicros) := by
  have hone : daysBeforeYear 1 = 0 := by decide
  have hlast : daysBeforeYear 10000 = 3652059 := by decide
  obtain ⟨hlow, hhigh⟩ := h
  obtain ⟨served, hserved⟩ : ∃ served, servedExpiration padsYear time = some served := by
    unfold servedExpiration
    dsimp only
    rw [if_pos ⟨by omega, by omega⟩]
    exact ⟨_, rfl⟩
  refine ⟨served, hserved, ?_⟩
  obtain ⟨day, hday, hle, hsum, rfl⟩ := servedExpiration_some hserved
  obtain ⟨hdate, hnumber⟩ := dateOf_spec hday
  have hbelow : (dateOf day).1 < 10000 := (year_lt_iff hday).mpr hle
  have hyear : (if padsYear then (dec (dateOf day).1).leftpad 4 48 else dec (dateOf day).1) =
      fourDigits (dateOf day).1 := by
    have hpadded := leftpad_dec hdate.year_pos hbelow
    cases padsYear with
    | true => exact hpadded
    | false =>
      rw [if_neg (by simp)] at hlow ⊢
      have hfrom : ¬ (dateOf day).1 < 1000 := fun hlt => by
        have hle' := (year_lt_iff hday).mp hlt
        omega
      have hlength := mt (length_dec_lt_iff).mp hfrom
      rw [List.leftpad, Nat.sub_eq_zero_of_le (not_lt.mp hlength)] at hpadded
      exact hpadded
  generalize time / secondMicros = seconds at *
  have hclock : (seconds % 86400).toNat < 86400 := by omega
  rw [hyear, parse_stamp hdate hbelow (by omega) (by omega) (by omega)]
  refine congrArg (fun seconds => some (seconds * secondMicros)) ?_
  unfold instant
  omega

/-- A timestamp that is read starts with four digits. -/
theorem isDigit_of_parse {time : ℤ} (h : parseExpiration text = some time) {i c : ℕ} (hi : i < 4)
    (hc : text[i]? = some c) : isDigit c = true := by
  unfold parseExpiration at h
  dsimp only at h
  rw [Option.ite_none_right_eq_some] at h
  have hlt : i < text.length := (List.getElem?_eq_some_iff.mp hc).1
  refine isDigit_of_shaped h.1.1 (i := i) (by interval_cases i <;> rfl) ?_
  rw [List.append_assoc, List.getElem?_append_left (by rw [List.length_take]; omega),
    List.getElem?_take_of_lt (by omega)]
  exact hc

/-- A year of fewer digits is not read back. -/
theorem writable_of_parse {padsYear : Bool} {time time' : ℤ} {served : PyStr}
    (h : servedExpiration padsYear time = some served)
    (hparse : parseExpiration served = some time') : Writable padsYear time := by
  obtain ⟨day, hday, hle, hsum, rfl⟩ := servedExpiration_some h
  obtain ⟨hdate, -⟩ := dateOf_spec hday
  refine ⟨?_, by omega⟩
  cases padsYear with
  | true =>
    have hone : daysBeforeYear 1 = 0 := by decide
    rw [if_pos rfl]
    omega
  | false =>
    rw [if_neg (by simp)] at hparse ⊢
    by_contra hearly
    have hlt : (dateOf day).1 < 1000 := (year_lt_iff hday).mpr (by omega)
    have hlength := (length_dec_lt_iff).mpr hlt
    -- the dash stands where the pattern has a digit
    have hdash : (stamp (dec (dateOf day).1) (dateOf day).2.1 (dateOf day).2.2
        ((time / secondMicros % 86400).toNat / 3600) ((time / secondMicros % 86400).toNat / 60 % 60)
        ((time / secondMicros % 86400).toNat % 60))[(dec (dateOf day).1).length]? = some 45 := by
      simp [stamp, lit]
    have hdigit := isDigit_of_parse hparse hlength hdash
    simp [isDigit] at hdigit

/-! ## Exporting -/

variable {py : Python}

/-- The text of a field of the parsed object. -/
def textOf (data : List (PyStr × Json)) (name : PyStr) : Option PyStr :=
  (data.lookup name).bind Json.text

/-- The checks end with an error, or come to writing the expiration. -/
theorem checkedCreds_cases (py : Python) (data : List (PyStr × Json)) :
    (∃ e, checkedCreds py data = some (.error e)) ∨
      ∃ a s t e time, textOf data (lit "AccessKeyId") = some a ∧
        textOf data (lit "SecretAccessKey") = some s ∧ textOf data (lit "SessionToken") = some t ∧
        textOf data (lit "Expiration") = some e ∧ parseExpiration e = some time ∧
        checkedCreds py data =
          (servedExpiration py.padsYear time).map fun served => .ok ⟨a, s, t, served⟩ := by
  unfold checkedCreds textOf
  dsimp only
  split_ifs with htoken
  · exact .inl ⟨_, rfl⟩
  split
  · exact .inl ⟨_, rfl⟩
  · exact .inl ⟨_, rfl⟩
  · exact .inl ⟨_, rfl⟩
  · exact .inl ⟨_, rfl⟩
  · rename_i a s t e ha hs ht he
    cases htime : parseExpiration e with
    | none => exact .inl ⟨_, rfl⟩
    | some time => exact .inr ⟨a, s, t, e, time, ha, hs, ht, he, htime, rfl⟩

/-- A call that returns; and credentials it returns have four non-empty fields, the last of
which is read back as what the CLI's expiration denotes, to the second. -/
def Exported (py : Python) (stdout : PyStr) (result : Option (Except MintError Creds)) : Prop :=
  ∃ r, result = some r ∧ ∀ creds, r = .ok creds →
    creds.accessKeyId ≠ [] ∧ creds.secretAccessKey ≠ [] ∧ creds.sessionToken ≠ [] ∧
      creds.expiration ≠ [] ∧
      ∃ data expiration, py.loads stdout = .value (.dict data) ∧
        data.lookup (lit "Expiration") = some (.str expiration) ∧
        denotedSeconds creds.expiration = denotedSeconds expiration ∧
        parseExpiration creds.expiration = some (denotedSeconds expiration * secondMicros)

/-- The expiration of credentials that pass every check can be written. -/
def ExpirationWritable (py : Python) (data : List (PyStr × Json)) : Prop :=
  ∀ e time, (textOf data (lit "AccessKeyId")).isSome → (textOf data (lit "SecretAccessKey")).isSome →
    (textOf data (lit "SessionToken")).isSome → textOf data (lit "Expiration") = some e →
    parseExpiration e = some time → Writable py.padsYear time

theorem textOf_ne_nil {data : List (PyStr × Json)} {name : PyStr} (h : textOf data name = some text) :
    text ≠ [] := by
  obtain ⟨json, -, hjson⟩ := Option.bind_eq_some_iff.mp h
  exact Json.text_ne_nil hjson

theorem lookup_of_textOf {data : List (PyStr × Json)} {name : PyStr}
    (h : textOf data name = some text) : data.lookup name = some (.str text) := by
  obtain ⟨json, hlookup, hjson⟩ := Option.bind_eq_some_iff.mp h
  cases json with
  | str t =>
    rw [Json.text, Option.ite_none_left_eq_some, Option.some.injEq] at hjson
    rw [hlookup, hjson.2]
  | _ => cases hjson

/-- Fields that pass every check come to writing the expiration. -/
theorem checkedCreds_of_fields (py : Python) {data : List (PyStr × Json)} {a s t e : PyStr}
    {time : ℤ} (ha : textOf data (lit "AccessKeyId") = some a)
    (hs : textOf data (lit "SecretAccessKey") = some s)
    (ht : textOf data (lit "SessionToken") = some t)
    (he : textOf data (lit "Expiration") = some e) (htime : parseExpiration e = some time) :
    checkedCreds py data =
      (servedExpiration py.padsYear time).map fun served => .ok ⟨a, s, t, served⟩ := by
  have htruthy : ((data.lookup (lit "SessionToken")).any Json.truthy) = true := by
    rw [lookup_of_textOf ht, Option.any_some, Json.truthy]
    simpa using textOf_ne_nil ht
  unfold textOf at ha hs ht he
  unfold checkedCreds
  dsimp only
  rw [if_neg (by simp [htruthy]), ha, hs, ht, he]
  simp only [htime]

theorem exported_checkedCreds {stdout : PyStr} {data : List (PyStr × Json)}
    (hloads : py.loads stdout = .value (.dict data)) :
    Exported py stdout (checkedCreds py data) ↔ ExpirationWritable py data := by
  constructor
  · rintro ⟨r, hr, hcreds⟩ e time ha hs ht he htime
    obtain ⟨a, ha⟩ := Option.isSome_iff_exists.mp ha
    obtain ⟨s, hs⟩ := Option.isSome_iff_exists.mp hs
    obtain ⟨t, ht⟩ := Option.isSome_iff_exists.mp ht
    rw [checkedCreds_of_fields py ha hs ht he htime] at hr
    obtain ⟨served, hserved, rfl⟩ := Option.map_eq_some_iff.mp hr
    obtain ⟨-, -, -, -, data', e', -, -, -, hparse⟩ := hcreds _ rfl
    exact writable_of_parse hserved hparse
  · intro hwritable
    rcases checkedCreds_cases py data with ⟨e, he⟩ | ⟨a, s, t, e, time, ha, hs, ht, he, htime, hchecked⟩
    · exact ⟨_, he, by simp⟩
    obtain ⟨served, hserved, hparse⟩ := parse_served
      (hwritable e time (by simp [ha]) (by simp [hs]) (by simp [ht]) he htime)
    refine ⟨.ok ⟨a, s, t, served⟩, by rw [hchecked, hserved]; rfl, fun creds hcreds => ?_⟩
    cases hcreds
    rw [parse_denotes htime] at hparse
    refine ⟨textOf_ne_nil ha, textOf_ne_nil hs, textOf_ne_nil ht, ?_, data, e, hloads,
      lookup_of_textOf he, ?_, hparse⟩
    · rintro rfl
      revert hparse
      have hnil : parseExpiration [] = none := by decide
      simp [hnil]
    · rw [← parse_denotes hparse, Int.mul_ediv_cancel _ (by decide)]

/-- **Exporting.**  When `aws` ran to its end, `export_credentials` returns, and what it
returns denotes what the CLI printed, if and only if `json.loads` raises nothing that it
does not catch and the expiration can be written. -/
theorem exportCredentials_iff (py : Python) (code : ℤ) (stdout stderr : PyStr) :
    Exported py stdout (exportCredentials py (.exited code stdout stderr)) ↔
      (code = 0 → py.loads stdout ≠ .raised ∧
        ∀ data, py.loads stdout = .value (.dict data) → ExpirationWritable py data) := by
  by_cases hcode : code = 0
  · subst hcode
    simp only [exportCredentials, ne_eq, not_true_eq_false, if_false, true_imp_iff]
    cases hloads : py.loads stdout with
    | raised => simp [Exported]
    | notJson message => simp [Exported]
    | value json =>
      cases json with
      | dict data =>
        rw [exported_checkedCreds hloads]
        simp
      | _ => simp [Exported]
  · simp [exportCredentials, hcode, Exported]

/-- What the CLI prints for credentials that expire with the year 1 in a zone east of UTC. -/
def earlyOutput : PyStr :=
  lit "\x7b\"AccessKeyId\": \"A\", \"SecretAccessKey\": \"S\", \"SessionToken\": \"T\", \"Expiration\": \"0001-01-01T00:00:00+01:00\"\x7d"

def earlyFields : List (PyStr × Json) :=
  [(lit "AccessKeyId", .str (lit "A")), (lit "SecretAccessKey", .str (lit "S")),
    (lit "SessionToken", .str (lit "T")),
    (lit "Expiration", .str (lit "0001-01-01T00:00:00+01:00"))]

/-- A parser of that output. -/
def earlyPython : Python where
  loads := fun stdout => if stdout = earlyOutput then .value (.dict earlyFields) else .notJson []
  padsYear := true

theorem exportCredentials_raises :
    exportCredentials earlyPython (.exited 0 earlyOutput []) = none ∧
      ¬ Exported earlyPython earlyOutput
        (exportCredentials earlyPython (.exited 0 earlyOutput [])) := by
  have hloads : earlyPython.loads earlyOutput = .value (.dict earlyFields) := by
    simp [earlyPython]
  have htime : parseExpiration (lit "0001-01-01T00:00:00+01:00") = some (-62135600400000000) := by
    decide +kernel
  have hserved : servedExpiration true (-62135600400000000) = none := by decide
  have hnone : exportCredentials earlyPython (.exited 0 earlyOutput []) = none := by
    simp only [exportCredentials, hloads]
    rw [checkedCreds_of_fields earlyPython rfl rfl rfl rfl htime]
    simp [earlyPython, hserved]
  refine ⟨hnone, ?_⟩
  rw [hnone]
  rintro ⟨r, hr, -⟩
  cases hr

end Broker
