/-
# The records of a listing, written and read

`GUEST_RECORD` makes `find` print a record for each entry, and `list_guest` reads them.
`find` prints a time as the sign and the digits of its seconds, a dot, nine digits of
nanoseconds and a zero; `GUEST_RECORD_RE` takes no sign and at most eleven digits.
-/
import Yolobox.BytePaths
import Yolobox.Cp.Listing

open Utf8 Posix BytePaths

namespace Cp

/-! ## What `find` prints -/

/-- An entry of the guest's tree, as `find` meets it. -/
structure Found where
  kind : ℕ                      -- the type letter
  mode : ℕ                      -- the permission bits
  seconds : ℤ                   -- since 1970, rounded down
  nanos : ℕ
  path : List Byte

structure Found.Valid (e : Found) : Prop where
  kind : isLetter e.kind = true
  mode : e.mode < 8 ^ 4
  nanos : e.nanos < 10 ^ 9
  nul : 0 ∉ e.path

/-- `%m` -/
def octalText (mode : ℕ) : PyStr :=
  if mode = 0 then [48] else (Nat.digits 8 mode).reverse.map (· + 48)

/-- A number in decimal, with zeros before it. -/
def padded (width n : ℕ) : PyStr := List.replicate (width - (dec n).length) 48 ++ dec n

/-- `%T@` -/
def timeText (seconds : ℤ) (nanos : ℕ) : PyStr :=
  (if seconds < 0 then [45] else []) ++ dec seconds.natAbs ++ 46 :: (padded 9 nanos ++ [48])

/-- `GUEST_RECORD`, up to its NUL. -/
def Found.record (e : Found) : List Byte :=
  ascii (e.kind :: 9 :: (octalText e.mode ++ 9 :: (timeText e.seconds e.nanos ++ [9]))) ++ e.path

def printed (records : List Found) : List Byte := records.flatMap fun e => e.record ++ [0]

/-- The entry that a record stands for. -/
def Found.entry (e : Found) : GuestEntry :=
  ⟨e.kind, e.mode, toDouble (e.seconds + e.nanos / 10 ^ 9), decode e.path⟩

/-- The entry lies under a start, or is one where those are listed. -/
def Found.Under (e : Found) (starts : List (List Byte)) (listsStarts : Bool) : Prop :=
  (∃ start ∈ starts, ∃ rest, rest ≠ [] ∧ (∀ n ∈ rest, IsFileName n) ∧ e.path = start ++ spell rest) ∨
    (listsStarts = true ∧ e.path ∈ starts)

/-- `find` in the guest prints `stdout` and succeeds. -/
def answering (stdout : List Byte) : (c : Cmd) → Unit → Option (Answer c) × Unit
  | .find _ _, _ => (some (0, stdout), ())
  | .scp _ _, _ | .makedirs _ _, _ | .utime _ _, _ | .err _, _ => (some (), ())

/-! ## The fields -/

theorem octalText_digits {mode c : ℕ} (h : c ∈ octalText mode) : 48 ≤ c ∧ c ≤ 55 := by
  unfold octalText at h
  split_ifs at h with hzero
  · rw [List.mem_singleton.mp h]
    omega
  · rw [List.mem_map] at h
    obtain ⟨d, hd, rfl⟩ := h
    have hlt := Nat.digits_lt_base (by norm_num) (List.mem_reverse.mp hd)
    omega

theorem octal_octalText (mode : ℕ) : octal (octalText mode) = mode := by
  unfold octalText
  split_ifs with hzero
  · subst hzero
    rfl
  · rw [octal, ← List.map_reverse, List.reverse_reverse, List.map_map]
    have hid : ((· - 48) ∘ (· + 48) : ℕ → ℕ) = id := by
      funext c
      simp
    rw [hid, List.map_id, Nat.ofDigits_digits]

theorem isModeText_octalText {mode : ℕ} (h : mode < 8 ^ 4) : isModeText (octalText mode) = true := by
  have hdigits : (octalText mode).all (fun c => 48 ≤ c && c ≤ 55) = true := by
    rw [List.all_eq_true]
    intro c hc
    have hrange := octalText_digits hc
    simp
    omega
  have hlength : (octalText mode).length ≤ 6 ∧ octalText mode ≠ [] := by
    unfold octalText
    split_ifs with hzero
    · exact ⟨by simp, by simp⟩
    · have hdig : (Nat.digits 8 mode).length ≤ 4 := by
        rw [Nat.digits_length_le_iff (by norm_num)]
        exact h
      constructor
      · rw [List.length_map, List.length_reverse]
        omega
      · simp [Nat.digits_eq_nil_iff_eq_zero, hzero]
  simp only [isModeText, Bool.and_eq_true, decide_eq_true_eq]
  exact ⟨⟨by simp [hlength.2], hlength.1⟩, hdigits⟩

theorem padded_digits {width n c : ℕ} (h : c ∈ padded width n) : isDigit c = true := by
  rcases List.mem_append.mp h with h | h
  · rw [(List.mem_replicate.mp h).2]
    rfl
  · exact isDigit_of_mem_dec h

theorem num_append_digit (text : PyStr) (c : ℕ) : num (text ++ [c]) = 10 * num text + (c - 48) := by
  rw [num, List.reverse_append, List.reverse_singleton, List.singleton_append, List.map_cons,
    Nat.ofDigits_cons, num]
  omega

theorem num_zeros_append (k : ℕ) (text : PyStr) : num (List.replicate k 48 ++ text) = num text := by
  rw [num, List.reverse_append, List.map_append, Nat.ofDigits_append, List.reverse_replicate,
    List.map_replicate, Nat.ofDigits_replicate_zero, num]
  rfl

theorem num_padded (width n : ℕ) : num (padded width n) = n := by
  rw [padded, num_zeros_append, num_dec]

theorem length_padded {n width : ℕ} (hpos : 0 < width) (h : n < 10 ^ width) :
    (padded width n).length = width := by
  have hle := (length_dec_le_iff hpos).mpr h
  rw [padded, List.length_append, List.length_replicate]
  omega

/-- The digits before a dot are the seconds. -/
theorem cut_digits {digits : PyStr} (h : ∀ c ∈ digits, isDigit c = true) (rest : PyStr) :
    (digits ++ 46 :: rest).takeWhile isDigit = digits ∧
      (digits ++ 46 :: rest).dropWhile isDigit = 46 :: rest := by
  constructor
  · rw [List.takeWhile_append_of_pos h, List.takeWhile_cons_of_neg (by decide), List.append_nil]
  · rw [List.dropWhile_append_of_pos h, List.dropWhile_cons_of_neg (by decide)]

theorem timeText_of_nonneg {seconds : ℤ} (h : 0 ≤ seconds) (nanos : ℕ) :
    timeText seconds nanos = dec seconds.natAbs ++ 46 :: (padded 9 nanos ++ [48]) := by
  rw [timeText, if_neg (by omega), List.nil_append]

/-- **The times that are read.**  From 1970 on, and at most eleven digits of seconds. -/
theorem isTimeText_timeText {seconds : ℤ} {nanos : ℕ} :
    isTimeText (timeText seconds nanos) = true ↔ 0 ≤ seconds ∧ seconds < 10 ^ 11 := by
  by_cases hsign : seconds < 0
  · -- the sign is no digit
    have htext : isTimeText (timeText seconds nanos) = false := by
      simp [isTimeText, timeText, hsign, isDigit]
    rw [htext]
    exact iff_of_false Bool.false_ne_true (by omega)
  · have hnonneg : 0 ≤ seconds := by omega
    have hdigits : ∀ c ∈ dec seconds.natAbs, isDigit c = true := fun c hc => isDigit_of_mem_dec hc
    obtain ⟨htake, hdrop⟩ := cut_digits hdigits (padded 9 nanos ++ [48])
    have hfraction : (padded 9 nanos ++ [48]).all isDigit = true := by
      rw [List.all_append, Bool.and_eq_true, List.all_eq_true]
      exact ⟨fun c hc => padded_digits hc, rfl⟩
    have hseconds : (dec seconds.natAbs).isEmpty = false := List.isEmpty_eq_false_iff.mpr (dec_ne_nil _)
    have hsome : (padded 9 nanos ++ [48]).isEmpty = false := by simp
    rw [timeText_of_nonneg hnonneg, isTimeText, htake, hdrop]
    simp only [hseconds, hsome, hfraction, Bool.not_false, Bool.true_and, beq_self_eq_true,
      Bool.and_true, decide_eq_true_eq, length_dec_le_iff (show 0 < 11 by norm_num)]
    omega

/-- A time that is read is the double nearest to it. -/
theorem float_timeText {seconds : ℤ} {nanos : ℕ} (hnonneg : 0 ≤ seconds) (hnanos : nanos < 10 ^ 9) :
    float (timeText seconds nanos) = toDouble (seconds + nanos / 10 ^ 9) := by
  have hdigits : ∀ c ∈ dec seconds.natAbs, isDigit c = true := fun c hc => isDigit_of_mem_dec hc
  obtain ⟨htake, hdrop⟩ := cut_digits hdigits (padded 9 nanos ++ [48])
  have hwhole : ((seconds.natAbs : ℕ) : ℚ) = (seconds : ℚ) := by
    rw [Nat.cast_natAbs, abs_of_nonneg hnonneg]
  have hlength : (padded 9 nanos ++ [48]).length = 10 := by
    rw [List.length_append, length_padded (by norm_num) hnanos, List.length_singleton]
  have hnum : num (padded 9 nanos ++ [48]) = 10 * nanos := by
    rw [num_append_digit, num_padded]
    omega
  rw [timeText_of_nonneg hnonneg, float, htake, hdrop, List.tail_cons]
  simp only [hlength, hnum, num_dec, hwhole]
  congr 1
  push_cast
  ring

/-! ## One record -/

theorem cutTab_append {field : PyStr} (h : 9 ∉ field) (rest : PyStr) :
    cutTab (field ++ 9 :: rest) = some (field, rest) := by
  have hall : ∀ c ∈ field, (c != 9) = true := by
    intro c hc
    rw [bne_iff_ne]
    exact fun h9 => h (h9 ▸ hc)
  rw [cutTab, List.dropWhile_append_of_pos hall, List.takeWhile_append_of_pos hall,
    List.dropWhile_cons_of_neg (by decide), List.takeWhile_cons_of_neg (by decide), List.append_nil]

/-- A time is spelled with digits, a dot and a sign. -/
theorem timeText_ascii {seconds : ℤ} {nanos c : ℕ} (h : c ∈ timeText seconds nanos) :
    c ≠ 0 ∧ c ≠ 9 ∧ c < 0x80 := by
  have hdigit : ∀ d, isDigit d = true → d ≠ 0 ∧ d ≠ 9 ∧ d < 0x80 := by
    intro d hd
    simp only [isDigit, Bool.and_eq_true, decide_eq_true_eq] at hd
    omega
  unfold timeText at h
  rcases List.mem_append.mp h with h | h
  · rcases List.mem_append.mp h with h | h
    · split_ifs at h
      · rw [List.mem_singleton.mp h]
        decide
      · exact absurd h List.not_mem_nil
    · exact hdigit c (isDigit_of_mem_dec h)
  · rcases List.mem_cons.mp h with rfl | h
    · decide
    · rcases List.mem_append.mp h with h | h
      · exact hdigit c (padded_digits h)
      · rw [List.mem_singleton.mp h]
        decide

theorem octalText_ascii {mode c : ℕ} (h : c ∈ octalText mode) : c ≠ 9 ∧ c < 0x80 := by
  have hrange := octalText_digits h
  omega

theorem isLetter_ascii {c : ℕ} (h : isLetter c = true) : c ≠ 9 ∧ c < 0x80 := by
  simp only [isLetter, Bool.or_eq_true, Bool.and_eq_true, decide_eq_true_eq] at h
  omega

section
variable {e : Found}

/-- The text of a record. -/
theorem decode_record (h : e.Valid) :
    decode e.record = [e.kind] ++ 9 :: (octalText e.mode ++ 9 ::
      (timeText e.seconds e.nanos ++ 9 :: decode e.path)) := by
  have hascii : ∀ c ∈ e.kind :: 9 :: (octalText e.mode ++ 9 :: (timeText e.seconds e.nanos ++ [9])),
      c < 0x80 := by
    intro c hc
    simp only [List.mem_cons, List.mem_append, List.not_mem_nil, or_false] at hc
    rcases hc with rfl | rfl | hc | rfl | hc | rfl
    · exact (isLetter_ascii h.kind).2
    · decide
    · exact (octalText_ascii hc).2
    · decide
    · exact (timeText_ascii hc).2.2
    · decide
  rw [Found.record, decode_ascii_append hascii]
  simp

theorem matchRecord_record (h : e.Valid) (hpath : e.path ≠ []) :
    matchRecord (decode e.record) =
      if isTimeText (timeText e.seconds e.nanos) then
        some (e.kind, octalText e.mode, timeText e.seconds e.nanos, decode e.path)
      else none := by
  have hkind : 9 ∉ [e.kind] := fun hmem =>
    (isLetter_ascii h.kind).1 (List.mem_singleton.mp hmem).symm
  have hmode : 9 ∉ octalText e.mode := fun hmem => (octalText_ascii hmem).1 rfl
  have htime : 9 ∉ timeText e.seconds e.nanos := fun hmem => (timeText_ascii hmem).2.1 rfl
  have hdecoded : (decode e.path).isEmpty = false := by
    rw [List.isEmpty_eq_false_iff]
    exact fun hnil => hpath (decode_injective hnil)
  rw [decode_record h, matchRecord, cutTab_append hkind]
  simp only [cutTab_append hmode, cutTab_append htime, h.kind, isModeText_octalText h.mode, hdecoded,
    Bool.true_and, Bool.not_false, Bool.and_true]

variable {starts : List (List Byte)} {listsStarts : Bool}

theorem Found.Under.clean (hstarts : ∀ start ∈ starts, CleanBytes start)
    (h : e.Under starts listsStarts) : CleanBytes e.path := by
  rcases h with ⟨start, hmem, rest, -, hrest, hpath⟩ | ⟨-, hmem⟩
  · obtain ⟨ns, hne, hns, rfl⟩ := hstarts start hmem
    refine ⟨ns ++ rest, by simp [hne], ?_, by rw [hpath, spell_append]⟩
    rw [List.forall_mem_append]
    exact ⟨hns, hrest⟩
  · exact hstarts e.path hmem

/-- The check of the path passes. -/
theorem Found.Under.accepted (h : e.Under starts listsStarts) :
    ((starts.map decode).any (fun start => startswith (decode e.path) (start ++ [47]))
      || (listsStarts && decide (decode e.path ∈ starts.map decode))) = true := by
  rw [Bool.or_eq_true]
  rcases h with ⟨start, hmem, rest, hne, hrest, hpath⟩ | ⟨hlists, hmem⟩
  · refine .inl (List.any_eq_true.mpr ⟨decode start, List.mem_map_of_mem hmem, ?_⟩)
    refine Below.startswith ⟨rest.map decode, by simpa using hne, forall_isName_decode hrest, ?_⟩
    rw [hpath, decode_append_spell]
  · rw [hlists, Bool.true_and, decide_eq_true_eq]
    exact .inr (List.mem_map_of_mem hmem)

/-- **A record is read back**, or refused for its time. -/
theorem parseGuestRecord_record (h : e.Valid) (hstarts : ∀ start ∈ starts, CleanBytes start)
    (hunder : e.Under starts listsStarts) :
    parseGuestRecord e.record (starts.map decode) listsStarts =
      if 0 ≤ e.seconds ∧ e.seconds < 10 ^ 11 then .ok e.entry
      else .error (.malformedRecord (decode e.record)) := by
  have hclean := hunder.clean hstarts
  have hpath : e.path ≠ [] := by
    rintro hnil
    exact hclean.decode.ne_nil (by rw [hnil, decode_nil])
  rw [parseGuestRecord, matchRecord_record h hpath]
  by_cases htime : 0 ≤ e.seconds ∧ e.seconds < 10 ^ 11
  · rw [if_pos htime, if_pos (isTimeText_timeText.mpr htime)]
    simp only [hclean.decode.normpath_eq, beq_self_eq_true, hunder.accepted, Bool.and_true, if_true,
      octal_octalText, float_timeText htime.1 h.nanos]
    rfl
  · rw [if_neg htime, if_neg (fun hread => htime (isTimeText_timeText.mp hread))]

end

/-! ## All records -/

/-- Cutting at NUL gives the records, and nothing after the last one. -/
theorem splitOn_printed {records : List Found} (h : ∀ e ∈ records, 0 ∉ e.record) :
    (printed records).splitOn 0 = records.map Found.record ++ [[]] := by
  induction records with
  | nil => rfl
  | cons e records ih =>
    rw [List.forall_mem_cons] at h
    have hcut : printed (e :: records) = e.record ++ 0 :: printed records := by simp [printed]
    rw [hcut, List.splitOn_append_cons_self_of_not_mem h.1, ih h.2]
    rfl

theorem Found.Valid.nul_not_mem {e : Found} (h : e.Valid) : 0 ∉ e.record := by
  have hzero := ascii_mem_decode (k := 0) (by decide) e.record
  show Fin.ofNat 256 0 ∉ e.record
  rw [← hzero, decode_record h]
  simp only [List.mem_append, List.mem_cons, List.not_mem_nil, or_false, not_or]
  have hkind : 0 ≠ e.kind := by
    intro hk
    have hletter := h.kind
    rw [← hk] at hletter
    exact absurd hletter (by decide)
  refine ⟨hkind, by decide, fun hc => ?_, by decide, fun hc => ?_, by decide, ?_⟩
  · have hrange := octalText_digits hc
    omega
  · exact (timeText_ascii hc).1 rfl
  · rw [ascii_mem_decode (by decide)]
    exact h.nul

/-- What one more entry does to a dict whose entries are told apart by their paths. -/
theorem setdefault_ok {entries : List GuestEntry} {entry : GuestEntry}
    (hpaths : (entries.map GuestEntry.path).Nodup)
    (hsame : ∀ e ∈ entries, e.path = entry.path → e = entry) :
    ∃ entries', setdefault entries entry = .ok entries' ∧
      (entries'.map GuestEntry.path).Nodup ∧ ∀ e, e ∈ entries' ↔ e ∈ entries ∨ e = entry := by
  unfold setdefault
  cases hfind : entries.find? fun e => e.path == entry.path with
  | none =>
    refine ⟨entries ++ [entry], rfl, ?_, by simp⟩
    rw [List.map_append, List.map_singleton, List.nodup_append_comm, List.singleton_append,
      List.nodup_cons]
    refine ⟨fun hmem => ?_, hpaths⟩
    obtain ⟨e, he, hpath⟩ := List.mem_map.mp hmem
    have hno := List.find?_eq_none.mp hfind e he
    simp [hpath] at hno
  | some first =>
    have hmem := List.mem_of_find?_eq_some hfind
    have hpath := List.find?_some hfind
    rw [beq_iff_eq] at hpath
    have hfirst := hsame first hmem hpath
    refine ⟨entries, by simp [hfirst], hpaths, fun e => ⟨.inl, ?_⟩⟩
    rintro (he | rfl)
    · exact he
    · exact hfirst ▸ hmem

section
variable {starts : List (List Byte)} {listsStarts : Bool} {found : List Found}

/-- The loop over the records of plain times. -/
theorem readRecords_records (hstarts : ∀ start ∈ starts, CleanBytes start)
    (hinj : ∀ e ∈ found, ∀ e' ∈ found, e.path = e'.path → e = e') {records : List Found}
    (hrecords : ∀ e ∈ records, e ∈ found ∧ e.Valid ∧ e.Under starts listsStarts ∧
      0 ≤ e.seconds ∧ e.seconds < 10 ^ 11)
    {entries : List GuestEntry} (hentries : ∀ e ∈ entries, e ∈ found.map Found.entry)
    (hpaths : (entries.map GuestEntry.path).Nodup) :
    ∃ entries', readRecords (starts.map decode) listsStarts (records.map Found.record ++ [[]]) entries
        = .ok entries' ∧
      (entries'.map GuestEntry.path).Nodup ∧
      ∀ e, e ∈ entries' ↔ e ∈ entries ∨ e ∈ records.map Found.entry := by
  induction records generalizing entries with
  | nil => exact ⟨entries, rfl, hpaths, by simp⟩
  | cons r records ih =>
    rw [List.forall_mem_cons] at hrecords
    obtain ⟨⟨hfound, hvalid, hunder, htime⟩, hrest⟩ := hrecords
    have hsame : ∀ e ∈ entries, e.path = r.entry.path → e = r.entry := by
      intro e he hpath
      obtain ⟨e', he', rfl⟩ := List.mem_map.mp (hentries e he)
      rw [hinj e' he' r hfound (decode_injective hpath)]
    obtain ⟨entries₁, hset, hpaths₁, hmem₁⟩ := setdefault_ok hpaths hsame
    have hentries₁ : ∀ e ∈ entries₁, e ∈ found.map Found.entry := by
      intro e he
      rcases (hmem₁ e).mp he with he | rfl
      · exact hentries e he
      · exact List.mem_map_of_mem hfound
    obtain ⟨entries₂, hread, hpaths₂, hmem₂⟩ := ih hrest hentries₁ hpaths₁
    refine ⟨entries₂, ?_, hpaths₂, fun e => ?_⟩
    · have hne : r.record ≠ [] := by simp [Found.record, ascii]
      rw [List.map_cons, List.cons_append, readRecords, if_neg hne,
        parseGuestRecord_record hvalid hstarts hunder, if_pos htime]
      simp only [hset, hread]
    · rw [hmem₂, hmem₁, List.map_cons, List.mem_cons, or_assoc]

/-- A dict comes of records that are each accepted. -/
theorem parses_of_readRecords {texts : List PyStr} {records : List (List Byte)}
    {entries entries' : List GuestEntry}
    (h : readRecords texts listsStarts records entries = .ok entries') {record : List Byte}
    (hmem : record ∈ records) (hne : record ≠ []) :
    ∃ entry, parseGuestRecord record texts listsStarts = .ok entry := by
  induction records generalizing entries with
  | nil => exact absurd hmem List.not_mem_nil
  | cons r records ih =>
    unfold readRecords at h
    split_ifs at h with hempty
    · rcases List.mem_cons.mp hmem with rfl | hmem
      · exact absurd hempty hne
      · exact ih h hmem
    · cases hparse : parseGuestRecord r texts listsStarts with
      | error refusal => simp [hparse] at h
      | ok entry =>
        cases hset : setdefault entries entry with
        | error refusal => simp [hparse, hset] at h
        | ok entries₁ =>
          simp only [hparse, hset] at h
          rcases List.mem_cons.mp hmem with rfl | hmem
          · exact ⟨entry, hparse⟩
          · exact ih h hmem

/-- **A listing is read back**, in whatever order it is printed and however often, exactly
where no entry was last changed before 1970 or a hundred billion seconds after. -/
theorem listGuest_iff {records : List Found} {tests : List PyStr}
    (hstarts : ∀ start ∈ starts, CleanBytes start)
    (hfound : ∀ e ∈ found, e.Valid ∧ e.Under starts listsStarts)
    (hinj : ∀ e ∈ found, ∀ e' ∈ found, e.path = e'.path → e = e')
    (hrecords : ∀ e, e ∈ records ↔ e ∈ found) :
    (∃ entries, (listGuest (starts.map decode) tests listsStarts).interp (answering (printed records)) ()
        = (.ok entries, ()) ∧
      (entries.map GuestEntry.path).Nodup ∧ ∀ e, e ∈ entries ↔ e ∈ found.map Found.entry)
      ↔ ∀ e ∈ found, 0 ≤ e.seconds ∧ e.seconds < 10 ^ 11 := by
  have hvalid : ∀ e ∈ records, e.Valid ∧ e.Under starts listsStarts := fun e he =>
    hfound e ((hrecords e).mp he)
  have hrun : (listGuest (starts.map decode) tests listsStarts).interp (answering (printed records)) ()
      = ((readRecords (starts.map decode) listsStarts (records.map Found.record ++ [[]]) []).mapError
          Raised.yoError, ()) := by
    show (checked (readRecords (starts.map decode) listsStarts ((printed records).splitOn 0) [])).interp
      (answering (printed records)) () = _
    rw [splitOn_printed fun e he => (hvalid e he).1.nul_not_mem]
    cases readRecords (starts.map decode) listsStarts (records.map Found.record ++ [[]]) [] <;> rfl
  rw [hrun]
  constructor
  · rintro ⟨entries, hread, -, -⟩ e he
    have hmem := (hrecords e).mpr he
    obtain ⟨hev, heu⟩ := hvalid e hmem
    cases hok : readRecords (starts.map decode) listsStarts (records.map Found.record ++ [[]]) [] with
    | error refusal => simp [hok, Except.mapError] at hread
    | ok entries' =>
      have hin : e.record ∈ records.map Found.record ++ [[]] :=
        List.mem_append_left _ (List.mem_map_of_mem hmem)
      obtain ⟨entry, hparse⟩ := parses_of_readRecords hok hin (by simp [Found.record, ascii])
      rw [parseGuestRecord_record hev hstarts heu] at hparse
      by_contra htime
      rw [if_neg htime] at hparse
      cases hparse
  · intro htimes
    have htimed : ∀ e ∈ records, e ∈ found ∧ e.Valid ∧ e.Under starts listsStarts ∧
        0 ≤ e.seconds ∧ e.seconds < 10 ^ 11 := by
      intro e he
      have hmem := (hrecords e).mp he
      exact ⟨hmem, (hvalid e he).1, (hvalid e he).2, htimes e hmem⟩
    have hnone : ∀ e ∈ ([] : List GuestEntry), e ∈ found.map Found.entry := by simp
    obtain ⟨entries, hread, hpaths, hmem⟩ := readRecords_records hstarts hinj htimed hnone List.nodup_nil
    refine ⟨entries, by rw [hread]; rfl, hpaths, fun e => ?_⟩
    rw [hmem, List.mem_map, List.mem_map]
    simp only [List.not_mem_nil, false_or, hrecords]

end

def sampleStart : List Byte := ascii (lit "/home/agent/p")

/-- `/home/agent/p/a`, a file last changed then. -/
def fileAt (seconds : ℤ) : Found :=
  ⟨102, 0o644, seconds, 500000000, sampleStart ++ spell [ascii (lit "a")]⟩

theorem fileAt_valid (seconds : ℤ) :
    (fileAt seconds).Valid ∧ (fileAt seconds).Under [sampleStart] false := by
  have hpath : 0 ∉ sampleStart ++ spell [ascii (lit "a")] := by decide
  refine ⟨⟨rfl, show 0o644 < 8 ^ 4 by norm_num, show 500000000 < 10 ^ 9 by norm_num, hpath⟩,
    .inl ⟨sampleStart, by simp, ?_⟩⟩
  exact ⟨[ascii (lit "a")], by simp, by simpa using ⟨by decide, by decide, by decide, by decide, by decide⟩, rfl⟩

theorem sampleStart_clean : CleanBytes sampleStart :=
  ⟨[ascii (lit "home"), ascii (lit "agent"), ascii (lit "p")], by simp,
    by simpa using ⟨⟨by decide, by decide, by decide, by decide, by decide⟩,
      ⟨by decide, by decide, by decide, by decide, by decide⟩,
      ⟨by decide, by decide, by decide, by decide, by decide⟩⟩, by decide⟩

/-- A file of the last second of 1969 is refused. -/
theorem listGuest_before1970 :
    CleanBytes sampleStart ∧ ((fileAt (-1)).Valid ∧ (fileAt (-1)).Under [sampleStart] false) ∧
      ¬ ∃ entries, (listGuest [decode sampleStart] [] false).interp
        (answering (printed [fileAt (-1)])) () = (.ok entries, ()) := by
  refine ⟨sampleStart_clean, fileAt_valid _, ?_⟩
  have hrun : (listGuest [decode sampleStart] [] false).interp (answering (printed [fileAt (-1)])) ()
      = (.error (.yoError (.malformedRecord (decode (fileAt (-1)).record))), ()) := by decide +kernel
  rintro ⟨entries, hok⟩
  rw [hrun] at hok
  cases hok

/-- The listing of one file, printed twice. -/
theorem listGuest_iff_sample :
    (∃ entries, (listGuest [decode sampleStart] [] false).interp
        (answering (printed [fileAt 1700000000, fileAt 1700000000])) () = (.ok entries, ()) ∧
      (entries.map GuestEntry.path).Nodup ∧ ∀ e, e ∈ entries ↔ e ∈ [fileAt 1700000000].map Found.entry)
      ↔ ∀ e ∈ [fileAt 1700000000], 0 ≤ e.seconds ∧ e.seconds < 10 ^ 11 := by
  have hstarts : ∀ start ∈ [sampleStart], CleanBytes start := by simpa using sampleStart_clean
  have hfound : ∀ e ∈ [fileAt 1700000000], e.Valid ∧ e.Under [sampleStart] false := by
    simpa using fileAt_valid _
  exact listGuest_iff hstarts hfound (by simp) (by simp)

end Cp
