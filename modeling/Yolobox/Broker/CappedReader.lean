/-
# The cap on a request's head

`CappedReader` of `aws-broker`, over the bytes a client sends.  A call asks the inner
reader for one byte more than is left, so a line that is cut there has passed the limit.
-/
import Yolobox.Lib.Wire

open Wire

namespace Broker

def MAX_REQUEST_HEAD_BYTES : ℕ := 8192

/-! ## Readers -/

/-- The bytes up to the first newline, which counts, or to the end. -/
def firstLine : List Byte → List Byte
  | [] => []
  | byte :: bytes => if byte = 10 then [byte] else byte :: firstLine bytes

/-- What `readline(size)` of a buffered reader returns; a negative size is none. -/
def lineOf (size : ℤ) (bytes : List Byte) : List Byte :=
  if size < 0 then firstLine bytes else (firstLine bytes).take size.toNat

structure CappedReader where
  inner : List Byte                 -- what is still to be read
  remaining : ℤ

/-- The `rfile` that `HealthHandler.setup` leaves. -/
def setup (rfile : List Byte) : CappedReader := ⟨rfile, MAX_REQUEST_HEAD_BYTES⟩

structure RequestHeadTooLarge where
  deriving DecidableEq

/-- What is asked of the inner reader: at most one byte past what is left. -/
def CappedReader.asked (reader : CappedReader) (size : ℤ) : ℤ :=
  if size < 0 ∨ size > reader.remaining + 1 then reader.remaining + 1 else size

def CappedReader.readline (reader : CappedReader) (size : ℤ) :
    Except RequestHeadTooLarge (List Byte) × CappedReader :=
  let line := lineOf (reader.asked size) reader.inner
  let left : CappedReader := ⟨reader.inner.drop line.length, reader.remaining - line.length⟩
  (if left.remaining < 0 then .error ⟨⟩ else .ok line, left)

/-- What calls with these sizes come to; an exception is the last thing. -/
def CappedReader.readlines (reader : CappedReader) : List ℤ → List (Except RequestHeadTooLarge (List Byte))
  | [] => []
  | size :: sizes =>
    match reader.readline size with
    | (.ok line, left) => .ok line :: left.readlines sizes
    | (.error e, _) => [.error e]

/-- What the same calls of the inner reader return. -/
def innerLines (bytes : List Byte) : List ℤ → List (List Byte)
  | [] => []
  | size :: sizes =>
    let line := lineOf size bytes
    line :: innerLines (bytes.drop line.length) sizes

/-! ## One call -/

variable {bytes : List Byte} {size : ℤ} {remaining : ℕ}

theorem length_lineOf (size : ℤ) (bytes : List Byte) :
    (lineOf size bytes).length =
      if size < 0 then (firstLine bytes).length else min size.toNat (firstLine bytes).length := by
  unfold lineOf
  split_ifs
  · rfl
  · rw [List.length_take]

theorem asked_eq (bytes : List Byte) (remaining : ℕ) (size : ℤ) :
    CappedReader.asked ⟨bytes, remaining⟩ size =
      if size < 0 ∨ size > remaining + 1 then (remaining : ℤ) + 1 else size := rfl

/-- A line that fits in what is left is read as without the cap. -/
theorem lineOf_asked (hfits : (lineOf size bytes).length ≤ remaining) :
    lineOf (CappedReader.asked ⟨bytes, remaining⟩ size) bytes = lineOf size bytes := by
  rw [length_lineOf] at hfits
  rw [asked_eq]
  split_ifs with hcut
  · have hline : (firstLine bytes).length ≤ remaining := by
      split_ifs at hfits with hneg
      · exact hfits
      · omega
    have hwhole : lineOf ((remaining : ℤ) + 1) bytes = firstLine bytes := by
      rw [lineOf, if_neg (by omega), List.take_of_length_le (by omega)]
    rw [hwhole, lineOf]
    split_ifs with hneg
    · rfl
    · rw [List.take_of_length_le (by omega)]
  · rfl

/-- A line that does not is cut past what is left. -/
theorem lt_length_lineOf_asked (hover : remaining < (lineOf size bytes).length) :
    remaining < (lineOf (CappedReader.asked ⟨bytes, remaining⟩ size) bytes).length := by
  rw [asked_eq]
  split_ifs with hcut
  · rw [length_lineOf] at hover ⊢
    rw [if_neg (by omega)]
    split_ifs at hover <;> omega
  · exact hover

theorem readline_ok (hfits : (lineOf size bytes).length ≤ remaining) :
    CappedReader.readline ⟨bytes, remaining⟩ size =
      (.ok (lineOf size bytes), ⟨bytes.drop (lineOf size bytes).length,
        ((remaining - (lineOf size bytes).length : ℕ) : ℤ)⟩) := by
  unfold CappedReader.readline
  simp only [lineOf_asked hfits]
  rw [if_neg (by omega), Nat.cast_sub hfits]

theorem readline_error (hover : remaining < (lineOf size bytes).length) :
    (CappedReader.readline ⟨bytes, remaining⟩ size).1 = .error ⟨⟩ := by
  have hlt := lt_length_lineOf_asked hover
  unfold CappedReader.readline
  simp only
  rw [if_pos (by omega)]

/-! ## All calls -/

/-- The bytes of some lines. -/
def total (lines : List (List Byte)) : ℕ := (lines.map List.length).sum

/-- What the calls return. -/
def returned (outcomes : List (Except RequestHeadTooLarge (List Byte))) : List (List Byte) :=
  outcomes.filterMap Except.toOption

theorem total_cons (line : List Byte) (lines : List (List Byte)) :
    total (line :: lines) = line.length + total lines := by
  unfold total
  rw [List.map_cons, List.sum_cons]

/-- The calls of a reader with a limit, beside the lines that the inner reader returns to the
same calls: a call whose line stays within the limit returns that line, the first one whose
line does not raises, and it is the last. -/
structure Capped (limit : ℕ) (lines : List (List Byte))
    (outcomes : List (Except RequestHeadTooLarge (List Byte))) : Prop where
  within : ∀ n line, lines[n]? = some line → total (lines.take (n + 1)) ≤ limit →
    outcomes[n]? = some (.ok line)
  raised : ∀ n, outcomes[n]? = some (.error ⟨⟩) ↔
    n < lines.length ∧ total (lines.take n) ≤ limit ∧ limit < total (lines.take (n + 1))
  last : ∀ n, limit < total (lines.take n) → outcomes[n]? = none
  total_le : total (returned outcomes) ≤ limit

namespace Capped

variable {limit : ℕ} {line : List Byte} {lines : List (List Byte)}
  {outcomes : List (Except RequestHeadTooLarge (List Byte))}

theorem nil (limit : ℕ) : Capped limit [] [] where
  within n line hline := nomatch hline
  raised n := by simp
  last n _ := rfl
  total_le := Nat.zero_le limit

/-- One more call, whose line fits. -/
theorem cons_ok (hfits : line.length ≤ limit) (h : Capped (limit - line.length) lines outcomes) :
    Capped limit (line :: lines) (.ok line :: outcomes) where
  within n other hother hle := by
    cases n with
    | zero =>
      rw [List.getElem?_cons_zero, Option.some.injEq] at hother
      rw [List.getElem?_cons_zero, hother]
    | succ n =>
      rw [List.take_succ_cons, total_cons] at hle
      rw [List.getElem?_cons_succ] at hother ⊢
      exact h.within n other hother (by omega)
  raised n := by
    cases n with
    | zero =>
      rw [List.getElem?_cons_zero, List.take_succ_cons, total_cons]
      have hnil : total (lines.take 0) = 0 := rfl
      constructor
      · rintro ⟨⟩
      · rintro ⟨-, -, hover⟩
        omega
    | succ n =>
      rw [List.getElem?_cons_succ, h.raised n, List.length_cons, List.take_succ_cons,
        List.take_succ_cons, total_cons, total_cons]
      omega
  last n hlt := by
    cases n with
    | zero => exact absurd hlt (Nat.not_lt_zero limit)
    | succ n =>
      rw [List.take_succ_cons, total_cons] at hlt
      rw [List.getElem?_cons_succ]
      exact h.last n (by omega)
  total_le := by
    have hle := h.total_le
    show total (line :: returned outcomes) ≤ limit
    rw [total_cons]
    omega

/-- The call whose line does not. -/
theorem cons_error (hover : limit < line.length) (lines : List (List Byte)) :
    Capped limit (line :: lines) [.error ⟨⟩] where
  within n other _ hle := by
    rw [List.take_succ_cons, total_cons] at hle
    omega
  raised n := by
    cases n with
    | zero =>
      rw [List.take_succ_cons, total_cons]
      have hpos : 0 < (line :: lines).length := Nat.succ_pos lines.length
      have hnil : total ((line :: lines).take 0) ≤ limit := Nat.zero_le limit
      simp only [List.getElem?_cons_zero, true_iff]
      exact ⟨hpos, hnil, by omega⟩
    | succ n =>
      rw [List.take_succ_cons, total_cons]
      constructor
      · rintro ⟨⟩
      · rintro ⟨-, hle, -⟩
        omega
  last n hlt := by
    cases n with
    | zero => exact absurd hlt (Nat.not_lt_zero limit)
    | succ n => rfl
  total_le := Nat.zero_le limit

end Capped

/-- **The cap is the only difference**, for any bytes, limit and sizes. -/
theorem readlines_capped (bytes : List Byte) (limit : ℕ) (sizes : List ℤ) :
    Capped limit (innerLines bytes sizes) (CappedReader.readlines ⟨bytes, limit⟩ sizes) := by
  induction sizes generalizing bytes limit with
  | nil => exact Capped.nil limit
  | cons size sizes ih =>
    rw [innerLines, CappedReader.readlines]
    rcases le_or_gt (lineOf size bytes).length limit with hfits | hover
    · rw [readline_ok hfits]
      exact Capped.cons_ok hfits (ih _ _)
    · have herror := readline_error hover
      generalize CappedReader.readline ⟨bytes, limit⟩ size = call at herror
      obtain ⟨outcome, left⟩ := call
      subst herror
      exact Capped.cons_error hover _

end Broker
