/-
# Length-prefixed fields

A field is its length in four bytes, big-endian, and then the bytes themselves.  A stream
hands its bytes over in pieces, and a reader that asks for `count` of them gets a part of
the next piece (`Stream.bytes_of_recv`).
-/
import Yolobox.Lib.Utf8

namespace Wire

abbrev Byte := Fin 256

/-! ## Words of 32 bits -/

/-- A number below `2 ^ 32` in four bytes, the highest first. -/
def u32 (n : ℕ) : List Byte := [n / 2 ^ 24, n / 2 ^ 16, n / 2 ^ 8, n].map (Fin.ofNat 256)

/-- The number that bytes spell, the highest first. -/
def ofBytes (bytes : List Byte) : ℕ := bytes.foldl (fun n b => n * 256 + b.val) 0

@[simp] theorem length_u32 (n : ℕ) : (u32 n).length = 4 := rfl

theorem ofBytes_u32 {n : ℕ} (h : n < 2 ^ 32) : ofBytes (u32 n) = n := by
  simp only [ofBytes, u32, List.map_cons, List.map_nil, List.foldl_cons, List.foldl_nil,
    Fin.val_ofNat]
  omega

theorem exists_four {bytes : List Byte} (h : bytes.length = 4) : ∃ a b c d, bytes = [a, b, c, d] := by
  obtain ⟨a, b, c, d, rfl⟩ := List.length_eq_four.mp h
  exact ⟨a, b, c, d, rfl⟩

theorem ofBytes_lt {bytes : List Byte} (h : bytes.length = 4) : ofBytes bytes < 2 ^ 32 := by
  obtain ⟨a, b, c, d, rfl⟩ := exists_four h
  simp only [ofBytes, List.foldl_cons, List.foldl_nil]
  omega

/-- **Four bytes are the word they spell.** -/
theorem u32_ofBytes {bytes : List Byte} (h : bytes.length = 4) : u32 (ofBytes bytes) = bytes := by
  obtain ⟨a, b, c, d, rfl⟩ := exists_four h
  have ha := a.isLt
  have hb := b.isLt
  have hc := c.isLt
  have hd := d.isLt
  simp only [u32, ofBytes, List.map_cons, List.map_nil, List.foldl_cons, List.foldl_nil,
    List.cons.injEq, Fin.ext_iff, Fin.val_ofNat, and_true]
  omega

/-! ## Fields -/

/-- A field of a message. -/
def field (data : List Byte) : List Byte := u32 data.length ++ data

@[simp] theorem length_field (data : List Byte) : (field data).length = 4 + data.length := by
  simp [field]

/-! ## Streams -/

/-- The bytes that are on their way, in the pieces they arrive in, and what comes after
them: the end of the stream, or a failure. -/
structure Stream (ε : Type) where
  pieces : List (List Byte)
  failure : Option ε

variable {ε : Type}

def Stream.bytes (s : Stream ε) : List Byte := s.pieces.flatten

/-- At most `count` bytes of the next piece; none at the end of the stream. -/
def Stream.recv (count : ℕ) (s : Stream ε) : Except ε (List Byte × Stream ε) :=
  match s.pieces with
  | [] => match s.failure with
    | none => .ok ([], s)
    | some e => .error e
  | piece :: pieces =>
    if piece.length ≤ count then .ok (piece, { s with pieces := pieces })
    else .ok (piece.take count, { s with pieces := piece.drop count :: pieces })

variable {s t : Stream ε} {count : ℕ} {chunk : List Byte}

/-- What is received goes from the stream. -/
theorem Stream.bytes_of_recv (h : s.recv count = .ok (chunk, t)) : s.bytes = chunk ++ t.bytes := by
  unfold recv at h
  split at h
  · rename_i hpieces
    split at h
    · obtain ⟨rfl, rfl⟩ := Prod.mk.inj (Except.ok.inj h)
      rfl
    · cases h
  · rename_i piece pieces hpieces
    split_ifs at h
    · obtain ⟨rfl, rfl⟩ := Prod.mk.inj (Except.ok.inj h)
      rw [bytes, hpieces, List.flatten_cons]
      rfl
    · obtain ⟨rfl, rfl⟩ := Prod.mk.inj (Except.ok.inj h)
      rw [bytes, bytes, hpieces, List.flatten_cons, List.flatten_cons, ← List.append_assoc,
        List.take_append_drop]

theorem Stream.length_of_recv (h : s.recv count = .ok (chunk, t)) : chunk.length ≤ count := by
  unfold recv at h
  split at h
  · split at h
    · obtain ⟨rfl, -⟩ := Prod.mk.inj (Except.ok.inj h)
      exact Nat.zero_le _
    · cases h
  · split_ifs at h with hle
    · obtain ⟨rfl, -⟩ := Prod.mk.inj (Except.ok.inj h)
      exact hle
    · obtain ⟨rfl, -⟩ := Prod.mk.inj (Except.ok.inj h)
      exact List.length_take_le _ _

/-- No piece is empty: only the end of the stream hands over nothing. -/
def Stream.Live (s : Stream ε) : Prop := ∀ piece ∈ s.pieces, piece ≠ []

/-- While bytes are on their way, some are received. -/
theorem Stream.Live.recv (hlive : s.Live) (hbytes : s.bytes ≠ []) (hcount : 0 < count) :
    ∃ chunk t, s.recv count = .ok (chunk, t) ∧ chunk ≠ [] ∧ t.Live := by
  unfold Stream.recv
  cases hpieces : s.pieces with
  | nil =>
    refine absurd ?_ hbytes
    rw [bytes, hpieces, List.flatten_nil]
  | cons piece pieces =>
    rw [Live, hpieces, List.forall_mem_cons] at hlive
    simp only
    split_ifs with hle
    · exact ⟨_, _, rfl, hlive.1, hlive.2⟩
    · refine ⟨_, _, rfl, ?_, ?_⟩
      · rw [← List.length_pos_iff, List.length_take]
        omega
      · rw [Live, List.forall_mem_cons]
        refine ⟨?_, hlive.2⟩
        rw [← List.length_pos_iff, List.length_drop]
        omega

end Wire
