/-
# UTF-8 with escaped bytes

Texts are lists of code points.  `decode` never fails: a byte that starts no valid
sequence becomes one of the code points `0xDC80` to `0xDCFF`, and `encode` takes
those back to the byte (the error handler `surrogateescape`).  So `encode` undoes
`decode` on every byte string (`encode_decode`).
-/
import Mathlib

namespace Utf8

abbrev Byte := Fin 256

instance instNeZeroByte : NeZero 256 := ⟨by decide⟩

/-! ## Encoding -/

/-- A byte that was escaped. -/
def isEscape (c : ℕ) : Bool := 0xDC80 ≤ c && c ≤ 0xDCFF

/-- A code point that UTF-8 has bytes for. -/
def isScalar (c : ℕ) : Bool := c < 0xD800 || (0xE000 ≤ c && c < 0x110000)

/-- The bytes of one scalar, as numbers. -/
def scalarBytes (c : ℕ) : List ℕ :=
  if c < 0x80 then [c]
  else if c < 0x800 then [0xC0 + c / 64, 0x80 + c % 64]
  else if c < 0x10000 then [0xE0 + c / 4096, 0x80 + c / 64 % 64, 0x80 + c % 64]
  else [0xF0 + c / 262144, 0x80 + c / 4096 % 64, 0x80 + c / 64 % 64, 0x80 + c % 64]

def encodeChar (c : ℕ) : Option (List Byte) :=
  if isScalar c then some ((scalarBytes c).map (Fin.ofNat 256))
  else if isEscape c then some [Fin.ofNat 256 (c - 0xDC00)]
  else none

def encode : List ℕ → Option (List Byte)
  | [] => some []
  | c :: text => (encodeChar c).bind fun bytes => (encode text).map (bytes ++ ·)

/-! ## Decoding -/

def isContinuation (b : Byte) : Bool := 0x80 ≤ b.val && b.val < 0xC0

/-- The scalar of a two-byte sequence that `a` starts, and the number of bytes behind
`a` that it takes. -/
def twoAt (a : Byte) : List Byte → Option (ℕ × ℕ)
  | b :: _ =>
    if 0xC2 ≤ a.val ∧ isContinuation b then
      some ((a.val - 0xC0) * 64 + (b.val - 0x80), 1)
    else none
  | _ => none

def threeValue (a b b' : Byte) : ℕ :=
  (a.val - 0xE0) * 4096 + (b.val - 0x80) * 64 + (b'.val - 0x80)

/-- Three bytes; no shorter spelling and no surrogate. -/
def threeAt (a : Byte) : List Byte → Option (ℕ × ℕ)
  | b :: b' :: _ =>
    if (isContinuation b ∧ isContinuation b') ∧ 0x800 ≤ threeValue a b b' ∧
        isScalar (threeValue a b b') then
      some (threeValue a b b', 2)
    else none
  | _ => none

def fourValue (a b b' b'' : Byte) : ℕ :=
  (a.val - 0xF0) * 262144 + (b.val - 0x80) * 4096 + (b'.val - 0x80) * 64 + (b''.val - 0x80)

/-- Four bytes; no shorter spelling and nothing above `0x10FFFF`. -/
def fourAt (a : Byte) : List Byte → Option (ℕ × ℕ)
  | b :: b' :: b'' :: _ =>
    if (isContinuation b ∧ isContinuation b' ∧ isContinuation b'') ∧
        0x10000 ≤ fourValue a b b' b'' ∧ isScalar (fourValue a b b' b'') then
      some (fourValue a b b' b'', 3)
    else none
  | _ => none

/-- The scalar whose sequence `a` starts, with the number of bytes behind `a`. -/
def scalarAt (a : Byte) (rest : List Byte) : Option (ℕ × ℕ) :=
  if a.val < 0x80 then some (a.val, 0)
  else if a.val < 0xE0 then twoAt a rest
  else if a.val < 0xF0 then threeAt a rest
  else fourAt a rest

/-- Decode, when the next `skip` bytes belong to a scalar that has been read. -/
def decodeFrom : ℕ → List Byte → List ℕ
  | _, [] => []
  | skip + 1, _ :: bytes => decodeFrom skip bytes
  | 0, a :: bytes =>
    match scalarAt a bytes with
    | some (c, more) => c :: decodeFrom more bytes
    | none => (0xDC00 + a.val) :: decodeFrom 0 bytes

def decode (bytes : List Byte) : List ℕ := decodeFrom 0 bytes

/-! ## The round trip -/

theorem ofNat_eq {n : ℕ} {b : Byte} (h : n = b.val) : Fin.ofNat 256 n = b := by
  simp [h]

theorem encodeChar_one {a : Byte} (ha : a.val < 0x80) : encodeChar a.val = some [a] := by
  have hscalar : isScalar a.val = true := by simp [isScalar]; omega
  rw [encodeChar, if_pos hscalar, scalarBytes, if_pos ha]
  simp

theorem scalarBytes_two {a b : ℕ} (ha : 0xC2 ≤ a ∧ a < 0xE0) (hb : 0x80 ≤ b ∧ b < 0xC0) :
    scalarBytes ((a - 0xC0) * 64 + (b - 0x80)) = [a, b] := by
  unfold scalarBytes
  rw [if_neg (by omega), if_pos (by omega)]
  simp only [List.cons.injEq, and_true]
  omega

theorem scalarBytes_three {a b b' c : ℕ} (ha : 0xE0 ≤ a ∧ a < 0xF0) (hb : 0x80 ≤ b ∧ b < 0xC0)
    (hb' : 0x80 ≤ b' ∧ b' < 0xC0)
    (hc : c = (a - 0xE0) * 4096 + (b - 0x80) * 64 + (b' - 0x80)) (hlong : 0x800 ≤ c) :
    scalarBytes c = [a, b, b'] := by
  unfold scalarBytes
  rw [if_neg (by omega), if_neg (by omega), if_pos (by omega)]
  simp only [List.cons.injEq, and_true]
  omega

theorem scalarBytes_four {a b b' b'' c : ℕ} (ha : 0xF0 ≤ a) (hb : 0x80 ≤ b ∧ b < 0xC0)
    (hb' : 0x80 ≤ b' ∧ b' < 0xC0) (hb'' : 0x80 ≤ b'' ∧ b'' < 0xC0)
    (hc : c = (a - 0xF0) * 262144 + (b - 0x80) * 4096 + (b' - 0x80) * 64 + (b'' - 0x80))
    (hlong : 0x10000 ≤ c) : scalarBytes c = [a, b, b', b''] := by
  unfold scalarBytes
  rw [if_neg (by omega), if_neg (by omega), if_neg (by omega)]
  simp only [List.cons.injEq, and_true]
  omega

theorem encodeChar_of_twoAt {a : Byte} {rest : List Byte} {c more : ℕ} (ha : a.val < 0xE0)
    (h : twoAt a rest = some (c, more)) : encodeChar c = some (a :: rest.take more) := by
  unfold twoAt at h
  split at h
  swap
  · cases h
  · rename_i b rest
    simp only [isContinuation, Bool.and_eq_true, decide_eq_true_eq,
      Option.ite_none_right_eq_some, Option.some.injEq, Prod.mk.injEq] at h
    obtain ⟨⟨hlong, hb⟩, hc, hmore⟩ := h
    subst hc hmore
    have hscalar : isScalar ((a.val - 0xC0) * 64 + (b.val - 0x80)) = true := by
      simp [isScalar]
      omega
    rw [encodeChar, if_pos hscalar, scalarBytes_two ⟨hlong, ha⟩ hb]
    simp

theorem encodeChar_of_threeAt {a : Byte} {rest : List Byte} {c more : ℕ} (ha : 0xE0 ≤ a.val)
    (ha' : a.val < 0xF0) (h : threeAt a rest = some (c, more)) :
    encodeChar c = some (a :: rest.take more) := by
  unfold threeAt at h
  split at h
  swap
  · cases h
  · rename_i b b' rest
    simp only [isContinuation, Bool.and_eq_true, decide_eq_true_eq,
      Option.ite_none_right_eq_some, Option.some.injEq, Prod.mk.injEq] at h
    obtain ⟨⟨⟨hb, hb'⟩, hlong, hscalar⟩, hc, hmore⟩ := h
    subst hc hmore
    have hvalue : threeValue a b b'
        = (a.val - 0xE0) * 4096 + (b.val - 0x80) * 64 + (b'.val - 0x80) := rfl
    generalize threeValue a b b' = c at hlong hscalar hvalue ⊢
    rw [encodeChar, if_pos hscalar, scalarBytes_three ⟨ha, ha'⟩ hb hb' hvalue hlong]
    simp

theorem encodeChar_of_fourAt {a : Byte} {rest : List Byte} {c more : ℕ} (ha : 0xF0 ≤ a.val)
    (h : fourAt a rest = some (c, more)) : encodeChar c = some (a :: rest.take more) := by
  unfold fourAt at h
  split at h
  swap
  · cases h
  · rename_i b b' b'' rest
    simp only [isContinuation, Bool.and_eq_true, decide_eq_true_eq,
      Option.ite_none_right_eq_some, Option.some.injEq, Prod.mk.injEq] at h
    obtain ⟨⟨⟨hb, hb', hb''⟩, hlong, hscalar⟩, hc, hmore⟩ := h
    subst hc hmore
    have hvalue : fourValue a b b' b''
        = (a.val - 0xF0) * 262144 + (b.val - 0x80) * 4096 + (b'.val - 0x80) * 64
          + (b''.val - 0x80) := rfl
    generalize fourValue a b b' b'' = c at hlong hscalar hvalue ⊢
    rw [encodeChar, if_pos hscalar, scalarBytes_four ha hb hb' hb'' hvalue hlong]
    simp

/-- What is read as a scalar is that scalar's bytes. -/
theorem encodeChar_of_scalarAt {a : Byte} {rest : List Byte} {c more : ℕ}
    (h : scalarAt a rest = some (c, more)) : encodeChar c = some (a :: rest.take more) := by
  unfold scalarAt at h
  split_ifs at h with h1 h2 h3
  · cases h
    exact encodeChar_one h1
  · exact encodeChar_of_twoAt h2 h
  · exact encodeChar_of_threeAt (by omega) h3 h
  · exact encodeChar_of_fourAt (by omega) h

theorem le_of_scalarAt_none {a : Byte} {rest : List Byte} (h : scalarAt a rest = none) :
    0x80 ≤ a.val := by
  by_contra hlt
  unfold scalarAt at h
  rw [if_pos (by omega)] at h
  cases h

theorem encodeChar_escape {a : Byte} (h : 0x80 ≤ a.val) : encodeChar (0xDC00 + a.val) = some [a] := by
  have ha := a.isLt
  have hscalar : isScalar (0xDC00 + a.val) = false := by simp [isScalar]; omega
  have hescape : isEscape (0xDC00 + a.val) = true := by simp [isEscape]; omega
  simp [encodeChar, hscalar, hescape]

theorem encode_decodeFrom (skip : ℕ) (bytes : List Byte) :
    encode (decodeFrom skip bytes) = some (bytes.drop skip) := by
  induction bytes generalizing skip with
  | nil => simp [decodeFrom, encode]
  | cons a bytes ih =>
    cases skip with
    | succ skip => exact ih skip
    | zero =>
      rw [decodeFrom]
      cases hs : scalarAt a bytes with
      | some found =>
        obtain ⟨c, more⟩ := found
        simp [encode, encodeChar_of_scalarAt hs, ih more]
      | none => simp [encode, encodeChar_escape (le_of_scalarAt_none hs), ih 0]

/-- **Escaping loses nothing.** -/
theorem encode_decode (bytes : List Byte) : encode (decode bytes) = some bytes :=
  encode_decodeFrom 0 bytes

/-! ## ASCII -/

theorem encodeChar_ascii {k : ℕ} (hk : k < 0x80) : encodeChar k = some [Fin.ofNat 256 k] := by
  have hscalar : isScalar k = true := by
    simp [isScalar]
    omega
  rw [encodeChar, if_pos hscalar, scalarBytes, if_pos hk]
  rfl

theorem encodeChar_ne_nil {c : ℕ} {bytes : List Byte} (h : encodeChar c = some bytes) : bytes ≠ [] := by
  unfold encodeChar at h
  split_ifs at h <;> rw [Option.some.injEq] at h <;> subst h
  · rw [Ne, List.map_eq_nil_iff]
    unfold scalarBytes
    split_ifs <;> exact not_false
  · exact List.cons_ne_nil _ _

/-- An ASCII byte belongs to no longer sequence. -/
theorem eq_of_ascii_mem {c k : ℕ} {bytes : List Byte} (hk : k < 0x80)
    (h : encodeChar c = some bytes) (hmem : Fin.ofNat 256 k ∈ bytes) : c = k := by
  unfold encodeChar at h
  split_ifs at h with hscalar hescape <;> cases h
  · obtain ⟨x, hx, hxk⟩ := List.mem_map.mp hmem
    have hmod : x % 256 = k % 256 := congrArg Fin.val hxk
    simp only [isScalar, Bool.or_eq_true, Bool.and_eq_true, decide_eq_true_eq] at hscalar
    unfold scalarBytes at hx
    split_ifs at hx <;> simp only [List.mem_cons, List.not_mem_nil, or_false] at hx <;> omega
  · have hmod : k % 256 = (c - 0xDC00) % 256 := congrArg Fin.val (List.mem_singleton.mp hmem)
    simp only [isEscape, Bool.and_eq_true, decide_eq_true_eq] at hescape
    omega

theorem ascii_mem_encode {k : ℕ} (hk : k < 0x80) {text : List ℕ} {bytes : List Byte}
    (h : encode text = some bytes) : Fin.ofNat 256 k ∈ bytes ↔ k ∈ text := by
  induction text generalizing bytes with
  | nil =>
    cases h
    simp
  | cons c text ih =>
    obtain ⟨here, hc, h⟩ := Option.bind_eq_some_iff.mp h
    obtain ⟨there, ht, rfl⟩ := Option.map_eq_some_iff.mp h
    rw [List.mem_append, ih ht, List.mem_cons]
    refine or_congr ⟨fun hmem => (eq_of_ascii_mem hk hc hmem).symm, fun hck => ?_⟩ Iff.rfl
    rw [← hck, encodeChar_ascii hk] at hc
    cases hc
    exact List.mem_singleton_self _

theorem ascii_mem_decode {k : ℕ} (hk : k < 0x80) (bytes : List Byte) :
    k ∈ decode bytes ↔ Fin.ofNat 256 k ∈ bytes :=
  (ascii_mem_encode hk (encode_decode bytes)).symm

theorem decode_injective : Function.Injective decode := fun a b h => by
  have hb := encode_decode b
  rw [← h, encode_decode, Option.some.injEq] at hb
  exact hb

/-! ## Cutting at an ASCII byte -/

theorem isContinuation_ascii {k : ℕ} (hk : k < 0x80) : isContinuation (Fin.ofNat 256 k) = false := by
  have hval : (Fin.ofNat 256 k).val = k := Nat.mod_eq_of_lt (by omega)
  rw [isContinuation, hval, Bool.and_eq_false_iff, decide_eq_false_iff_not]
  exact .inl (by omega)

theorem scalarAt_ascii {k : ℕ} (hk : k < 0x80) (tail : List Byte) :
    scalarAt (Fin.ofNat 256 k) tail = some (k, 0) := by
  have hval : (Fin.ofNat 256 k).val = k := Nat.mod_eq_of_lt (by omega)
  rw [scalarAt, hval, if_pos hk]

/-- A sequence does not reach over a byte that goes on with none. -/
theorem scalarAt_append {s : Byte} (hs : isContinuation s = false) (a : Byte) (rest tail : List Byte) :
    scalarAt a (rest ++ s :: tail) = scalarAt a rest := by
  have htwo : twoAt a (rest ++ s :: tail) = twoAt a rest := by
    rcases rest with _ | ⟨b, rest⟩
    · simp [twoAt, hs]
    · rfl
  have hthree : threeAt a (rest ++ s :: tail) = threeAt a rest := by
    rcases rest with _ | ⟨b, _ | ⟨b', rest⟩⟩
    · rcases tail with _ | ⟨t, tail⟩ <;> simp [threeAt, hs]
    · simp [threeAt, hs]
    · rfl
  have hfour : fourAt a (rest ++ s :: tail) = fourAt a rest := by
    rcases rest with _ | ⟨b, _ | ⟨b', _ | ⟨b'', rest⟩⟩⟩
    · rcases tail with _ | ⟨t, _ | ⟨t', tail⟩⟩ <;> simp [fourAt, hs]
    · rcases tail with _ | ⟨t, tail⟩ <;> simp [fourAt, hs]
    · simp [fourAt, hs]
    · rfl
  unfold scalarAt
  rw [htwo, hthree, hfour]

/-- A sequence lies within the bytes. -/
theorem le_length_of_scalarAt {a : Byte} {rest : List Byte} {c more : ℕ}
    (h : scalarAt a rest = some (c, more)) : more ≤ rest.length := by
  unfold scalarAt at h
  split_ifs at h
  · simp only [Option.some.injEq, Prod.mk.injEq] at h
    omega
  · unfold twoAt at h
    split at h
    · split_ifs at h
      simp only [Option.some.injEq, Prod.mk.injEq] at h
      simp only [List.length_cons]
      omega
    · cases h
  · unfold threeAt at h
    split at h
    · split_ifs at h
      simp only [Option.some.injEq, Prod.mk.injEq] at h
      simp only [List.length_cons]
      omega
    · cases h
  · unfold fourAt at h
    split at h
    · split_ifs at h
      simp only [Option.some.injEq, Prod.mk.injEq] at h
      simp only [List.length_cons]
      omega
    · cases h

theorem decodeFrom_append {k : ℕ} (hk : k < 0x80) {skip : ℕ} {bytes : List Byte}
    (hskip : skip ≤ bytes.length) (tail : List Byte) :
    decodeFrom skip (bytes ++ Fin.ofNat 256 k :: tail)
      = decodeFrom skip bytes ++ k :: decode tail := by
  induction bytes generalizing skip with
  | nil =>
    obtain rfl : skip = 0 := Nat.le_zero.mp hskip
    show decodeFrom 0 (Fin.ofNat 256 k :: tail) = [] ++ k :: decode tail
    rw [decodeFrom, scalarAt_ascii hk]
    rfl
  | cons a bytes ih =>
    cases skip with
    | succ skip => exact ih (Nat.le_of_succ_le_succ hskip)
    | zero =>
      rw [List.cons_append, decodeFrom, decodeFrom, scalarAt_append (isContinuation_ascii hk)]
      cases hs : scalarAt a bytes with
      | some found =>
        obtain ⟨c, more⟩ := found
        simp only [List.cons_append, ih (le_length_of_scalarAt hs)]
      | none => simp only [List.cons_append, ih (Nat.zero_le _)]

/-- **Decoding cuts where the bytes do.** -/
theorem decode_append_ascii {k : ℕ} (hk : k < 0x80) (bytes tail : List Byte) :
    decode (bytes ++ Fin.ofNat 256 k :: tail) = decode bytes ++ k :: decode tail :=
  decodeFrom_append hk (Nat.zero_le _) tail

theorem decode_cons_ascii {k : ℕ} (hk : k < 0x80) (tail : List Byte) :
    decode (Fin.ofNat 256 k :: tail) = k :: decode tail :=
  decode_append_ascii hk [] tail

/-- The bytes of an ASCII text. -/
def ascii (text : List ℕ) : List Byte := text.map (Fin.ofNat 256)

theorem decode_ascii_append {text : List ℕ} (h : ∀ c ∈ text, c < 0x80) (tail : List Byte) :
    decode (ascii text ++ tail) = text ++ decode tail := by
  induction text with
  | nil => rfl
  | cons c text ih =>
    rw [List.forall_mem_cons] at h
    show decode (Fin.ofNat 256 c :: (ascii text ++ tail)) = c :: (text ++ decode tail)
    rw [decode_cons_ascii h.1, ih h.2]

@[simp] theorem decode_nil : decode [] = [] := rfl

theorem decode_ascii {text : List ℕ} (h : ∀ c ∈ text, c < 0x80) : decode (ascii text) = text := by
  have hnil := decode_ascii_append h []
  rwa [List.append_nil, decode_nil, List.append_nil] at hnil

theorem encode_append (a b : List ℕ) :
    encode (a ++ b) = (encode a).bind fun xs => (encode b).map (xs ++ ·) := by
  induction a with
  | nil => simp [encode]
  | cons c a ih =>
    rw [List.cons_append, encode, encode, ih]
    cases encodeChar c <;> cases encode a <;> cases encode b <;> simp

/-! ## Replacing what is not UTF-8 -/

/-- A second byte that a sequence may have. -/
def goodSecond (a b : Byte) : Bool :=
  isContinuation b && (a.val != 0xE0 || 0xA0 ≤ b.val) && (a.val != 0xED || b.val < 0xA0) &&
    (a.val != 0xF0 || 0x90 ≤ b.val) && (a.val != 0xF4 || b.val < 0x90)

/-- The bytes behind `a` that belong to the sequence it starts, where that breaks off. -/
def brokenMore (a : Byte) : List Byte → ℕ
  | [] => 0
  | b :: rest =>
    if a.val < 0xE0 ∨ 0xF5 ≤ a.val ∨ !goodSecond a b then 0
    else if a.val < 0xF0 then 1
    else
      match rest with
      | [] => 1
      | b' :: _ => if isContinuation b' then 2 else 1

/-- Decode, with one replacement character for each sequence that breaks off. -/
def decodeReplaceFrom : ℕ → List Byte → List ℕ
  | _, [] => []
  | skip + 1, _ :: bytes => decodeReplaceFrom skip bytes
  | 0, a :: bytes =>
    match scalarAt a bytes with
    | some (c, more) => c :: decodeReplaceFrom more bytes
    | none => 0xFFFD :: decodeReplaceFrom (brokenMore a bytes) bytes

/-- The error handler `replace`. -/
def decodeReplace (bytes : List Byte) : List ℕ := decodeReplaceFrom 0 bytes

theorem isScalar_of_scalarAt {a : Byte} {rest : List Byte} {c more : ℕ}
    (h : scalarAt a rest = some (c, more)) : isScalar c = true := by
  unfold scalarAt at h
  split_ifs at h with hone htwo
  · simp only [Option.some.injEq, Prod.mk.injEq] at h
    simp only [isScalar, Bool.or_eq_true, decide_eq_true_eq]
    omega
  · unfold twoAt at h
    split at h
    · split_ifs at h with hb
      simp only [Option.some.injEq, Prod.mk.injEq] at h
      simp only [isContinuation, Bool.and_eq_true, decide_eq_true_eq] at hb
      simp only [isScalar, Bool.or_eq_true, decide_eq_true_eq]
      omega
    · cases h
  · unfold threeAt at h
    split at h
    · split_ifs at h with hb
      simp only [Option.some.injEq, Prod.mk.injEq] at h
      exact h.1 ▸ hb.2.2
    · cases h
  · unfold fourAt at h
    split at h
    · split_ifs at h with hb
      simp only [Option.some.injEq, Prod.mk.injEq] at h
      exact h.1 ▸ hb.2.2
    · cases h

theorem isEscape_of_isScalar {c : ℕ} (h : isScalar c = true) : isEscape c = false := by
  simp only [isScalar, Bool.or_eq_true, Bool.and_eq_true, decide_eq_true_eq] at h
  rw [isEscape, Bool.and_eq_false_iff, decide_eq_false_iff_not, decide_eq_false_iff_not]
  omega

/-- What is replaced leaves no escaped byte. -/
theorem isScalar_of_mem_decodeReplaceFrom {skip c : ℕ} {bytes : List Byte}
    (h : c ∈ decodeReplaceFrom skip bytes) : isScalar c = true := by
  induction bytes generalizing skip with
  | nil => simp [decodeReplaceFrom] at h
  | cons a bytes ih =>
    cases skip with
    | succ skip => exact ih h
    | zero =>
      rw [decodeReplaceFrom] at h
      cases hs : scalarAt a bytes with
      | some found =>
        obtain ⟨c', more⟩ := found
        simp only [hs] at h
        rcases List.mem_cons.mp h with rfl | h
        · exact isScalar_of_scalarAt hs
        · exact ih h
      | none =>
        simp only [hs] at h
        rcases List.mem_cons.mp h with rfl | h
        · rfl
        · exact ih h

theorem decodeReplaceFrom_eq {skip : ℕ} {bytes : List Byte}
    (h : ∀ c ∈ decodeFrom skip bytes, isEscape c = false) :
    decodeReplaceFrom skip bytes = decodeFrom skip bytes := by
  induction bytes generalizing skip with
  | nil => simp [decodeReplaceFrom, decodeFrom]
  | cons a bytes ih =>
    cases skip with
    | succ skip => exact ih h
    | zero =>
      rw [decodeFrom] at h
      rw [decodeReplaceFrom, decodeFrom]
      cases hs : scalarAt a bytes with
      | some found =>
        obtain ⟨c, more⟩ := found
        simp only [hs, List.forall_mem_cons] at h
        simp only [ih h.2]
      | none =>
        simp only [hs, List.forall_mem_cons] at h
        have hhigh := le_of_scalarAt_none hs
        have hlow := a.isLt
        have hescape : isEscape (0xDC00 + a.val) = true := by
          rw [isEscape, Bool.and_eq_true, decide_eq_true_eq, decide_eq_true_eq]
          omega
        rw [hescape] at h
        exact absurd h.1 (by decide)

/-- **Bytes that are UTF-8** are decoded alike by both handlers. -/
theorem decodeReplace_eq {bytes : List Byte} (h : ∀ c ∈ decode bytes, isEscape c = false) :
    decodeReplace bytes = decode bytes :=
  decodeReplaceFrom_eq h

/-! ## Reading back what was encoded -/

theorem scalarAt_two {n : ℕ} (hlow : 0x80 ≤ n) (hhigh : n < 0x800) (tail : List Byte) :
    scalarAt (Fin.ofNat 256 (0xC0 + n / 64)) (Fin.ofNat 256 (0x80 + n % 64) :: tail) = some (n, 1) := by
  have ha : (Fin.ofNat 256 (0xC0 + n / 64)).val = 0xC0 + n / 64 := Nat.mod_eq_of_lt (by omega)
  have hb : (Fin.ofNat 256 (0x80 + n % 64)).val = 0x80 + n % 64 := Nat.mod_eq_of_lt (by omega)
  rw [scalarAt, ha, if_neg (by omega), if_pos (by omega), twoAt, if_pos]
  · simp only [ha, hb, Option.some.injEq, Prod.mk.injEq, and_true]
    omega
  · rw [isContinuation, ha, hb]
    simp only [Bool.and_eq_true, decide_eq_true_eq]
    omega

theorem threeValue_eq {a b b' : Byte} {x y z : ℕ} (ha : a.val = 0xE0 + x) (hb : b.val = 0x80 + y)
    (hb' : b'.val = 0x80 + z) : threeValue a b b' = x * 4096 + y * 64 + z := by
  unfold threeValue
  omega

theorem fourValue_eq {a b b' b'' : Byte} {w x y z : ℕ} (ha : a.val = 0xF0 + w)
    (hb : b.val = 0x80 + x) (hb' : b'.val = 0x80 + y) (hb'' : b''.val = 0x80 + z) :
    fourValue a b b' b'' = w * 262144 + x * 4096 + y * 64 + z := by
  unfold fourValue
  omega

theorem scalarAt_three {n : ℕ} (hlow : 0x800 ≤ n) (hhigh : n < 0x10000) (hscalar : isScalar n = true)
    (tail : List Byte) :
    scalarAt (Fin.ofNat 256 (0xE0 + n / 4096))
      (Fin.ofNat 256 (0x80 + n / 64 % 64) :: Fin.ofNat 256 (0x80 + n % 64) :: tail) = some (n, 2) := by
  have ha : (Fin.ofNat 256 (0xE0 + n / 4096)).val = 0xE0 + n / 4096 := Nat.mod_eq_of_lt (by omega)
  have hb : (Fin.ofNat 256 (0x80 + n / 64 % 64)).val = 0x80 + n / 64 % 64 := Nat.mod_eq_of_lt (by omega)
  have hb' : (Fin.ofNat 256 (0x80 + n % 64)).val = 0x80 + n % 64 := Nat.mod_eq_of_lt (by omega)
  have hvalue : threeValue (Fin.ofNat 256 (0xE0 + n / 4096)) (Fin.ofNat 256 (0x80 + n / 64 % 64))
      (Fin.ofNat 256 (0x80 + n % 64)) = n := by
    rw [threeValue_eq ha hb hb']
    omega
  rw [scalarAt, ha, if_neg (by omega), if_neg (by omega), if_pos (by omega), threeAt, hvalue,
    if_pos]
  simp only [isContinuation, hb, hb', Bool.and_eq_true, decide_eq_true_eq]
  exact ⟨by omega, hlow, hscalar⟩

theorem scalarAt_four {n : ℕ} (hlow : 0x10000 ≤ n) (hscalar : isScalar n = true) (tail : List Byte) :
    scalarAt (Fin.ofNat 256 (0xF0 + n / 262144))
      (Fin.ofNat 256 (0x80 + n / 4096 % 64) :: Fin.ofNat 256 (0x80 + n / 64 % 64) ::
        Fin.ofNat 256 (0x80 + n % 64) :: tail) = some (n, 3) := by
  have hhigh : n < 0x110000 := by
    simp only [isScalar, Bool.or_eq_true, Bool.and_eq_true, decide_eq_true_eq] at hscalar
    omega
  have ha : (Fin.ofNat 256 (0xF0 + n / 262144)).val = 0xF0 + n / 262144 := Nat.mod_eq_of_lt (by omega)
  have hb : (Fin.ofNat 256 (0x80 + n / 4096 % 64)).val = 0x80 + n / 4096 % 64 :=
    Nat.mod_eq_of_lt (by omega)
  have hb' : (Fin.ofNat 256 (0x80 + n / 64 % 64)).val = 0x80 + n / 64 % 64 := Nat.mod_eq_of_lt (by omega)
  have hb'' : (Fin.ofNat 256 (0x80 + n % 64)).val = 0x80 + n % 64 := Nat.mod_eq_of_lt (by omega)
  have hvalue : fourValue (Fin.ofNat 256 (0xF0 + n / 262144)) (Fin.ofNat 256 (0x80 + n / 4096 % 64))
      (Fin.ofNat 256 (0x80 + n / 64 % 64)) (Fin.ofNat 256 (0x80 + n % 64)) = n := by
    rw [fourValue_eq ha hb hb' hb'']
    omega
  rw [scalarAt, ha, if_neg (by omega), if_neg (by omega), if_neg (by omega), fourAt, hvalue, if_pos]
  simp only [isContinuation, hb, hb', hb'', Bool.and_eq_true, decide_eq_true_eq]
  exact ⟨by omega, hlow, hscalar⟩

/-- **A scalar's bytes are read as that scalar**, whatever follows them. -/
theorem scalarAt_of_encodeChar {c : ℕ} {bytes : List Byte} (hscalar : isScalar c = true)
    (h : encodeChar c = some bytes) :
    ∃ a rest, bytes = a :: rest ∧ ∀ tail, scalarAt a (rest ++ tail) = some (c, rest.length) := by
  rw [encodeChar, if_pos hscalar] at h
  obtain rfl := Option.some.inj h
  unfold scalarBytes
  split_ifs with hone htwo hthree
  · exact ⟨_, [], rfl, fun tail => scalarAt_ascii hone tail⟩
  · exact ⟨_, [_], rfl, fun tail => scalarAt_two (by omega) htwo tail⟩
  · exact ⟨_, [_, _], rfl, fun tail => scalarAt_three (by omega) hthree hscalar tail⟩
  · exact ⟨_, [_, _, _], rfl, fun tail => scalarAt_four (by omega) hscalar tail⟩

theorem decodeReplaceFrom_append (skipped rest : List Byte) :
    decodeReplaceFrom skipped.length (skipped ++ rest) = decodeReplaceFrom 0 rest := by
  induction skipped with
  | nil => rfl
  | cons b skipped ih => exact ih

/-- **Text without surrogates is read back.** -/
theorem decodeReplace_encode {text : List ℕ} {bytes : List Byte}
    (hscalar : ∀ c ∈ text, isScalar c = true) (h : encode text = some bytes) :
    decodeReplace bytes = text := by
  induction text generalizing bytes with
  | nil =>
    cases h
    rfl
  | cons c text ih =>
    rw [List.forall_mem_cons] at hscalar
    obtain ⟨here, hc, h⟩ := Option.bind_eq_some_iff.mp h
    obtain ⟨there, htext, rfl⟩ := Option.map_eq_some_iff.mp h
    obtain ⟨a, rest, rfl, hat⟩ := scalarAt_of_encodeChar hscalar.1 hc
    rw [decodeReplace, List.cons_append, decodeReplaceFrom, hat there]
    show c :: decodeReplaceFrom rest.length (rest ++ there) = _
    rw [decodeReplaceFrom_append]
    exact congrArg (c :: ·) (ih hscalar.2 htext)

end Utf8
