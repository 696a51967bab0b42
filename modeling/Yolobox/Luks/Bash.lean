/-
# The numbers of the encryption, as bash computes them

`encrypt` and `finalize` of `nix/luks/yolobox-luks-migrate.sh` again, on the 64-bit
integers of the shell.  Its arithmetic wraps and divides towards zero; `[` reads decimals
and is false on anything else, with a message; `$(( ))` reads a leading zero as octal.
Within the range of these integers, and on the numerals the tools print, the functions
are those of the exact script (`interp_encrypt`, `interp_finalize`).
-/
import Yolobox.Luks.Disk

open Script

namespace Migrate.Bash

/-! ## Reading numbers -/

/-- A sign, if there is one, and what follows it. -/
def signed : PyStr → Bool × PyStr
  | 43 :: rest => (false, rest)
  | 45 :: rest => (true, rest)
  | rest => (false, rest)

/-- The digits at the start, when only blanks follow them. -/
def digitsOf (text : PyStr) : Option PyStr :=
  let digits := text.takeWhile isDigit
  if digits.isEmpty || !(text.dropWhile isDigit).all (fun c => c = 32 || c = 9) then none
  else some digits

/-- What `[` reads: a decimal that fits, between blanks. -/
def testNumber (text : PyStr) : Option ℤ :=
  let number := signed (text.dropWhile fun c => c = 32 || (9 ≤ c && c ≤ 13))
  (digitsOf number.2).bind fun digits =>
    let n := num digits
    if number.1 then (if n ≤ 2 ^ 63 then some (-n) else none)
    else if n < 2 ^ 63 then some n else none

/-- What `$(( ))` makes of a text that `[` reads: a leading zero means octal. -/
def arithmetic (text : PyStr) : Option Int64 :=
  let number := signed (text.dropWhile fun c => c = 32 || c = 9 || c = 10)
  (digitsOf number.2).bind fun digits =>
    let magnitude :=
      if digits.head? = some 48 then
        if digits.all (· < 56) then
          some (Int64.ofNat (Nat.ofDigits 8 (digits.reverse.map (· - 48))))
        else none
      else some (Int64.ofNat (num digits))
    magnitude.map fun n => if number.1 then -n else n

/-- `[ "$n" -gt "$text" ]`. -/
def testGreater (n : Int64) (text : PyStr) : Bool :=
  match testNumber text with
  | none => false
  | some t => t < n.toInt

/-- `[ "$n" -lt "$text" ]`. -/
def testLess (n : Int64) (text : PyStr) : Bool :=
  match testNumber text with
  | none => false
  | some t => n.toInt < t

/-- Give a tool a number; one that is negative it refuses before it does anything. -/
def giving (n : Int64) (run : ℕ → Sh Unit) : Sh Unit :=
  if n < 0 then .throw errexit else run n.toInt.toNat

/-! ## The functions -/

def targetBlocks (min : Int64) : Int64 :=
  min + min * Int64.ofNat headroomPercent / Int64.ofNat 100 + Int64.ofNat 1

def regionBytes (target bs : Int64) : Int64 :=
  (target * bs + Int64.ofNat headerRoom + Int64.ofNat align - Int64.ofNat 1) /
    Int64.ofNat align * Int64.ofNat align

def encrypt (key : PyStr) : Sh Unit := do
  fsckOk .disk
  let min : PyStr ← sh .resize2fsMinimum
  requirePositiveInt min
  let bs : PyStr ← sh (.blockSize .disk)
  requirePositiveInt bs
  let target := targetBlocks (Int64.ofNat (num min))
  let region := regionBytes target (Int64.ofNat (num bs))
  let total : PyStr ← sh .getsize64
  requirePositiveInt total
  let need := region + Int64.ofNat headerRoom
  if testGreater need total then .throw 7
  else giving target fun target => do
    let _ ← sh (.resize2fs .disk (some target))
    giving region fun region => sh (.reencrypt key region)

/-- The subshell of `finalize`. -/
def discardAndGrow : Sh Unit := do
  let offsetSectors : PyStr ← sh .statusOffset
  requirePositiveInt offsetSectors
  let mapperBs : PyStr ← sh (.blockSize .scratch)
  requirePositiveInt mapperBs
  let fsBlocks : PyStr ← sh (.blockCount .scratch)
  requirePositiveInt fsBlocks
  let fsBytes := Int64.ofNat (num fsBlocks) * Int64.ofNat (num mapperBs)
  let plaintextTail := Int64.ofNat (num offsetSectors) * Int64.ofNat sectorBytes + fsBytes
  let total : PyStr ← sh .getsize64
  if testLess plaintextTail total then
    match arithmetic total with
    | none => .throw errexit
    | some total => do
      giving plaintextTail fun offset => giving (total - plaintextTail) fun length =>
        sh (.blkdiscard offset length)
      fsckOk .scratch
      sh (.resize2fs .scratch none)
  else do
    fsckOk .scratch
    sh (.resize2fs .scratch none)

def finalize (key : PyStr) : Sh Unit := do
  let _ ← sh (.openScratch key)
  let rc ← discardAndGrow.caught
  let _ ← sh .closeScratch
  match rc with
  | .error _ => .throw 5
  | .ok _ => sh .configLabel

/-! ## Numerals -/

variable {n t : ℕ}

/-- A numeral starts with a digit, and a positive one with no zero. -/
theorem dec_eq_cons (n : ℕ) : ∃ c rest, dec n = c :: rest ∧ 48 ≤ c ∧ c ≤ 57 := by
  obtain ⟨c, rest, hdec⟩ := List.exists_cons_of_ne_nil (dec_ne_nil n)
  have hc : isDigit c = true := isDigit_of_mem_dec (hdec ▸ List.mem_cons_self ..)
  simp only [isDigit, Bool.and_eq_true, decide_eq_true_eq] at hc
  exact ⟨c, rest, hdec, hc⟩

theorem digitsOf_dec (n : ℕ) : digitsOf (dec n) = some (dec n) := by
  have htake : (dec n).takeWhile isDigit = dec n :=
    List.takeWhile_eq_self_iff.mpr fun c hc => isDigit_of_mem_dec hc
  have hdrop : (dec n).dropWhile isDigit = [] :=
    List.dropWhile_eq_nil_iff.mpr fun c hc => isDigit_of_mem_dec hc
  simp [digitsOf, htake, hdrop, dec_ne_nil]

theorem signed_dec (n : ℕ) : signed (dec n) = (false, dec n) := by
  obtain ⟨c, rest, hdec, hlow, hhigh⟩ := dec_eq_cons n
  rw [hdec]
  unfold signed
  split <;> simp_all

theorem dropWhile_dec {p : ℕ → Bool} (hp : ∀ c, 48 ≤ c → p c = false) (n : ℕ) :
    (dec n).dropWhile p = dec n := by
  obtain ⟨c, rest, hdec, hlow, -⟩ := dec_eq_cons n
  rw [hdec, List.dropWhile_cons, hp c hlow]
  rfl

theorem testNumber_dec (h : n < 2 ^ 63) : testNumber (dec n) = some (n : ℤ) := by
  have hdrop : (dec n).dropWhile (fun c => c = 32 || (9 ≤ c && c ≤ 13)) = dec n :=
    dropWhile_dec (fun c hc => by simp; omega) n
  simp only [testNumber, hdrop, signed_dec, digitsOf_dec, Option.bind_some, num_dec,
    Bool.false_eq_true, if_false, h, if_true]

theorem arithmetic_dec (hn : 0 < n) : arithmetic (dec n) = some (Int64.ofNat n) := by
  have hdrop : (dec n).dropWhile (fun c => c = 32 || c = 9 || c = 10) = dec n :=
    dropWhile_dec (fun c hc => by simp; omega) n
  rw [arithmetic, hdrop, signed_dec]
  simp [digitsOf_dec, head_dec_ne_zero hn]

theorem testGreater_dec (hn : n < 2 ^ 63) (ht : t < 2 ^ 63) :
    testGreater (Int64.ofNat n) (dec t) = decide (t < n) := by
  rw [testGreater, testNumber_dec ht, Int64.toInt_ofNat_of_lt hn]
  simp

theorem testLess_dec (hn : n < 2 ^ 63) (ht : t < 2 ^ 63) :
    testLess (Int64.ofNat n) (dec t) = lessThan n (dec t) := by
  rw [testLess, testNumber_dec ht, Int64.toInt_ofNat_of_lt hn, lessThan_dec]
  simp

theorem giving_ofNat (hn : n < 2 ^ 63) (run : ℕ → Sh Unit) :
    giving (Int64.ofNat n) run = run n := by
  have hpos : ¬ Int64.ofNat n < 0 := by
    rw [Int64.lt_iff_toInt_lt, Int64.toInt_ofNat_of_lt hn]
    simp
  rw [giving, if_neg hpos, Int64.toInt_ofNat_of_lt hn, Int.toNat_natCast]

/-! ## Sizes within range -/

theorem targetBlocks_ofNat {min : ℕ} (h : min * headroomPercent < 2 ^ 63) :
    targetBlocks (Int64.ofNat min) = Int64.ofNat (Migrate.targetBlocks min) := by
  rw [targetBlocks, Migrate.targetBlocks, Int64.ofNat_add, Int64.ofNat_add,
    Int64.ofNat_div h (by norm_num), Int64.ofNat_mul]

theorem regionBytes_ofNat {target bs : ℕ} (h : target * bs + headerRoom + align < 2 ^ 63) :
    regionBytes (Int64.ofNat target) (Int64.ofNat bs) =
      Int64.ofNat (Migrate.regionBytes target bs) := by
  have halign : 1 ≤ target * bs + headerRoom + align := by
    have hpos : 1 ≤ align := by decide
    omega
  rw [regionBytes, Migrate.regionBytes, Int64.ofNat_mul, Int64.ofNat_div (by omega) (by decide),
    Int64.ofNat_sub _ _ halign, Int64.ofNat_add, Int64.ofNat_add, Int64.ofNat_mul]

/-- The region is less than one alignment more than what it holds. -/
theorem regionBytes_lt (target bs : ℕ) :
    Migrate.regionBytes target bs < target * bs + headerRoom + align := by
  have halign : 0 < align := by decide
  have hle := Nat.div_mul_le_self (target * bs + headerRoom + align - 1) align
  unfold Migrate.regionBytes
  omega

/-! ## Runs on given outputs -/

variable {answer : (c : Cmd) → Option (Answer c)} {key : PyStr} {log : List Cmd}

/-- The tools answer as given; what is run is noted. -/
def logged (answer : (c : Cmd) → Option (Answer c)) (c : Cmd) (log : List Cmd) :
    Option (Answer c) × List Cmd := (answer c, log ++ [c])

theorem interp_sh {c : Cmd} {a : Answer c} {log' : List Cmd}
    (h : (sh c).interp (logged answer) log = (.ok a, log')) :
    answer c = some a ∧ log' = log ++ [c] := by
  simp only [sh, cmd, interp, logged] at h
  cases hc : answer c with
  | none => simp [hc, interp] at h
  | some b =>
    simp only [hc, interp, Prod.mk.injEq, Except.ok.injEq] at h
    exact ⟨congrArg some h.1, h.2.symm⟩

theorem interp_requirePositiveInt {text : PyStr} {log' : List Cmd}
    (h : (requirePositiveInt text).interp (logged answer) log = (.ok (), log')) :
    (∃ n, 0 < n ∧ text = dec n) ∧ log' = log := by
  unfold requirePositiveInt at h
  split_ifs at h with hcheck
  · exact ⟨isPositiveInt_iff.mp hcheck, (congrArg Prod.snd h).symm⟩
  · simp [interp] at h

/-- What is numeric in the outputs stays below 2^62 bytes. -/
structure InRange (answer : (c : Cmd) → Option (Answer c)) : Prop where
  shrunken : ∀ n b, answer .resize2fsMinimum = some (dec n) →
    answer (.blockSize .disk) = some (dec b) → Migrate.targetBlocks n * b < 2 ^ 62
  device : ∀ t, answer .getsize64 = some (dec t) → t < 2 ^ 62
  readable : ∀ text t, answer .getsize64 = some text → testNumber text = some t → t < 2 ^ 62
  offset : ∀ o, answer .statusOffset = some (dec o) → o * sectorBytes < 2 ^ 62
  filesystem : ∀ n b, answer (.blockCount .scratch) = some (dec n) →
    answer (.blockSize .scratch) = some (dec b) → n * b < 2 ^ 62

/-- **Encrypting.**  Within range, when five times the minimum is too, bash runs what the
exact script runs. -/
theorem interp_encrypt (h : InRange answer)
    (hmin : ∀ n, answer .resize2fsMinimum = some (dec n) → n * headroomPercent < 2 ^ 63) :
    (encrypt key).interp (logged answer) log = (Migrate.encrypt key).interp (logged answer) log := by
  unfold encrypt Migrate.encrypt
  refine interp_bind_congr fun _ _ _ => ?_
  refine interp_bind_congr fun minText _ hminText => ?_
  refine interp_bind_congr fun _ _ hminCheck => ?_
  refine interp_bind_congr fun bsText _ hbsText => ?_
  refine interp_bind_congr fun _ _ hbsCheck => ?_
  refine interp_bind_congr fun totalText _ htotalText => ?_
  refine interp_bind_congr fun _ _ htotalCheck => ?_
  obtain ⟨⟨n, -, rfl⟩, -⟩ := interp_requirePositiveInt hminCheck
  obtain ⟨⟨b, -, rfl⟩, -⟩ := interp_requirePositiveInt hbsCheck
  obtain ⟨⟨t, -, rfl⟩, -⟩ := interp_requirePositiveInt htotalCheck
  have hn := hmin n (interp_sh hminText).1
  have hshrunken := h.shrunken n b (interp_sh hminText).1 (interp_sh hbsText).1
  have htotal := h.device t (interp_sh htotalText).1
  have hregion := regionBytes_lt (Migrate.targetBlocks n) b
  have hroom : headerRoom + align + headerRoom < 2 ^ 62 := by decide
  have htarget : Migrate.targetBlocks n < 2 ^ 63 := by
    unfold Migrate.targetBlocks headroomPercent at *
    omega
  have hneed : testGreater (Int64.ofNat (Migrate.regionBytes (Migrate.targetBlocks n) b) +
      Int64.ofNat headerRoom) (dec t) =
        decide (t < Migrate.regionBytes (Migrate.targetBlocks n) b + headerRoom) := by
    rw [← Int64.ofNat_add, testGreater_dec (by omega) (by omega)]
  dsimp only
  rw [num_dec n, num_dec b, num_dec t, targetBlocks_ofNat hn, regionBytes_ofNat (by omega), hneed, giving_ofNat htarget,
    giving_ofNat (by omega)]
  simp only [decide_eq_true_eq, gt_iff_lt]

section Rules

variable {β : Type} {P : Except ℕ β × List Cmd → Prop}

/-- A command ends the script or gives its output. -/
theorem sh_rule {c : Cmd} {f : Answer c → Sh β} (hstop : P (.error errexit, log ++ [c]))
    (hgo : ∀ a, answer c = some a → P ((f a).interp (logged answer) (log ++ [c]))) :
    P (((sh c).bind f).interp (logged answer) log) := by
  simp only [sh, cmd, exec_bind, interp, logged]
  cases hc : answer c with
  | none => exact hstop
  | some a => exact hgo a hc

theorem requirePositiveInt_rule {text : PyStr} {f : Unit → Sh β} (hstop : P (.error errexit, log))
    (hgo : ∀ n, 0 < n → text = dec n → P ((f ()).interp (logged answer) log)) :
    P (((requirePositiveInt text).bind f).interp (logged answer) log) := by
  unfold requirePositiveInt
  split_ifs with hcheck
  · obtain ⟨n, hn, htext⟩ := isPositiveInt_iff.mp hcheck
    exact hgo n hn htext
  · exact hstop

theorem fsckOk_rule {d : Dev} {f : Unit → Sh β} (hstop : P (.error 4, log ++ [.e2fsck d]))
    (hgo : P ((f ()).interp (logged answer) (log ++ [.e2fsck d]))) :
    P (((fsckOk d).bind f).interp (logged answer) log) := by
  simp only [fsckOk, trySh, attempt, bind_eq, exec_bind, ret_bind, interp, logged]
  have hrc : ∀ rc : Option ℕ, P (interp (logged answer)
      (Script.bind (if rc.getD 127 > 2 then Script.throw 4 else ret ()) f) (log ++ [.e2fsck d])) := by
    intro rc
    split_ifs
    · exact hstop
    · exact hgo
  exact hrc (answer (.e2fsck d))

end Rules

/-- Of two commands the second is run when the first works. -/
theorem noted_sh_sh (c c' : Cmd) (log : List Cmd) :
    ∃ rest, (((sh c).bind fun _ => sh c').interp (logged answer) log).2 = log ++ c :: rest ∧
      rest <+: [c'] := by
  simp only [sh, cmd, exec_bind, interp, logged]
  cases answer c with
  | none => exact ⟨[], rfl, List.nil_prefix⟩
  | some a =>
    refine ⟨[c'], ?_, List.prefix_rfl⟩
    cases hc' : answer c' <;> simp [interp, hc', logged]

/-- What `encrypt` runs before it decides. -/
def looked : List Cmd := [.e2fsck .disk, .resize2fsMinimum, .blockSize .disk, .getsize64]

/-- A run of `encrypt` that ended with no more than this, or whose numbers fit together. -/
def Checked (answer : (c : Cmd) → Option (Answer c)) (key : PyStr)
    (run : Except ℕ Unit × List Cmd) : Prop :=
  (∃ e, run.1 = .error e) ∧ run.2 <+: looked ∨
    ∃ n b t target region : ℕ, 0 < n ∧ 0 < b ∧ 0 < t ∧
      answer .resize2fsMinimum = some (dec n) ∧ answer (.blockSize .disk) = some (dec b) ∧
      answer .getsize64 = some (dec t) ∧
      n < target ∧ 4 * mib ∣ region ∧ target * b + 32 * mib ≤ region ∧
      region < target * b + 36 * mib ∧ region + 32 * mib ≤ t ∧
      ∃ rest, run.2 = looked ++ .resize2fs .disk (some target) :: rest ∧
        rest <+: [.reencrypt key region]

/-- The exact script checks its numbers. -/
theorem checked_encrypt (answer : (c : Cmd) → Option (Answer c)) (key : PyStr) :
    Checked answer key ((Migrate.encrypt key).interp (logged answer) []) := by
  refine fsckOk_rule (.inl ⟨⟨_, rfl⟩, _, rfl⟩) ?_
  refine sh_rule (.inl ⟨⟨_, rfl⟩, _, rfl⟩) fun minText hmin => ?_
  refine requirePositiveInt_rule (.inl ⟨⟨_, rfl⟩, _, rfl⟩) fun n hn htext => ?_
  subst htext
  refine sh_rule (.inl ⟨⟨_, rfl⟩, _, rfl⟩) fun bsText hbs => ?_
  refine requirePositiveInt_rule (.inl ⟨⟨_, rfl⟩, _, rfl⟩) fun b hb htext => ?_
  subst htext
  refine sh_rule (.inl ⟨⟨_, rfl⟩, _, rfl⟩) fun totalText htotal => ?_
  refine requirePositiveInt_rule (.inl ⟨⟨_, rfl⟩, _, rfl⟩) fun t ht htext => ?_
  subst htext
  dsimp only
  rw [num_dec n, num_dec b, num_dec t]
  split_ifs with hfull
  · exact .inl ⟨⟨_, rfl⟩, _, rfl⟩
  refine .inr ⟨n, b, t, Migrate.targetBlocks n, Migrate.regionBytes (Migrate.targetBlocks n) b,
    hn, hb, ht, hmin, hbs, htotal, lt_targetBlocks n, Dvd.intro_left _ rfl, le_regionBytes _ _,
    ?_, not_lt.mp hfull, ?_⟩
  · exact (regionBytes_lt _ _).trans_le (by simp [headerRoom, headerRoomMib, align]; omega)
  · exact noted_sh_sh _ _ _

/-! ## The discard -/

/-- A discard that starts at the end of the mapped filesystem, and ends with a device whose
size is printed as a numeral. -/
def Tail (answer : (c : Cmd) → Option (Answer c)) (offset length : ℕ) : Prop :=
  ∃ o b n : ℕ, 0 < o ∧ 0 < b ∧ 0 < n ∧
    answer .statusOffset = some (dec o) ∧ answer (.blockSize .scratch) = some (dec b) ∧
    answer (.blockCount .scratch) = some (dec n) ∧
    offset = o * sectorBytes + n * b ∧
    ∀ t, answer .getsize64 = some (dec t) → offset + length = t

/-- Every discard of a run is of the tail. -/
def OnlyTail (answer : (c : Cmd) → Option (Answer c)) {β : Type} (run : β × List Cmd) : Prop :=
  ∀ offset length, Cmd.blkdiscard offset length ∈ run.2 → Tail answer offset length

theorem OnlyTail.concat {β γ : Type} {a : β} {b : γ} {c : Cmd} (h : OnlyTail answer (a, log))
    (hc : ∀ offset length, c ≠ .blkdiscard offset length) : OnlyTail answer (b, log ++ [c]) := by
  intro offset length hmem
  rcases List.mem_append.mp hmem with hmem | hmem
  · exact h offset length hmem
  · exact absurd (List.mem_singleton.mp hmem).symm (hc offset length)

theorem onlyTail_sh {c : Cmd} (h : OnlyTail answer ((), log))
    (hc : ∀ offset length, c ≠ .blkdiscard offset length) :
    OnlyTail answer ((sh c).interp (logged answer) log) := by
  have hconcat : ∀ r : Except ℕ (Answer c), OnlyTail answer (r, log ++ [c]) := fun r => h.concat hc
  simp only [sh, cmd, interp, logged]
  cases answer c with
  | none => exact hconcat _
  | some a => exact hconcat _

theorem onlyTail_grow (h : OnlyTail answer ((), log)) :
    OnlyTail answer (((fsckOk .scratch).bind fun _ => sh (.resize2fs .scratch none)).interp
      (logged answer) log) := by
  refine fsckOk_rule (h.concat (by simp)) (onlyTail_sh (h.concat (by simp)) (by simp))

/-- On a numeral the length is what is left of the device. -/
theorem tail_add_length {tail : ℕ} {text : PyStr} {total : Int64} (htail : tail < 2 ^ 63)
    (ht : t < 2 ^ 62) (htext : text = dec t) (hless : testLess (Int64.ofNat tail) text = true)
    (harith : arithmetic text = some total) :
    tail + (total - Int64.ofNat tail).toInt.toNat = t := by
  subst htext
  rw [testLess_dec htail (by omega), lessThan_dec, decide_eq_true_eq] at hless
  rw [arithmetic_dec (by omega), Option.some.injEq] at harith
  rw [← harith, ← Int64.ofNat_sub _ _ hless.le, Int64.toInt_ofNat_of_lt (by omega)]
  omega

/-- The subshell of `finalize`: within range, and on a device whose size is printed as a
numeral, bash runs what the exact script runs. -/
theorem interp_discardAndGrow (h : InRange answer)
    (hnumeral : ∀ text, answer .getsize64 = some text → ∃ t, text = dec t) :
    discardAndGrow.interp (logged answer) log =
      Migrate.discardAndGrow.interp (logged answer) log := by
  unfold discardAndGrow Migrate.discardAndGrow
  refine interp_bind_congr fun offsetText _ hoffsetText => ?_
  refine interp_bind_congr fun _ _ hoffsetCheck => ?_
  refine interp_bind_congr fun bsText _ hbsText => ?_
  refine interp_bind_congr fun _ _ hbsCheck => ?_
  refine interp_bind_congr fun blocksText _ hblocksText => ?_
  refine interp_bind_congr fun _ _ hblocksCheck => ?_
  refine interp_bind_congr fun totalText _ htotalText => ?_
  obtain ⟨⟨o, -, rfl⟩, -⟩ := interp_requirePositiveInt hoffsetCheck
  obtain ⟨⟨b, -, rfl⟩, -⟩ := interp_requirePositiveInt hbsCheck
  obtain ⟨⟨n, -, rfl⟩, -⟩ := interp_requirePositiveInt hblocksCheck
  obtain ⟨t, rfl⟩ := hnumeral _ (interp_sh htotalText).1
  have hoffset := h.offset o (interp_sh hoffsetText).1
  have hfs := h.filesystem n b (interp_sh hblocksText).1 (interp_sh hbsText).1
  have htotal := h.device t (interp_sh htotalText).1
  have htail : o * sectorBytes + n * b < 2 ^ 63 := by omega
  rw [num_dec o, num_dec n, num_dec b, num_dec t, ← Int64.ofNat_mul, ← Int64.ofNat_mul,
    ← Int64.ofNat_add, testLess_dec htail (by omega)]
  split_ifs with hless
  · rw [lessThan_dec, decide_eq_true_eq] at hless
    rw [arithmetic_dec (by omega)]
    dsimp only
    rw [← Int64.ofNat_sub _ _ hless.le, giving_ofNat htail, giving_ofNat (by omega)]
  · rfl

/-- **Finalizing.**  Bash runs what the exact script runs. -/
theorem interp_finalize (h : InRange answer)
    (hnumeral : ∀ text, answer .getsize64 = some text → ∃ t, text = dec t) :
    (finalize key).interp (logged answer) log =
      (Migrate.finalize key).interp (logged answer) log := by
  unfold finalize Migrate.finalize
  refine interp_bind_congr fun _ _ _ => ?_
  have hcaught : ∀ log', discardAndGrow.caught.interp (logged answer) log' =
      Migrate.discardAndGrow.caught.interp (logged answer) log' := by
    intro log'
    rw [interp_caught, interp_caught, interp_discardAndGrow h hnumeral]
  rw [bind_eq, bind_eq, interp_bind, interp_bind]
  exact hcaught _ ▸ rfl

theorem onlyTail_discardAndGrow (h : InRange answer) (hlog : OnlyTail answer ((), log)) :
    OnlyTail answer (discardAndGrow.interp (logged answer) log) := by
  unfold discardAndGrow
  refine sh_rule (hlog.concat (by simp)) fun offsetText hoffset => ?_
  have hlog := hlog.concat (b := ()) (c := .statusOffset) (by simp)
  refine requirePositiveInt_rule hlog fun o ho htext => ?_
  subst htext
  refine sh_rule (hlog.concat (by simp)) fun bsText hbs => ?_
  have hlog := hlog.concat (b := ()) (c := .blockSize .scratch) (by simp)
  refine requirePositiveInt_rule hlog fun b hb htext => ?_
  subst htext
  refine sh_rule (hlog.concat (by simp)) fun blocksText hblocks => ?_
  have hlog := hlog.concat (b := ()) (c := .blockCount .scratch) (by simp)
  refine requirePositiveInt_rule hlog fun n hn htext => ?_
  subst htext
  refine sh_rule (hlog.concat (by simp)) fun totalText htotal => ?_
  have hlog := hlog.concat (b := ()) (c := .getsize64) (by simp)
  rw [num_dec o, num_dec n, num_dec b, ← Int64.ofNat_mul, ← Int64.ofNat_mul, ← Int64.ofNat_add]
  have hoffset' := h.offset o hoffset
  have hfs := h.filesystem n b hblocks hbs
  have htail : o * sectorBytes + n * b < 2 ^ 63 := by omega
  split_ifs with hless
  · cases harith : arithmetic totalText with
    | none => exact hlog
    | some total =>
      dsimp only
      rw [giving_ofNat htail]
      unfold giving
      split_ifs with hnegative
      · exact hlog
      refine sh_rule ?_ fun _ _ => onlyTail_grow ?_
      all_goals
        intro offset length hmem
        rcases List.mem_append.mp hmem with hmem | hmem
        · exact hlog offset length hmem
        obtain ⟨rfl, rfl⟩ := Cmd.blkdiscard.inj (List.mem_singleton.mp hmem)
        refine ⟨o, b, n, ho, hb, hn, hoffset, hbs, hblocks, rfl, fun t ht => ?_⟩
        exact tail_add_length htail (h.device t ht) (Option.some.inj (htotal.symm.trans ht)) hless harith
  · exact onlyTail_grow hlog

theorem onlyTail_finalize (key : PyStr) (h : InRange answer) :
    OnlyTail answer ((finalize key).interp (logged answer) []) := by
  have hnone : OnlyTail answer ((), []) := fun _ _ hmem => by simp at hmem
  refine sh_rule (hnone.concat (by simp)) fun _ _ => ?_
  have hdiscard := onlyTail_discardAndGrow h (hnone.concat (b := ()) (c := .openScratch key) (by simp))
  rw [bind_eq, interp_bind, interp_caught]
  dsimp only
  generalize discardAndGrow.interp (logged answer) _ = run at hdiscard
  obtain ⟨rc, log⟩ := run
  refine sh_rule (hdiscard.concat (by simp)) fun _ _ => ?_
  have hclosed := hdiscard.concat (b := ()) (c := .closeScratch) (by simp)
  cases rc with
  | error e => exact hclosed
  | ok _ => exact onlyTail_sh hclosed (by simp)

/-- What was run stays noted. -/
theorem mem_interp {β : Type} (p : Sh β) {log : List Cmd} {c : Cmd} (h : c ∈ log) :
    c ∈ (p.interp (logged answer) log).2 := by
  induction p generalizing log with
  | ret a => exact h
  | throw e => exact h
  | exec c' k ih => exact ih _ (List.mem_append_left _ h)

theorem sh_bind_of_answer {β : Type} {c : Cmd} {a : Answer c} (h : answer c = some a)
    (f : Answer c → Sh β) (log : List Cmd) :
    ((sh c).bind f).interp (logged answer) log = (f a).interp (logged answer) (log ++ [c]) := by
  simp only [sh, cmd, exec_bind, interp, logged, h, ret_bind]

theorem requirePositiveInt_dec {n : ℕ} (hn : 0 < n) : requirePositiveInt (dec n) = .ret () :=
  if_pos (isPositiveInt_dec hn)

/-- The tail is discarded when there is one. -/
theorem discards_tail {o b n t : ℕ} (h : InRange answer) (ho : 0 < o) (hb : 0 < b) (hn : 0 < n)
    (hopen : answer (.openScratch key) = some ())
    (hoffset : answer .statusOffset = some (dec o))
    (hbs : answer (.blockSize .scratch) = some (dec b))
    (hblocks : answer (.blockCount .scratch) = some (dec n))
    (htotal : answer .getsize64 = some (dec t)) (htail : o * sectorBytes + n * b < t) :
    .blkdiscard (o * sectorBytes + n * b) (t - (o * sectorBytes + n * b)) ∈
      ((finalize key).interp (logged answer) []).2 := by
  have ht := h.device t htotal
  have hless : testLess (Int64.ofNat (o * sectorBytes + n * b)) (dec t) = true := by
    rw [testLess_dec (by omega) (by omega), lessThan_dec, decide_eq_true htail]
  have hgrow : Cmd.blkdiscard (o * sectorBytes + n * b) (t - (o * sectorBytes + n * b)) ∈
      (discardAndGrow.interp (logged answer) [.openScratch key]).2 := by
    unfold discardAndGrow
    simp only [bind_eq, sh_bind_of_answer hoffset, sh_bind_of_answer hbs, sh_bind_of_answer hblocks,
      sh_bind_of_answer htotal, requirePositiveInt_dec ho, requirePositiveInt_dec hb,
      requirePositiveInt_dec hn, ret_bind, num_dec]
    rw [← Int64.ofNat_mul, ← Int64.ofNat_mul, ← Int64.ofNat_add, if_pos hless,
      arithmetic_dec (by omega)]
    dsimp only
    rw [giving_ofNat (by omega), ← Int64.ofNat_sub _ _ htail.le, giving_ofNat (by omega)]
    exact sh_rule (P := fun run => _ ∈ run.2) (by simp) fun _ _ => mem_interp _ (by simp)
  unfold finalize
  rw [bind_eq, sh_bind_of_answer hopen, bind_eq, interp_bind, interp_caught]
  exact mem_interp _ hgrow

/-- **The numbers of the encryption.**  Whatever the tools print, within range, `encrypt`
shrinks and encrypts with numbers that fit together or ends before it changes anything, and
`finalize` discards only the tail of the device; and it does discard it. -/
theorem numbers_fit (key : PyStr) (h : InRange answer)
    (hmin : ∀ n, answer .resize2fsMinimum = some (dec n) → n * headroomPercent < 2 ^ 63) :
    Checked answer key ((encrypt key).interp (logged answer) []) ∧
      OnlyTail answer ((finalize key).interp (logged answer) []) ∧
      ∀ o b n t, 0 < o → 0 < b → 0 < n → answer (.openScratch key) = some () →
        answer .statusOffset = some (dec o) → answer (.blockSize .scratch) = some (dec b) →
        answer (.blockCount .scratch) = some (dec n) → answer .getsize64 = some (dec t) →
        o * sectorBytes + n * b < t →
        .blkdiscard (o * sectorBytes + n * b) (t - (o * sectorBytes + n * b)) ∈
          ((finalize key).interp (logged answer) []).2 := by
  refine ⟨?_, onlyTail_finalize key h, ?_⟩
  · rw [interp_encrypt h hmin]
    exact checked_encrypt answer key
  · intro o b n t ho hb hn hopen hoffset hbs hblocks htotal htail
    exact discards_tail h ho hb hn hopen hoffset hbs hblocks htotal htail

theorem eq_num_of_dec {text : PyStr} (h : text = dec n) : n = num text := by
  rw [h, num_dec]

/-- The tools over a device of 1 GiB with a filesystem of blocks of 4 KiB. -/
def usualSize : (c : Cmd) → Option (Answer c)
  | .e2fsck _ => some (0 : ℕ)
  | .resize2fsMinimum => some (lit "100000")
  | .blockSize _ => some (lit "4096")
  | .blockCount _ => some (lit "200000")
  | .statusOffset => some (lit "32768")
  | .getsize64 => some (lit "1073741824")
  | .openScratch _ => some ()
  | _ => none

theorem inRange_usualSize : InRange usualSize where
  shrunken := by
    intro n b hn hb
    rw [eq_num_of_dec (Option.some.inj hn), eq_num_of_dec (Option.some.inj hb)]
    decide
  device := by
    intro t ht
    rw [eq_num_of_dec (Option.some.inj ht)]
    decide
  readable := by
    intro text t htext ht
    rw [← Option.some.inj htext] at ht
    have hread : testNumber (lit "1073741824") = some 1073741824 := by decide
    rw [← Option.some.inj (hread.symm.trans ht)]
    norm_num
  offset := by
    intro o ho
    rw [eq_num_of_dec (Option.some.inj ho)]
    decide
  filesystem := by
    intro n b hn hb
    rw [eq_num_of_dec (Option.some.inj hn), eq_num_of_dec (Option.some.inj hb)]
    decide

theorem numbers_fit_sample :
    Checked usualSize [] ((encrypt []).interp (logged usualSize) []) ∧
      OnlyTail usualSize ((finalize []).interp (logged usualSize) []) := by
  have hmin : ∀ n, usualSize .resize2fsMinimum = some (dec n) → n * headroomPercent < 2 ^ 63 := by
    intro n hn
    rw [eq_num_of_dec (Option.some.inj hn)]
    decide
  have hfit := numbers_fit [] inRange_usualSize hmin
  exact ⟨hfit.1, hfit.2.1⟩

/-- The tools over a filesystem whose blocks are one byte long. -/
def tinyBlocks : (c : Cmd) → Option (Answer c)
  | .e2fsck _ => some (0 : ℕ)
  | .resize2fsMinimum => some (lit "2305843009213693952")
  | .blockSize _ => some (lit "1")
  | .getsize64 => some (lit "4611686018427387903")
  | .resize2fs _ _ => some ()
  | .reencrypt _ _ => some ()
  | _ => none

/-- The tools over a device whose size is printed with a leading zero. -/
def paddedSize : (c : Cmd) → Option (Answer c)
  | .openScratch _ => some ()
  | .statusOffset => some (lit "1")
  | .blockSize _ => some (lit "1")
  | .blockCount _ => some (lit "1")
  | .getsize64 => some (lit "02000")
  | .blkdiscard _ _ => some ()
  | _ => none

theorem inRange_tinyBlocks : InRange tinyBlocks where
  shrunken := by
    intro n b hn hb
    rw [eq_num_of_dec (Option.some.inj hn), eq_num_of_dec (Option.some.inj hb)]
    decide
  device := by
    intro t ht
    rw [eq_num_of_dec (Option.some.inj ht)]
    decide
  readable := by
    intro text t htext ht
    rw [← Option.some.inj htext] at ht
    have hread : testNumber (lit "4611686018427387903") = some 4611686018427387903 := by decide
    rw [← Option.some.inj (hread.symm.trans ht)]
    norm_num
  offset := fun o ho => by simp [tinyBlocks] at ho
  filesystem := fun n b hn _ => by simp [tinyBlocks] at hn

theorem inRange_paddedSize : InRange paddedSize where
  shrunken := fun n b hn _ => by simp [paddedSize] at hn
  device := by
    intro t ht
    rw [eq_num_of_dec (Option.some.inj ht)]
    decide
  readable := by
    intro text t htext ht
    rw [← Option.some.inj htext] at ht
    have hread : testNumber (lit "02000") = some 2000 := by decide
    rw [← Option.some.inj (hread.symm.trans ht)]
    norm_num
  offset := by
    intro o ho
    rw [eq_num_of_dec (Option.some.inj ho)]
    decide
  filesystem := by
    intro n b hn hb
    rw [eq_num_of_dec (Option.some.inj hn), eq_num_of_dec (Option.some.inj hb)]
    decide

theorem encrypt_tinyBlocks :
    (encrypt []).interp (logged tinyBlocks) [] =
      (.ok (), looked ++ [.resize2fs .disk (some 2236667718937283135),
        .reencrypt [] 2236667718973521920]) := by
  rfl

theorem finalize_paddedSize :
    Cmd.blkdiscard 513 511 ∈ ((finalize []).interp (logged paddedSize) []).2 := by
  decide

/-- **The range of the shell.**  With blocks of one byte `encrypt` shrinks below the
minimum; with a leading zero `finalize` leaves a part of the tail. -/
theorem numbers_may_not_fit :
    (InRange tinyBlocks ∧ ¬ Checked tinyBlocks [] ((encrypt []).interp (logged tinyBlocks) [])) ∧
      InRange paddedSize ∧ ∃ (offset length : ℕ) (text : PyStr) (t : ℤ),
        .blkdiscard offset length ∈ ((finalize []).interp (logged paddedSize) []).2 ∧
          paddedSize .getsize64 = some text ∧ testNumber text = some t ∧ offset + length < t := by
  refine ⟨⟨inRange_tinyBlocks, ?_⟩, inRange_paddedSize, 513, 511, lit "02000", 2000,
    finalize_paddedSize, rfl, by decide, by norm_num⟩
  rw [encrypt_tinyBlocks]
  rintro (⟨⟨e, he⟩, -⟩ | ⟨n, b, t, target, region, -, -, -, hn, -, -, hlt, -, -, -, -, rest, hrun, -⟩)
  · cases he
  · have hmin := eq_num_of_dec (Option.some.inj hn)
    simp only [looked, List.cons_append, List.nil_append, List.cons.injEq, Cmd.resize2fs.injEq,
      Option.some.injEq, true_and] at hrun
    have hnum : num (lit "2305843009213693952") = 2305843009213693952 := by decide
    rw [hmin, hnum, ← hrun.1] at hlt
    norm_num at hlt

end Migrate.Bash
