/-
# What is read of an agent's reply

Each reader has three facts: what it accepts was written there (`_sound`), what was written
there it accepts (`_complete`), and when it gives up it says that the message is truncated
(`_error`).  From these: the replies that an agent may send are read back however the
socket cuts them, and no bytes beyond a frame are read.
-/
import Yolobox.Agent.Protocol

open Wire

namespace Agent

/-! ## Calls one after another -/

section binds

variable {α β : Type} {x : Py α} {f : α → Py β} {b : β} {e : Raised}

theorem bind_eq_ok : (x >>= f) = .ok b ↔ ∃ a, x = .ok a ∧ f a = .ok b := by
  cases x with
  | error raised => exact ⟨nofun, fun ⟨_, h, _⟩ => nomatch h⟩
  | ok a => exact ⟨fun h => ⟨a, rfl, h⟩, fun ⟨_, ha, h⟩ => Except.ok.inj ha ▸ h⟩

theorem bind_eq_error : (x >>= f) = .error e ↔ x = .error e ∨ ∃ a, x = .ok a ∧ f a = .error e := by
  cases x with
  | error raised =>
    refine ⟨fun h => .inl (congrArg _ (Except.error.inj h)), ?_⟩
    rintro (h | ⟨_, h, _⟩)
    · exact congrArg _ (Except.error.inj h)
    · cases h
  | ok a =>
    refine ⟨fun h => .inr ⟨a, rfl, h⟩, ?_⟩
    rintro (h | ⟨_, ha, h⟩)
    · cases h
    · exact Except.ok.inj ha ▸ h

end binds

/-! ## One string -/

section strings

variable {buf data raw post : Bytes} {pos stop : ℕ} {e : Raised}

/-- The length that stands at an offset. -/
def lengthAt (buf : Bytes) (pos : ℕ) : ℕ := ofBytes ((buf.take (pos + 4)).drop pos)

theorem slice_eq {start : ℕ} (hstart : start ≤ stop) (hstop : stop ≤ buf.length) :
    slice buf start stop = .ok ((buf.take stop).drop start) := if_pos ⟨hstart, hstop⟩

theorem unpack_head (h : pos + 4 ≤ buf.length) :
    unpack ((buf.take (pos + 4)).drop pos) = .ok (lengthAt buf pos) := by
  refine if_pos ?_
  rw [List.length_drop, List.length_take]
  omega

theorem lengthAt_lt (h : pos + 4 ≤ buf.length) : lengthAt buf pos < 2 ^ 32 := by
  refine ofBytes_lt ?_
  rw [List.length_drop, List.length_take]
  omega

/-- **What `read_ssh_string` does**: the string that stands at the offset, if it ends in time. -/
theorem readSshString_eq (buf : Bytes) (pos : ℕ) :
    readSshString buf pos =
      if pos + 4 ≤ buf.length ∧ pos + 4 + lengthAt buf pos ≤ buf.length then
        .ok ((buf.take (pos + 4 + lengthAt buf pos)).drop (pos + 4), pos + 4 + lengthAt buf pos)
      else .error truncated := by
  unfold readSshString
  by_cases hhead : pos + 4 ≤ buf.length
  · rw [if_neg (by omega), slice_eq (by omega) hhead]
    show (unpack _ >>= _) = _
    rw [unpack_head hhead]
    show (if pos + 4 + lengthAt buf pos > buf.length then _ else _) = _
    by_cases hstop : pos + 4 + lengthAt buf pos ≤ buf.length
    · rw [if_neg (by omega), slice_eq (by omega) hstop, if_pos ⟨hhead, hstop⟩]
      rfl
    · rw [if_pos (by omega), if_neg (by omega)]
      rfl
  · rw [if_pos (by omega), if_neg (by omega)]
    rfl

theorem readSshString_error (h : readSshString buf pos = .error e) : e = truncated := by
  rw [readSshString_eq] at h
  split_ifs at h
  cases h
  rfl

theorem take_eq {start : ℕ} (h : start ≤ stop) :
    buf.take stop = buf.take start ++ (buf.take stop).drop start := by
  have hsplit := List.take_append_drop start (buf.take stop)
  rwa [List.take_take, min_eq_left h, eq_comm] at hsplit

/-- What is accepted was written there. -/
theorem readSshString_sound (h : readSshString buf pos = .ok (data, stop)) :
    stop ≤ buf.length ∧ buf.take stop = buf.take pos ++ field data := by
  rw [readSshString_eq] at h
  split_ifs at h with hfits
  · obtain ⟨rfl, rfl⟩ := Prod.mk.inj (Except.ok.inj h)
    refine ⟨hfits.2, ?_⟩
    have hlength : ((buf.take (pos + 4 + lengthAt buf pos)).drop (pos + 4)).length = lengthAt buf pos := by
      rw [List.length_drop, List.length_take]
      omega
    have hword : u32 (lengthAt buf pos) = (buf.take (pos + 4)).drop pos := by
      refine u32_ofBytes ?_
      rw [List.length_drop, List.length_take]
      omega
    rw [field, hlength, hword, ← List.append_assoc, ← take_eq (by omega), ← take_eq (by omega)]

theorem lengthAt_append (hdata : data.length < 2 ^ 32) (pre post : Bytes) :
    lengthAt (pre ++ field data ++ post) pre.length = data.length := by
  have hword : pre ++ field data ++ post = (pre ++ u32 data.length) ++ (data ++ post) := by
    simp only [field, List.append_assoc]
  have hlength : pre.length + 4 = (pre ++ u32 data.length).length := by simp
  rw [lengthAt, hword, hlength, List.take_left, List.drop_left, ofBytes_u32 hdata]

/-- What was written there is accepted. -/
theorem readSshString_complete (hdata : data.length < 2 ^ 32) (pre post : Bytes) :
    readSshString (pre ++ field data ++ post) pre.length =
      .ok (data, (pre ++ field data).length) := by
  have hstop : pre.length + 4 + data.length = (pre ++ field data).length := by
    simp only [List.length_append, length_field]
    omega
  have hhead : pre.length + 4 = (pre ++ u32 data.length).length := by simp
  have hdrop : (pre ++ field data).drop (pre.length + 4) = data := by
    rw [hhead, field, ← List.append_assoc, List.drop_left]
  rw [readSshString_eq, lengthAt_append hdata, if_pos, hstop, List.take_left, hdrop]
  simp only [List.length_append, length_field]
  omega

end strings

/-! ## The key listing -/

section identities

variable {body : Bytes} {pos count : ℕ} {e : Raised} {identities : List (Bytes × PyStr)}
  {pairs : List (Bytes × Bytes)}

/-- A key and its comment, as bytes. -/
def pairFields (pair : Bytes × Bytes) : Bytes := field pair.1 ++ field pair.2

/-- The key and the comment's text. -/
def identityOf (pair : Bytes × Bytes) : Bytes × PyStr := (pair.1, Utf8.decodeReplace pair.2)

theorem identitiesFrom_error (h : identitiesFrom body count pos = .error e) : e = truncated := by
  induction count generalizing pos with
  | zero => cases h
  | succ count ih =>
    rcases bind_eq_error.mp h with h | ⟨⟨blob, next⟩, -, h⟩
    · exact readSshString_error h
    rcases bind_eq_error.mp h with h | ⟨⟨comment, next⟩, -, h⟩
    · exact readSshString_error h
    rcases bind_eq_error.mp h with h | ⟨rest, -, h⟩
    · exact ih h
    · cases h

/-- What is accepted was written there, one field after another. -/
theorem identitiesFrom_sound (hpos : pos ≤ body.length)
    (h : identitiesFrom body count pos = .ok identities) :
    ∃ (pairs : List (Bytes × Bytes)) (stop : ℕ), pairs.length = count ∧ identities = pairs.map identityOf ∧ stop ≤ body.length ∧
      body.take stop = body.take pos ++ pairs.flatMap pairFields := by
  induction count generalizing pos identities with
  | zero =>
    obtain rfl := Except.ok.inj h
    exact ⟨[], pos, rfl, rfl, hpos, by simp⟩
  | succ count ih =>
    obtain ⟨⟨blob, next⟩, hblob, h⟩ := bind_eq_ok.mp h
    obtain ⟨⟨comment, start⟩, hcomment, h⟩ := bind_eq_ok.mp h
    obtain ⟨rest, hrest, h⟩ := bind_eq_ok.mp h
    obtain rfl := Except.ok.inj h
    have htake := (readSshString_sound hblob).2
    obtain ⟨hstart, htake'⟩ := readSshString_sound hcomment
    obtain ⟨pairs, stop, hlength, rfl, hstop, hpairs⟩ := ih hstart hrest
    refine ⟨(blob, comment) :: pairs, stop, by rw [List.length_cons, hlength], rfl, hstop, ?_⟩
    rw [hpairs, htake', htake, List.flatMap_cons, pairFields]
    simp only [List.append_assoc]

/-- What was written there is accepted. -/
theorem identitiesFrom_complete
    (hpairs : ∀ pair ∈ pairs, pair.1.length < 2 ^ 32 ∧ pair.2.length < 2 ^ 32) (pre post : Bytes) :
    identitiesFrom (pre ++ pairs.flatMap pairFields ++ post) pairs.length pre.length =
      .ok (pairs.map identityOf) := by
  induction pairs generalizing pre with
  | nil => rfl
  | cons pair pairs ih =>
    rw [List.forall_mem_cons] at hpairs
    have hbody : pre ++ (pair :: pairs).flatMap pairFields ++ post =
        pre ++ field pair.1 ++ (field pair.2 ++ pairs.flatMap pairFields ++ post) := by
      simp only [List.flatMap_cons, pairFields, List.append_assoc]
    have hbody' : pre ++ (pair :: pairs).flatMap pairFields ++ post =
        pre ++ field pair.1 ++ field pair.2 ++ (pairs.flatMap pairFields ++ post) := by
      simp only [List.flatMap_cons, pairFields, List.append_assoc]
    have hbody'' : pre ++ (pair :: pairs).flatMap pairFields ++ post =
        pre ++ field pair.1 ++ field pair.2 ++ pairs.flatMap pairFields ++ post := by
      simp only [List.flatMap_cons, pairFields, List.append_assoc]
    have hblob := readSshString_complete hpairs.1.1 pre (field pair.2 ++ pairs.flatMap pairFields ++ post)
    have hcomment := readSshString_complete hpairs.1.2 (pre ++ field pair.1)
      (pairs.flatMap pairFields ++ post)
    have hrest := ih hpairs.2 (pre ++ field pair.1 ++ field pair.2)
    rw [← hbody] at hblob
    rw [← hbody'] at hcomment
    rw [← hbody''] at hrest
    exact bind_eq_ok.mpr ⟨_, hblob, bind_eq_ok.mpr ⟨_, hcomment, bind_eq_ok.mpr ⟨_, hrest, rfl⟩⟩⟩

theorem parseAgentIdentities_eq (body : Bytes) :
    parseAgentIdentities body =
      if 4 ≤ body.length then identitiesFrom body (lengthAt body 0) 4 else .error truncated := by
  unfold parseAgentIdentities
  by_cases hhead : 4 ≤ body.length
  · rw [if_neg (by omega), slice_eq (by omega) hhead, if_pos hhead]
    show (unpack ((body.take (0 + 4)).drop 0) >>= _) = _
    rw [unpack_head (by omega)]
    rfl
  · rw [if_pos (by omega), if_neg hhead]
    rfl

theorem parseAgentIdentities_error (h : parseAgentIdentities body = .error e) : e = truncated := by
  rw [parseAgentIdentities_eq] at h
  split_ifs at h
  · exact identitiesFrom_error h
  · cases h
    rfl

/-- The body of a key listing. -/
def identitiesBody (pairs : List (Bytes × Bytes)) : Bytes :=
  u32 pairs.length ++ pairs.flatMap pairFields

theorem lengthAt_zero (hhead : 4 ≤ body.length) : u32 (lengthAt body 0) = body.take 4 := by
  have hlength : ((body.take (0 + 4)).drop 0).length = 4 := by simpa using hhead
  exact u32_ofBytes hlength

/-- **A listing that is accepted is one**, with nothing but bytes behind it. -/
theorem parseAgentIdentities_sound (h : parseAgentIdentities body = .ok identities) :
    ∃ (pairs : List (Bytes × Bytes)) (tail : Bytes),
      identities = pairs.map identityOf ∧ body = identitiesBody pairs ++ tail := by
  rw [parseAgentIdentities_eq] at h
  split_ifs at h with hhead
  obtain ⟨pairs, stop, hlength, hidentities, -, htake⟩ := identitiesFrom_sound hhead h
  refine ⟨pairs, body.drop stop, hidentities, ?_⟩
  rw [identitiesBody, hlength, lengthAt_zero hhead, ← htake, List.take_append_drop]

/-- **A listing is accepted**, whatever is behind it. -/
theorem parseAgentIdentities_complete (hcount : pairs.length < 2 ^ 32)
    (hpairs : ∀ pair ∈ pairs, pair.1.length < 2 ^ 32 ∧ pair.2.length < 2 ^ 32) (tail : Bytes) :
    parseAgentIdentities (identitiesBody pairs ++ tail) = .ok (pairs.map identityOf) := by
  have hlength : lengthAt (identitiesBody pairs ++ tail) 0 = pairs.length := ofBytes_u32 hcount
  have hhead : 4 ≤ (identitiesBody pairs ++ tail).length := by
    simp only [identitiesBody, List.length_append, length_u32]
    omega
  rw [parseAgentIdentities_eq, if_pos hhead, hlength]
  exact identitiesFrom_complete hpairs (u32 pairs.length) tail

end identities

/-! ## Signatures -/

section signatures

variable {body raw : Bytes} {e : Raised}

/-- The body of a signature, with what may stand behind its fields. -/
def signatureBody (raw inner outer : Bytes) : Bytes :=
  field (field (ascii "ssh-ed25519") ++ field raw ++ inner) ++ outer

theorem checkSignature_error {algorithm : Bytes} (h : checkSignature algorithm raw = .error e) :
    e.IsYoError := by
  unfold checkSignature at h
  split_ifs at h <;> cases h <;> trivial

theorem checkSignature_ok {algorithm signature : Bytes} (h : checkSignature algorithm raw = .ok signature) :
    signature = raw ∧ algorithm = ascii "ssh-ed25519" ∧ raw.length = ED25519_SIGNATURE_LENGTH := by
  unfold checkSignature at h
  split_ifs at h with halgorithm hlength
  cases h
  exact ⟨rfl, not_not.mp halgorithm, not_not.mp hlength⟩

theorem parseAgentSignature_error (h : parseAgentSignature body = .error e) : e.IsYoError := by
  rcases bind_eq_error.mp h with h | ⟨⟨signature, _⟩, -, h⟩
  · rw [readSshString_error h]
    trivial
  rcases bind_eq_error.mp h with h | ⟨⟨algorithm, pos⟩, -, h⟩
  · rw [readSshString_error h]
    trivial
  rcases bind_eq_error.mp h with h | ⟨⟨raw, _⟩, -, h⟩
  · rw [readSshString_error h]
    trivial
  · exact checkSignature_error h

theorem field_of_readSshString {buf data : Bytes} {stop : ℕ}
    (h : readSshString buf 0 = .ok (data, stop)) : buf = field data ++ buf.drop stop := by
  have htake := (readSshString_sound h).2
  rw [List.take_zero, List.nil_append] at htake
  rw [← htake, List.take_append_drop]

/-- **A signature that is accepted is one**, of 64 bytes. -/
theorem parseAgentSignature_sound (h : parseAgentSignature body = .ok raw) :
    raw.length = ED25519_SIGNATURE_LENGTH ∧ ∃ inner outer, body = signatureBody raw inner outer := by
  obtain ⟨⟨signature, stop⟩, hsignature, h⟩ := bind_eq_ok.mp h
  obtain ⟨⟨algorithm, pos⟩, halgorithm, h⟩ := bind_eq_ok.mp h
  obtain ⟨⟨bytes, last⟩, hraw, h⟩ := bind_eq_ok.mp h
  obtain ⟨rfl, rfl, hlength⟩ := checkSignature_ok h
  refine ⟨hlength, signature.drop last, body.drop stop, ?_⟩
  have hinner : signature = field (ascii "ssh-ed25519") ++ field raw ++ signature.drop last := by
    have htake := (readSshString_sound halgorithm).2
    have htake' := (readSshString_sound hraw).2
    rw [List.take_zero, List.nil_append] at htake
    rw [htake] at htake'
    rw [← htake', List.take_append_drop]
  rw [signatureBody, ← hinner]
  exact field_of_readSshString hsignature

/-- **A signature is accepted.** -/
theorem parseAgentSignature_complete (hraw : raw.length = ED25519_SIGNATURE_LENGTH)
    {inner outer : Bytes}
    (hinner : (field (ascii "ssh-ed25519") ++ field raw ++ inner).length < 2 ^ 32) :
    parseAgentSignature (signatureBody raw inner outer) = .ok raw := by
  have hshort : raw.length < 2 ^ 32 := by
    rw [hraw]
    decide
  have hbody := readSshString_complete hinner [] outer
  have halgorithm := readSshString_complete (show (ascii "ssh-ed25519").length < 2 ^ 32 by decide) []
    (field raw ++ inner)
  have hbytes := readSshString_complete hshort (field (ascii "ssh-ed25519")) inner
  rw [List.nil_append, ← List.append_assoc] at halgorithm
  refine bind_eq_ok.mpr ⟨_, hbody, bind_eq_ok.mpr ⟨_, halgorithm, bind_eq_ok.mpr ⟨_, hbytes, ?_⟩⟩⟩
  show checkSignature _ raw = .ok raw
  rw [checkSignature, if_neg (not_not.mpr rfl), if_neg (not_not.mpr hraw)]

end signatures

/-! ## Receiving -/

section receiving

variable {conn conn' : Socket} {count : ℕ} {bytes : Bytes} {e : Raised}

theorem recvExact_zero (conn : Socket) : recvExact conn 0 = .ok ([], conn) := by
  rw [recvExact, if_pos rfl]

/-- Nothing is received, or a first piece is. -/
theorem recvExact_pos (hcount : count ≠ 0) :
    (∃ failure, recvExact conn count = .error (.osError failure)) ∨
      ∃ b bs next, conn.recv count = .ok (b :: bs, next) := by
  rw [recvExact, if_neg hcount]
  cases hrecv : conn.recv count with
  | error failure => exact .inl ⟨failure, rfl⟩
  | ok piece =>
    obtain ⟨_ | ⟨b, bs⟩, next⟩ := piece
    · exact .inl ⟨connectionClosed, rfl⟩
    · exact .inr ⟨b, bs, next, rfl⟩

/-- The first piece goes in front of the rest. -/
theorem recvExact_recv {b : Byte} {bs : Bytes} {next : Socket} (hcount : count ≠ 0)
    (hrecv : conn.recv count = .ok (b :: bs, next)) :
    recvExact conn count =
      recvExact next (count - (bs.length + 1)) >>= fun got => .ok (b :: bs ++ got.1, got.2) := by
  have hunfold := (recvExact.eq_1 conn count).trans (if_neg hcount)
  rw [hrecv] at hunfold
  exact hunfold

theorem recvExact_error (h : recvExact conn count = .error e) : ∃ failure, e = .osError failure := by
  induction count using Nat.strong_induction_on generalizing conn with
  | _ count ih =>
    by_cases hcount : count = 0
    · rw [hcount, recvExact_zero] at h
      cases h
    · rcases recvExact_pos hcount with ⟨failure, hfailed⟩ | ⟨b, bs, next, hrecv⟩
      · exact ⟨failure, Except.error.inj (h.symm.trans hfailed)⟩
      · rw [recvExact_recv hcount hrecv] at h
        rcases bind_eq_error.mp h with h | ⟨_, -, h⟩
        · exact ih _ (by omega) h
        · cases h

/-- **What is received is the next `count` bytes.** -/
theorem recvExact_sound (h : recvExact conn count = .ok (bytes, conn')) :
    bytes.length = count ∧ conn.bytes = bytes ++ conn'.bytes := by
  induction count using Nat.strong_induction_on generalizing conn bytes with
  | _ count ih =>
    by_cases hcount : count = 0
    · rw [hcount, recvExact_zero] at h
      obtain ⟨rfl, rfl⟩ := Prod.mk.inj (Except.ok.inj h)
      exact ⟨hcount.symm, rfl⟩
    · rcases recvExact_pos hcount with ⟨failure, hfailed⟩ | ⟨b, bs, next, hrecv⟩
      · cases h.symm.trans hfailed
      · rw [recvExact_recv hcount hrecv] at h
        obtain ⟨⟨rest, last⟩, hrest, h⟩ := bind_eq_ok.mp h
        obtain ⟨rfl, rfl⟩ := Prod.mk.inj (Except.ok.inj h)
        have hle := Stream.length_of_recv hrecv
        obtain ⟨hlength, hbytes⟩ := ih _ (by omega) hrest
        rw [List.length_cons] at hle
        refine ⟨by rw [List.length_append, List.length_cons, hlength]; omega, ?_⟩
        rw [Stream.bytes_of_recv hrecv, hbytes, List.append_assoc]

/-- **All of them are received**, if they are on their way, whatever the pieces. -/
theorem recvExact_complete (hlive : conn.Live) (hcount : count ≤ conn.bytes.length) :
    ∃ conn', recvExact conn count = .ok (conn.bytes.take count, conn') ∧ conn'.Live := by
  induction count using Nat.strong_induction_on generalizing conn with
  | _ count ih =>
    by_cases hzero : count = 0
    · rw [hzero]
      exact ⟨conn, recvExact_zero conn, hlive⟩
    · have hne : conn.bytes ≠ [] := by
        rw [← List.length_pos_iff]
        omega
      obtain ⟨chunk, next, hrecv, hchunk, hnext⟩ := hlive.recv hne (Nat.pos_of_ne_zero hzero)
      have hbytes := Stream.bytes_of_recv hrecv
      have hle := Stream.length_of_recv hrecv
      have hlength := congrArg List.length hbytes
      rw [List.length_append] at hlength
      obtain ⟨b, bs, rfl⟩ := List.exists_cons_of_ne_nil hchunk
      rw [List.length_cons] at hle hlength
      obtain ⟨last, hrest, hlast⟩ := ih (count - (bs.length + 1)) (by omega) hnext (by omega)
      refine ⟨last, ?_, hlast⟩
      have htake : (b :: bs ++ next.bytes).take count =
          b :: bs ++ next.bytes.take (count - (bs.length + 1)) := by
        rw [List.take_append, List.take_of_length_le (by simpa using hle), List.length_cons]
      rw [recvExact_recv hzero hrecv, hbytes, htake]
      exact bind_eq_ok.mpr ⟨_, hrest, rfl⟩

/-- Bytes that begin a live stream are received, and what is behind them stays. -/
theorem recvExact_append (hlive : conn.Live) {rest : Bytes} (hbytes : conn.bytes = bytes ++ rest) :
    ∃ conn', recvExact conn bytes.length = .ok (bytes, conn') ∧ conn'.Live ∧ conn'.bytes = rest := by
  have hcount : bytes.length ≤ conn.bytes.length := by
    rw [hbytes, List.length_append]
    omega
  obtain ⟨conn', hrecv, hlive'⟩ := recvExact_complete hlive hcount
  rw [hbytes, List.take_left] at hrecv
  have hrest := (recvExact_sound hrecv).2
  rw [hbytes] at hrest
  exact ⟨conn', hrecv, hlive', (List.append_cancel_left hrest).symm⟩

/-! ## Frames -/

/-- A reply that the agent may send. -/
structure Fits (reply : Bytes) : Prop where
  ne_nil : reply ≠ []
  length_le : reply.length ≤ AGENT_MAX_REPLY_BYTES

theorem Fits.lt {reply : Bytes} (h : Fits reply) : reply.length < 2 ^ 32 :=
  h.length_le.trans_lt (by decide)

theorem unpack_eq (h : bytes.length = 4) : unpack bytes = .ok (ofBytes bytes) := if_pos h

/-- The frame's length is four bytes, so that `struct` reads them. -/
theorem readAgentReply_eq_ok {reply : Bytes} :
    readAgentReply conn = .ok (reply, conn') ↔
      ∃ head next, recvExact conn 4 = .ok (head, next) ∧ ofBytes head ≠ 0 ∧
        ofBytes head ≤ AGENT_MAX_REPLY_BYTES ∧ recvExact next (ofBytes head) = .ok (reply, conn') := by
  constructor
  · intro h
    obtain ⟨⟨head, next⟩, hhead, h⟩ := bind_eq_ok.mp h
    obtain ⟨length, hlength, h⟩ := bind_eq_ok.mp h
    rw [unpack_eq (recvExact_sound hhead).1] at hlength
    obtain rfl := Except.ok.inj hlength
    split_ifs at h with hbad
    rw [not_or, not_lt] at hbad
    exact ⟨head, next, hhead, hbad.1, hbad.2, h⟩
  · rintro ⟨head, next, hhead, hzero, hmax, h⟩
    refine bind_eq_ok.mpr ⟨_, hhead, bind_eq_ok.mpr ⟨_, unpack_eq (recvExact_sound hhead).1, ?_⟩⟩
    rw [if_neg (not_or.mpr ⟨hzero, not_lt.mpr hmax⟩)]
    exact h

theorem readAgentReply_error (h : readAgentReply conn = .error e) : ∃ failure, e = .osError failure := by
  rcases bind_eq_error.mp h with h | ⟨⟨head, next⟩, hhead, h⟩
  · exact recvExact_error h
  rcases bind_eq_error.mp h with h | ⟨length, -, h⟩
  · rw [unpack_eq (recvExact_sound hhead).1] at h
    cases h
  split_ifs at h
  · exact ⟨_, (Except.error.inj h).symm⟩
  · exact recvExact_error h

/-- **A reply that is read is the stream's first frame**, and nothing behind it is read. -/
theorem readAgentReply_sound {reply : Bytes} (h : readAgentReply conn = .ok (reply, conn')) :
    Fits reply ∧ conn.bytes = field reply ++ conn'.bytes := by
  obtain ⟨head, next, hhead, hzero, hmax, hreply⟩ := readAgentReply_eq_ok.mp h
  obtain ⟨hfour, hbytes⟩ := recvExact_sound hhead
  obtain ⟨hlength, hnext⟩ := recvExact_sound hreply
  refine ⟨⟨?_, hlength ▸ hmax⟩, ?_⟩
  · rintro rfl
    exact hzero hlength.symm
  · rw [hbytes, hnext, field, hlength, u32_ofBytes hfour, List.append_assoc]

/-- **A frame is read**, whatever pieces it comes in. -/
theorem readAgentReply_complete (hlive : conn.Live) {reply rest : Bytes} (hfits : Fits reply)
    (hbytes : conn.bytes = field reply ++ rest) :
    ∃ conn', readAgentReply conn = .ok (reply, conn') ∧ conn'.bytes = rest := by
  rw [field, List.append_assoc] at hbytes
  obtain ⟨next, hhead, hnext, hreply⟩ := recvExact_append hlive hbytes
  obtain ⟨conn', hrest, -, hlast⟩ := recvExact_append hnext hreply
  have hword := ofBytes_u32 hfits.lt
  refine ⟨conn', readAgentReply_eq_ok.mpr ⟨_, next, hhead, ?_, ?_, ?_⟩, hlast⟩
  · rw [hword]
    exact fun hzero => hfits.ne_nil (List.length_eq_zero_iff.mp hzero)
  · rw [hword]
    exact hfits.length_le
  · rw [hword]
    exact hrest

end receiving

/-! ## Calls -/

section calls

variable {sockPath : PyStr} {agent : Bytes → Conversation} {talk : Conversation}
  {payload reply blob data raw : Bytes} {identities : List (Bytes × PyStr)} {e : Raised}

theorem sshString_eq (h : data.length < 2 ^ 32) : sshString data = .ok (field data) := by
  unfold sshString
  rw [pack, if_pos h]
  rfl

theorem exchange_error (hpayload : payload.length < 2 ^ 32) (h : exchange talk payload = .error e) :
    ∃ failure, e = .osError failure := by
  unfold exchange at h
  rw [sshString_eq hpayload] at h
  rcases bind_eq_error.mp h with h | ⟨_, -, h⟩
  · cases h
  split at h
  · exact ⟨_, (Except.error.inj h).symm⟩
  · rcases bind_eq_error.mp h with h | ⟨_, -, h⟩
    · exact readAgentReply_error h
    · cases h

theorem exchange_ok (h : exchange talk payload = .ok reply) :
    ∃ conn', readAgentReply talk.reply = .ok (reply, conn') := by
  obtain ⟨_, -, h⟩ := bind_eq_ok.mp h
  split at h
  · cases h
  · obtain ⟨⟨read, conn'⟩, hread, h⟩ := bind_eq_ok.mp h
    obtain rfl := Except.ok.inj h
    exact ⟨conn', hread⟩

/-- The handlers leave no `OSError`. -/
theorem isYoError_handled (failure : OSError) : (handled sockPath (.osError failure)).IsYoError := by
  obtain ⟨kind, text⟩ := failure
  cases kind <;> trivial

theorem sshAgentCall_error (hpayload : payload.length < 2 ^ 32)
    (h : sshAgentCall sockPath agent payload = .error e) : e.IsYoError := by
  unfold sshAgentCall at h
  split at h
  · cases h
    trivial
  · cases hexchange : exchange (agent payload) payload with
    | ok reply =>
      rw [hexchange] at h
      cases h
    | error raised =>
      rw [hexchange] at h
      obtain ⟨failure, rfl⟩ := exchange_error hpayload hexchange
      rw [← Except.error.inj h]
      exact isYoError_handled failure

/-- A reply that a call returns is a frame that was received. -/
theorem sshAgentCall_ok (h : sshAgentCall sockPath agent payload = .ok reply) :
    Fits reply ∧ ∃ rest, (agent payload).reply.bytes = field reply ++ rest := by
  unfold sshAgentCall at h
  split at h
  · cases h
  · cases hexchange : exchange (agent payload) payload with
    | error raised =>
      rw [hexchange] at h
      cases h
    | ok read =>
      rw [hexchange] at h
      obtain rfl := Except.ok.inj h
      obtain ⟨conn', hread⟩ := exchange_ok hexchange
      obtain ⟨hfits, hbytes⟩ := readAgentReply_sound hread
      exact ⟨hfits, conn'.bytes, hbytes⟩

theorem firstByte_eq (hfits : Fits reply) : ∃ b, firstByte reply = .ok b ∧ reply = b :: reply.tail := by
  obtain ⟨b, rest, rfl⟩ := List.exists_cons_of_ne_nil hfits.ne_nil
  exact ⟨b, rfl, rfl⟩

theorem sshAgentIdentities_error (h : sshAgentIdentities sockPath agent = .error e) : e.IsYoError := by
  rcases bind_eq_error.mp h with h | ⟨reply, hcall, h⟩
  · exact sshAgentCall_error (by decide) h
  obtain ⟨b, hfirst, -⟩ := firstByte_eq (sshAgentCall_ok hcall).1
  rcases bind_eq_error.mp h with h | ⟨_, -, h⟩
  · rw [hfirst] at h
    cases h
  split_ifs at h
  · cases h
    trivial
  · rw [parseAgentIdentities_error h]
    trivial

/-- **The keys that are listed were listed in a frame that was received.** -/
theorem sshAgentIdentities_ok (h : sshAgentIdentities sockPath agent = .ok identities) :
    ∃ (pairs : List (Bytes × Bytes)) (tail rest : Bytes), identities = pairs.map identityOf ∧
      (agent [SSH_AGENT_REQUEST_IDENTITIES]).reply.bytes =
        field (SSH_AGENT_IDENTITIES_ANSWER :: (identitiesBody pairs ++ tail)) ++ rest := by
  obtain ⟨reply, hcall, h⟩ := bind_eq_ok.mp h
  obtain ⟨hfits, rest, hbytes⟩ := sshAgentCall_ok hcall
  obtain ⟨b, hfirst, hreply⟩ := firstByte_eq hfits
  obtain ⟨type, htype, h⟩ := bind_eq_ok.mp h
  rw [hfirst] at htype
  obtain rfl := Except.ok.inj htype
  split_ifs at h with hanswer
  obtain ⟨pairs, tail, hidentities, hbody⟩ := parseAgentIdentities_sound h
  refine ⟨pairs, tail, rest, hidentities, ?_⟩
  rw [hbytes, ← hbody, ← not_not.mp hanswer, ← hreply]

theorem isYoError_declined (h : e.IsYoError) : (declined e).IsYoError := by
  cases e <;> trivial

/-- The request for a signature. -/
def signing (blob data : Bytes) : Bytes :=
  SSH_AGENT_SIGN_REQUEST :: field blob ++ field data ++ [0, 0, 0, 0]

theorem signRequest_eq (hblob : blob.length < 2 ^ 32) (hdata : data.length < 2 ^ 32) :
    signRequest blob data = .ok (signing blob data) := by
  unfold signRequest
  rw [sshString_eq hblob, sshString_eq hdata]
  rfl

/-- The key of a listing and the data fit a request. -/
theorem signing_lt (hblob : blob.length ≤ AGENT_MAX_REPLY_BYTES)
    (hdata : data.length ≤ AGENT_MAX_REPLY_BYTES) :
    blob.length < 2 ^ 32 ∧ data.length < 2 ^ 32 ∧ (signing blob data).length < 2 ^ 32 := by
  unfold AGENT_MAX_REPLY_BYTES at hblob hdata
  simp only [signing, List.length_append, List.length_cons, length_field, List.length_nil]
  omega

theorem mapError_eq_error {α : Type} {x : Py α} {f : Raised → Raised} (h : x.mapError f = .error e) :
    ∃ raised, x = .error raised ∧ e = f raised := by
  cases x with
  | error raised => exact ⟨raised, rfl, (Except.error.inj h).symm⟩
  | ok a => cases h

theorem mapError_eq_ok {α : Type} {x : Py α} {f : Raised → Raised} {a : α}
    (h : x.mapError f = .ok a) : x = .ok a := by
  cases x with
  | error raised => cases h
  | ok b => exact h

theorem signCall_eq (hblob : blob.length ≤ AGENT_MAX_REPLY_BYTES)
    (hdata : data.length ≤ AGENT_MAX_REPLY_BYTES) :
    signCall sockPath agent blob data = sshAgentCall sockPath agent (signing blob data) := by
  obtain ⟨hblob', hdata', -⟩ := signing_lt hblob hdata
  unfold signCall
  rw [signRequest_eq hblob' hdata']
  rfl

theorem sshAgentSign_error (hblob : blob.length ≤ AGENT_MAX_REPLY_BYTES)
    (hdata : data.length ≤ AGENT_MAX_REPLY_BYTES)
    (h : sshAgentSign sockPath agent blob data = .error e) : e.IsYoError := by
  have hrequest := (signing_lt hblob hdata).2.2
  rcases bind_eq_error.mp h with h | ⟨reply, hcall, h⟩
  · obtain ⟨raised, hcall, rfl⟩ := mapError_eq_error h
    rw [signCall_eq hblob hdata] at hcall
    exact isYoError_declined (sshAgentCall_error hrequest hcall)
  have hreply := mapError_eq_ok hcall
  rw [signCall_eq hblob hdata] at hreply
  obtain ⟨b, hfirst, -⟩ := firstByte_eq (sshAgentCall_ok hreply).1
  rcases bind_eq_error.mp h with h | ⟨_, -, h⟩
  · rw [hfirst] at h
    cases h
  split_ifs at h
  · cases h
    trivial
  · cases h
    trivial
  · exact parseAgentSignature_error h

/-- **A signature that is returned was in a frame that was received.** -/
theorem sshAgentSign_ok (hblob : blob.length ≤ AGENT_MAX_REPLY_BYTES)
    (hdata : data.length ≤ AGENT_MAX_REPLY_BYTES)
    (h : sshAgentSign sockPath agent blob data = .ok raw) :
    raw.length = ED25519_SIGNATURE_LENGTH ∧ ∃ (inner outer rest : Bytes),
      (agent (signing blob data)).reply.bytes =
        field (SSH_AGENT_SIGN_RESPONSE :: signatureBody raw inner outer) ++ rest := by
  obtain ⟨reply, hcall, h⟩ := bind_eq_ok.mp h
  have hreply := mapError_eq_ok hcall
  rw [signCall_eq hblob hdata] at hreply
  obtain ⟨hfits, rest, hbytes⟩ := sshAgentCall_ok hreply
  obtain ⟨b, hfirst, hcons⟩ := firstByte_eq hfits
  obtain ⟨type, htype, h⟩ := bind_eq_ok.mp h
  rw [hfirst] at htype
  obtain rfl := Except.ok.inj htype
  split_ifs at h with hfailure hanswer
  obtain ⟨hlength, inner, outer, hbody⟩ := parseAgentSignature_sound h
  refine ⟨hlength, inner, outer, rest, ?_⟩
  rw [hbytes, ← hbody, ← not_not.mp hanswer, ← hcons]

end calls

/-! ## What an agent may answer -/

section answers

variable {identities : List (Bytes × PyStr)} {pairs : List (Bytes × Bytes)} {reply : Bytes}

/-- A key and its comment in UTF-8. -/
def encodeIdentity (identity : Bytes × PyStr) : Option (Bytes × Bytes) :=
  if identity.2.all Utf8.isScalar then (Utf8.encode identity.2).map fun bytes => (identity.1, bytes)
  else none

def encodeIdentities : List (Bytes × PyStr) → Option (List (Bytes × Bytes))
  | [] => some []
  | identity :: rest =>
    (encodeIdentity identity).bind fun pair => (encodeIdentities rest).map (pair :: ·)

/-- The answer to a key listing. -/
def identitiesAnswer (identities : List (Bytes × PyStr)) : Option Bytes :=
  (encodeIdentities identities).map fun pairs => SSH_AGENT_IDENTITIES_ANSWER :: identitiesBody pairs

/-- The answer to a sign request. -/
def signatureAnswer (raw : Bytes) : Bytes := SSH_AGENT_SIGN_RESPONSE :: signatureBody raw [] []

theorem identityOf_encodeIdentity {identity : Bytes × PyStr} {pair : Bytes × Bytes}
    (h : encodeIdentity identity = some pair) : identityOf pair = identity := by
  unfold encodeIdentity at h
  split_ifs at h with hscalar
  obtain ⟨bytes, hbytes, rfl⟩ := Option.map_eq_some_iff.mp h
  rw [identityOf, Utf8.decodeReplace_encode (List.all_eq_true.mp hscalar) hbytes]

theorem map_identityOf (h : encodeIdentities identities = some pairs) :
    pairs.map identityOf = identities := by
  induction identities generalizing pairs with
  | nil =>
    cases h
    rfl
  | cons identity rest ih =>
    obtain ⟨pair, hpair, h⟩ := Option.bind_eq_some_iff.mp h
    obtain ⟨more, hmore, rfl⟩ := Option.map_eq_some_iff.mp h
    rw [List.map_cons, identityOf_encodeIdentity hpair, ih hmore]

/-- The fields of a body are no longer than it. -/
theorem length_le_fields (pairs : List (Bytes × Bytes)) :
    pairs.length ≤ (pairs.flatMap pairFields).length ∧ ∀ pair ∈ pairs,
      pair.1.length ≤ (pairs.flatMap pairFields).length ∧
        pair.2.length ≤ (pairs.flatMap pairFields).length := by
  induction pairs with
  | nil => exact ⟨Nat.zero_le _, nofun⟩
  | cons pair pairs ih =>
    have hlength : ((pair :: pairs).flatMap pairFields).length =
        8 + pair.1.length + pair.2.length + (pairs.flatMap pairFields).length := by
      simp only [List.flatMap_cons, pairFields, List.length_append, length_field]
      omega
    rw [hlength, List.forall_mem_cons]
    refine ⟨by rw [List.length_cons]; omega, ⟨by omega, by omega⟩, fun other hother => ?_⟩
    obtain ⟨hfirst, hsecond⟩ := ih.2 other hother
    exact ⟨by omega, by omega⟩

/-- **A listing that fits is read.** -/
theorem parse_identitiesAnswer (h : identitiesAnswer identities = some reply) (hfits : Fits reply) :
    parseAgentIdentities reply.tail = .ok identities := by
  obtain ⟨pairs, hpairs, rfl⟩ := Option.map_eq_some_iff.mp h
  obtain ⟨hcount, hfields⟩ := length_le_fields pairs
  have hlt := hfits.lt
  simp only [identitiesBody, List.length_cons, List.length_append, length_u32] at hlt
  have hread : parseAgentIdentities (identitiesBody pairs ++ []) = .ok (pairs.map identityOf) := by
    refine parseAgentIdentities_complete (by omega) (fun pair hpair => ?_) []
    obtain ⟨hblob, hcomment⟩ := hfields pair hpair
    exact ⟨by omega, by omega⟩
  rwa [List.append_nil, map_identityOf hpairs] at hread

theorem fits_signatureAnswer {raw : Bytes} (hraw : raw.length = ED25519_SIGNATURE_LENGTH) :
    Fits (signatureAnswer raw) := by
  refine ⟨List.cons_ne_nil _ _, ?_⟩
  have hname : (ascii "ssh-ed25519").length = 11 := by decide
  simp only [signatureAnswer, signatureBody, List.length_cons, List.length_append, length_field,
    List.length_nil, hname, hraw]
  decide

theorem parse_signatureAnswer {raw : Bytes} (hraw : raw.length = ED25519_SIGNATURE_LENGTH) :
    parseAgentSignature (signatureAnswer raw).tail = .ok raw := by
  refine parseAgentSignature_complete hraw ?_
  have hname : (ascii "ssh-ed25519").length = 11 := by decide
  simp only [List.length_append, length_field, List.length_nil, hname, hraw]
  decide

/-- A key of a listing is a part of its body. -/
theorem infix_of_mem {tail : Bytes} {pair : Bytes × Bytes} (h : pair ∈ pairs) :
    pair.1 <:+: identitiesBody pairs ++ tail := by
  obtain ⟨before, after, rfl⟩ := List.append_of_mem h
  refine ⟨u32 (before ++ pair :: after).length ++ before.flatMap pairFields ++ u32 pair.1.length,
    field pair.2 ++ after.flatMap pairFields ++ tail, ?_⟩
  simp only [identitiesBody, List.flatMap_append, List.flatMap_cons, pairFields, field,
    List.append_assoc]

theorem infix_signatureBody (raw inner outer : Bytes) : raw <:+: signatureBody raw inner outer := by
  refine ⟨u32 (field (ascii "ssh-ed25519") ++ field raw ++ inner).length ++
    field (ascii "ssh-ed25519") ++ u32 raw.length, inner ++ outer, ?_⟩
  rw [signatureBody, field]
  simp only [field, List.append_assoc]

/-- **What is read of an agent's reply.**  A key listing that fits, and a signature, are read
back whatever pieces the frame comes in.  On any stream a reply is the first frame of the
stream or there is an `OSError`; on any reply the parsers end with a `YoError`, or with
keys or a signature that stand in it; and the calls that do both end with a `YoError`, or
with what stands in a frame that was received.  No outcome is a read past the end. -/
theorem replies_read :
    (∀ identities reply, identitiesAnswer identities = some reply →
      reply.length ≤ AGENT_MAX_REPLY_BYTES →
      ∀ (conn : Socket) rest, conn.Live → conn.bytes = field reply ++ rest →
        ∃ conn', readAgentReply conn = .ok (reply, conn') ∧ conn'.bytes = rest ∧
          parseAgentIdentities reply.tail = .ok identities)
    ∧ (∀ raw : Bytes, raw.length = ED25519_SIGNATURE_LENGTH →
      ∀ (conn : Socket) rest, conn.Live → conn.bytes = field (signatureAnswer raw) ++ rest →
        ∃ conn', readAgentReply conn = .ok (signatureAnswer raw, conn') ∧ conn'.bytes = rest ∧
          parseAgentSignature (signatureAnswer raw).tail = .ok raw)
    ∧ (∀ conn, (∀ e, readAgentReply conn = .error e → ∃ failure, e = .osError failure) ∧
      ∀ reply conn', readAgentReply conn = .ok (reply, conn') →
        Fits reply ∧ conn.bytes = field reply ++ conn'.bytes)
    ∧ (∀ body, (∀ e, parseAgentIdentities body = .error e → e.IsYoError) ∧
      ∀ identities, parseAgentIdentities body = .ok identities →
        (∃ pairs tail, identities = pairs.map identityOf ∧ body = identitiesBody pairs ++ tail) ∧
          ∀ identity ∈ identities, identity.1 <:+: body)
    ∧ (∀ body, (∀ e, parseAgentSignature body = .error e → e.IsYoError) ∧
      ∀ raw, parseAgentSignature body = .ok raw →
        raw.length = ED25519_SIGNATURE_LENGTH ∧ raw <:+: body)
    ∧ (∀ sockPath agent, (∀ e, sshAgentIdentities sockPath agent = .error e → e.IsYoError) ∧
      ∀ identities, sshAgentIdentities sockPath agent = .ok identities →
        ∃ (frame rest : Bytes), (agent [SSH_AGENT_REQUEST_IDENTITIES]).reply.bytes = field frame ++ rest ∧
          ∀ identity ∈ identities, identity.1 <:+: frame)
    ∧ ∀ sockPath agent blob data, blob.length ≤ AGENT_MAX_REPLY_BYTES →
      data.length ≤ AGENT_MAX_REPLY_BYTES →
      (∀ e, sshAgentSign sockPath agent blob data = .error e → e.IsYoError) ∧
      ∀ raw, sshAgentSign sockPath agent blob data = .ok raw →
        ∃ (frame rest : Bytes), (agent (signing blob data)).reply.bytes = field frame ++ rest ∧
          raw.length = ED25519_SIGNATURE_LENGTH ∧ raw <:+: frame := by
  refine ⟨fun identities reply hanswer hlength conn rest hlive hbytes => ?_,
    fun raw hraw conn rest hlive hbytes => ?_,
    fun conn => ⟨fun e h => readAgentReply_error h, fun reply conn' h => readAgentReply_sound h⟩,
    fun body => ⟨fun e h => ?_, fun identities h => ?_⟩,
    fun body => ⟨fun e h => parseAgentSignature_error h, fun raw h => ?_⟩,
    fun sockPath agent => ⟨fun e h => sshAgentIdentities_error h, fun identities h => ?_⟩,
    fun sockPath agent blob data hblob hdata =>
      ⟨fun e h => sshAgentSign_error hblob hdata h, fun raw h => ?_⟩⟩
  · have hfits : Fits reply := by
      refine ⟨?_, hlength⟩
      obtain ⟨pairs, -, rfl⟩ := Option.map_eq_some_iff.mp hanswer
      exact List.cons_ne_nil _ _
    obtain ⟨conn', hread, hrest⟩ := readAgentReply_complete hlive hfits hbytes
    exact ⟨conn', hread, hrest, parse_identitiesAnswer hanswer hfits⟩
  · obtain ⟨conn', hread, hrest⟩ := readAgentReply_complete hlive (fits_signatureAnswer hraw) hbytes
    exact ⟨conn', hread, hrest, parse_signatureAnswer hraw⟩
  · rw [parseAgentIdentities_error h]
    trivial
  · obtain ⟨pairs, tail, rfl, rfl⟩ := parseAgentIdentities_sound h
    refine ⟨⟨pairs, tail, rfl, rfl⟩, ?_⟩
    rw [List.forall_mem_map]
    exact fun pair hpair => infix_of_mem hpair
  · obtain ⟨hlength, inner, outer, rfl⟩ := parseAgentSignature_sound h
    exact ⟨hlength, infix_signatureBody raw inner outer⟩
  · obtain ⟨pairs, tail, rest, rfl, hbytes⟩ := sshAgentIdentities_ok h
    refine ⟨_, rest, hbytes, ?_⟩
    rw [List.forall_mem_map]
    exact fun pair hpair => (infix_of_mem hpair).trans (List.suffix_cons _ _).isInfix
  · obtain ⟨hlength, inner, outer, rest, hbytes⟩ := sshAgentSign_ok hblob hdata h
    exact ⟨_, rest, hbytes, hlength,
      (infix_signatureBody raw inner outer).trans (List.suffix_cons _ _).isInfix⟩

end answers

/-- A key of two bytes with a comment of one letter, in three pieces. -/
theorem replies_read_sample :
    ∃ conn', readAgentReply ⟨[[0, 0], [0, 16, 12, 0, 0, 0, 1, 0, 0], [0, 2, 7, 8, 0, 0, 0, 1, 107]], none⟩ =
        .ok ([12, 0, 0, 0, 1, 0, 0, 0, 2, 7, 8, 0, 0, 0, 1, 107], conn') ∧ conn'.bytes = [] ∧
      parseAgentIdentities [0, 0, 0, 1, 0, 0, 0, 2, 7, 8, 0, 0, 0, 1, 107] =
        .ok [([7, 8], lit "k")] :=
  replies_read.1 [([7, 8], lit "k")] [12, 0, 0, 0, 1, 0, 0, 0, 2, 7, 8, 0, 0, 0, 1, 107] (by decide)
    (by decide) _ [] (show ∀ piece ∈ _, _ by decide) (by decide)

end Agent
