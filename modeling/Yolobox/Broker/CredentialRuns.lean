/-
# What the broker serves, over whole runs

The invariant ties the cache of each profile to the history: outside the few steps
between the end of a mint and its storing, which happen under the profile's lock, the
cache is the latest successful mint.  A step of a thread touches the profile it holds
and nothing another thread relies on (`inv_apply`), so each step is checked for its
own stage and profile alone.
-/
import Yolobox.Broker.Credentials

open Transition

namespace Broker

variable {cfg : Config} {py : Python} {s s' : Sys}

/-! ## The invariant -/

/-- The profile a thread is about: it waits for its lock or holds it. -/
def Stage.about : Stage → Option PyStr
  | .waiting P => some P
  | stage => stage.holds

/-- Where the thread stands that holds the lock of a profile. -/
def Sys.owner (s : Sys) (P : PyStr) : Stage :=
  match (s.profile P).lock with
  | none => .idle
  | some t => s.thread t

/-- The cache is the latest successful mint, unless that is still to be stored. -/
def Cached (owner : Stage) (creds latest : Option Creds) : Prop :=
  match owner with
  | .minted _ (.ok new) | .stamped _ (.ok new) => latest = some new
  | _ => latest = creds

structure ProfileOk (s : Sys) (P : PyStr) : Prop where
  cached : Cached (s.owner P) (s.profile P).creds (latestMint P s.history)
  pending : mintPending P s.history = true → s.owner P = .minting P
  ended : (∃ result, s.owner P = .minted P result) ∨
    ∀ time ∈ mintEnds P s.history, ∃ last, (s.profile P).lastMintAttempt = some last ∧ time ≤ last

def StageOk (cfg : Config) (s : Sys) (t : ℕ) : Stage → Prop
  | .willMint P => ∀ ended ∈ mintEnds P s.history, ended + cfg.minRemintInterval ≤ s.mono
  | .leaving P (.served creds) => LastGot t P creds s.history
  | .routed path reply | .replying path reply =>
    reply.status = 200 → ∀ P, path = credsPathPrefix ++ P →
      ∃ creds, reply.body = .credentials credentialProcessVersion creds ∧
        LastGot t P creds s.history
  | _ => True

structure Inv (cfg : Config) (s : Sys) : Prop where
  lock : ∀ t P, (s.thread t).holds = some P ↔ (s.profile P).lock = some t
  allowed : ∀ t P, (s.thread t).about = some P → P ∈ cfg.allow
  profiles : ∀ P, ProfileOk s P
  stages : ∀ t, StageOk cfg s t (s.thread t)
  past : ∀ P, ∀ time ∈ mintEnds P s.history, time ≤ s.mono
  history : Good cfg s.history

theorem inv_init (mono : ℚ) (wall : ℤ) : Inv cfg (Sys.init cfg mono wall) where
  lock := by simp [Sys.init, Stage.holds]
  allowed := by simp [Sys.init, Stage.about, Stage.holds]
  profiles := fun P => ⟨rfl, by simp [Sys.init, mintPending], .inr (by simp [Sys.init, mintEnds])⟩
  stages := fun _ => trivial
  past := by simp [Sys.init, mintEnds]
  history := trivial

/-! ## Events and histories -/

/-- The profile whose mint an event is about. -/
def Event.mintOf : Event → Option PyStr
  | .mintStart _ P _ | .mintEnd _ P _ _ => some P
  | _ => none

theorem latestMint_other {e : Event} {P : PyStr} (h : e.mintOf ≠ some P) (pre : List Event) :
    latestMint P (e :: pre) = latestMint P pre := by
  cases e with
  | mintEnd t Q result time =>
    have hQ : Q ≠ P := fun hQ => h (by rw [Event.mintOf, hQ])
    cases result with
    | error e => rfl
    | ok creds => rw [latestMint, if_neg hQ]
  | _ => rfl

theorem mintEnds_other {e : Event} {P : PyStr} (h : e.mintOf ≠ some P) (pre : List Event) :
    mintEnds P (e :: pre) = mintEnds P pre := by
  cases e with
  | mintEnd t Q result time =>
    have hQ : Q ≠ P := fun hQ => h (by rw [Event.mintOf, hQ])
    rw [mintEnds, if_neg hQ]
  | _ => rfl

theorem mintPending_other {e : Event} {P : PyStr} (h : e.mintOf ≠ some P) (pre : List Event) :
    mintPending P (e :: pre) = mintPending P pre := by
  cases e with
  | mintStart t Q time =>
    have hQ : Q ≠ P := fun hQ => h (by rw [Event.mintOf, hQ])
    simp [mintPending, hQ]
  | mintEnd t Q result time =>
    have hQ : Q ≠ P := fun hQ => h (by rw [Event.mintOf, hQ])
    simp [mintPending, hQ]
  | _ => rfl

theorem LastGot.cons {t : ℕ} {P : PyStr} {creds : Creds} {pre : List Event}
    (h : LastGot t P creds pre) {e : Event} (he : e.thread ≠ t) :
    LastGot t P creds (e :: pre) := by
  obtain ⟨between, wall, before, rfl, hb⟩ := h
  refine ⟨e :: between, wall, before, rfl, fun e' he' => ?_⟩
  rcases List.mem_cons.mp he' with rfl | he'
  · exact he
  · exact hb e' he'

/-- Whatever was minted has a session token. -/
theorem Good.sessionToken {hist : List Event} (h : Good cfg hist) {P : PyStr} {creds : Creds}
    (hl : latestMint P hist = some creds) : creds.sessionToken ≠ [] := by
  induction hist with
  | nil => cases hl
  | cons e pre ih =>
    by_cases he : e.mintOf = some P
    · cases e with
      | mintEnd t Q result time =>
        obtain rfl : Q = P := by simpa [Event.mintOf] using he
        cases result with
        | error e => exact ih h.2 hl
        | ok new =>
          rw [latestMint, if_pos rfl, Option.some.injEq] at hl
          exact hl ▸ h.1 new rfl
      | mintStart t Q time => exact ih h.2 hl
      | got t Q creds wall => exact ih h.2 hl
      | sent t path reply => exact ih h.2 hl
    · rw [latestMint_other he] at hl
      exact ih h.2 hl

/-! ## What a step leaves alone -/

/-- What a step of a thread at `stage` may change: the profile it is about, and no
mint but of a profile it holds. -/
structure Effect.Local (e : Effect) (t : ℕ) (stage : Stage) : Prop where
  profile : ∀ P p, e.profile = some (P, p) → stage.about = some P
  thread : ∀ ev, e.event = some ev → ev.thread = t
  mint : ∀ ev P, e.event = some ev → ev.mintOf = some P → stage.holds = some P

variable {t : ℕ} {e : Effect}

theorem about_of_holds {stage : Stage} {P : PyStr} (h : stage.holds = some P) :
    stage.about = some P := by
  cases stage with
  | waiting Q => cases h
  | _ => exact h

theorem apply_profile_other (hl : e.Local t (s.thread t)) {P : PyStr}
    (hP : (s.thread t).about ≠ some P) : (s.apply t e).profile P = s.profile P := by
  unfold Sys.apply
  cases he : e.profile with
  | none => rfl
  | some Qp =>
    obtain ⟨Q, p⟩ := Qp
    have hne : P ≠ Q := fun hQ => hP (by rw [hQ, hl.profile Q p he])
    exact Function.update_of_ne hne _ _

theorem apply_history_other (hl : e.Local t (s.thread t)) {P : PyStr}
    (hP : (s.thread t).holds ≠ some P) :
    latestMint P (s.apply t e).history = latestMint P s.history ∧
      mintEnds P (s.apply t e).history = mintEnds P s.history ∧
      mintPending P (s.apply t e).history = mintPending P s.history := by
  unfold Sys.apply
  cases he : e.event with
  | none => exact ⟨rfl, rfl, rfl⟩
  | some ev =>
    have hm : ev.mintOf ≠ some P := fun hm => hP (hl.mint ev P he hm)
    exact ⟨latestMint_other hm _, mintEnds_other hm _, mintPending_other hm _⟩

theorem profileOk_other (hi : Inv cfg s) (hl : e.Local t (s.thread t)) {P : PyStr}
    (hholds : (s.thread t).holds ≠ some P)
    (hprofile : (s.apply t e).profile P = s.profile P) : ProfileOk (s.apply t e) P := by
  obtain ⟨hlatest, hends, hpending⟩ := apply_history_other hl hholds
  have howner : (s.apply t e).owner P = s.owner P := by
    rw [Sys.owner, Sys.owner, hprofile]
    cases hk : (s.profile P).lock with
    | none => rfl
    | some u =>
      have hu : u ≠ t := fun hu => hholds ((hi.lock t P).mpr (hu ▸ hk))
      exact Function.update_of_ne hu _ _
  have hp := hi.profiles P
  exact ⟨by rw [howner, hprofile, hlatest]; exact hp.cached,
    by rw [howner, hpending]; exact hp.pending,
    by rw [howner, hprofile, hends]; exact hp.ended⟩

theorem stageOk_other (hi : Inv cfg s) (hl : e.Local t (s.thread t)) {u : ℕ} (hu : u ≠ t) :
    StageOk cfg (s.apply t e) u (s.thread u) := by
  have hgot : ∀ P creds, LastGot u P creds s.history →
      LastGot u P creds (s.apply t e).history := by
    intro P creds h
    unfold Sys.apply
    cases he : e.event with
    | none => exact h
    | some ev => exact h.cons fun hev => hu (hev.symm.trans (hl.thread ev he))
  have hs := hi.stages u
  generalize hst : s.thread u = stage at hs ⊢
  cases stage with
  | willMint P =>
    have hP : (s.thread t).holds ≠ some P := by
      intro h
      have hut := (hi.lock u P).mp (by rw [hst]; rfl)
      exact hu (Option.some.inj (hut.symm.trans ((hi.lock t P).mp h)))
    intro ended hended
    rw [(apply_history_other hl hP).2.1] at hended
    exact hs ended hended
  | leaving P got =>
    cases got with
    | served creds => exact hgot P creds hs
    | _ => trivial
  | routed path reply =>
    intro hstatus P hpath
    obtain ⟨creds, hbody, h⟩ := hs hstatus P hpath
    exact ⟨creds, hbody, hgot P creds h⟩
  | replying path reply =>
    intro hstatus P hpath
    obtain ⟨creds, hbody, h⟩ := hs hstatus P hpath
    exact ⟨creds, hbody, hgot P creds h⟩
  | _ => trivial

/-- **A step of a thread keeps the invariant** when it does for its own stage and
profile. -/
theorem inv_apply (hi : Inv cfg s) (hl : e.Local t (s.thread t))
    (hown : ∀ P, e.stage.holds = some P ↔ ((s.apply t e).profile P).lock = some t)
    (hothers : ∀ P u, u ≠ t →
      (((s.apply t e).profile P).lock = some u ↔ (s.profile P).lock = some u))
    (hallowed : ∀ P, e.stage.about = some P → P ∈ cfg.allow)
    (hprofile : ∀ P, (s.thread t).about = some P → ProfileOk (s.apply t e) P)
    (hstage : StageOk cfg (s.apply t e) t e.stage)
    (hevent : ∀ ev, e.event = some ev → EventOk cfg ev s.history)
    (hpast : ∀ P, ∀ time ∈ mintEnds P (s.apply t e).history, time ≤ s.mono) :
    Inv cfg (s.apply t e) := by
  have hself : (s.apply t e).thread t = e.stage := Function.update_self _ _ _
  have helse : ∀ u, u ≠ t → (s.apply t e).thread u = s.thread u :=
    fun u hu => Function.update_of_ne hu _ _
  refine ⟨fun u P => ?_, fun u P => ?_, fun P => ?_, fun u => ?_, hpast, ?_⟩
  · by_cases hu : u = t
    · subst hu
      rw [hself]
      exact hown P
    · rw [helse u hu, hothers P u hu]
      exact hi.lock u P
  · by_cases hu : u = t
    · subst hu
      rw [hself]
      exact hallowed P
    · rw [helse u hu]
      exact hi.allowed u P
  · by_cases hP : (s.thread t).about = some P
    · exact hprofile P hP
    · exact profileOk_other hi hl (fun h => hP (about_of_holds h)) (apply_profile_other hl hP)
  · by_cases hu : u = t
    · subst hu
      rw [hself]
      exact hstage
    · rw [helse u hu]
      exact stageOk_other hi hl hu
  · unfold Sys.apply
    cases he : e.event with
    | none => exact hi.history
    | some ev => exact ⟨hevent ev he, hi.history⟩

/-! ## The steps, one by one -/

/-- Outside a mint and the storing of its result. -/
def Stage.calm : Stage → Bool
  | .minting _ | .minted _ _ | .stamped _ _ => false
  | _ => true

theorem ProfileOk.of_calm {P : PyStr} (h : ProfileOk s P) (hc : (s.owner P).calm = true) :
    latestMint P s.history = (s.profile P).creds ∧ mintPending P s.history = false ∧
      ∀ time ∈ mintEnds P s.history,
        ∃ last, (s.profile P).lastMintAttempt = some last ∧ time ≤ last := by
  obtain ⟨hcached, hpending, hended⟩ := h
  generalize s.owner P = owner at hc hcached hpending hended
  refine ⟨?_, ?_, ?_⟩
  · cases owner <;> first | exact hcached | cases hc
  · by_contra hp
    rw [hpending (by simpa using hp)] at hc
    cases hc
  · rcases hended with ⟨result, rfl⟩ | hended
    · cases hc
    · exact hended

theorem profileOk_of_calm {P : PyStr} (hc : (s.owner P).calm = true)
    (hcached : latestMint P s.history = (s.profile P).creds)
    (hpending : mintPending P s.history = false)
    (hended : ∀ time ∈ mintEnds P s.history,
      ∃ last, (s.profile P).lastMintAttempt = some last ∧ time ≤ last) : ProfileOk s P := by
  refine ⟨?_, by simp [hpending], .inr hended⟩
  generalize s.owner P = owner at hc
  cases owner <;> first | exact hcached | cases hc

theorem owner_of_holds (hi : Inv cfg s) {P : PyStr} (h : (s.thread t).holds = some P) :
    s.owner P = s.thread t := by
  rw [Sys.owner, (hi.lock t P).mp h]

/-- A step that touches no profile and no mint. -/
theorem inv_quiet (hi : Inv cfg s) {stage : Stage} {slots : ℕ} {event : Option Event}
    (hcalm : (s.thread t).calm = true) (hcalm' : stage.calm = true)
    (hholds : stage.holds = (s.thread t).holds)
    (hallowed : ∀ P, stage.about = some P → P ∈ cfg.allow)
    (hthread : ∀ ev, event = some ev → ev.thread = t ∧ ev.mintOf = none)
    (hstage : StageOk cfg (s.apply t ⟨stage, none, slots, event⟩) t stage)
    (hevent : ∀ ev, event = some ev → EventOk cfg ev s.history) :
    Inv cfg (s.apply t ⟨stage, none, slots, event⟩) := by
  have hl : Effect.Local ⟨stage, none, slots, event⟩ t (s.thread t) := by
    refine ⟨?_, fun ev h => (hthread ev h).1, fun ev P h hm => ?_⟩
    · rintro P p ⟨⟩
    · rw [(hthread ev h).2] at hm
      cases hm
  have hhistory : ∀ P, latestMint P (s.apply t ⟨stage, none, slots, event⟩).history
        = latestMint P s.history ∧
      mintEnds P (s.apply t ⟨stage, none, slots, event⟩).history = mintEnds P s.history ∧
      mintPending P (s.apply t ⟨stage, none, slots, event⟩).history
        = mintPending P s.history := by
    intro P
    unfold Sys.apply
    cases event with
    | none => exact ⟨rfl, rfl, rfl⟩
    | some ev =>
      have hm : ev.mintOf ≠ some P := by simp [(hthread ev rfl).2]
      exact ⟨latestMint_other hm _, mintEnds_other hm _, mintPending_other hm _⟩
  refine inv_apply hi hl (fun P => ?_) (fun P u _ => Iff.rfl) hallowed (fun P _ => ?_) hstage
    hevent fun P time htime => ?_
  · rw [hholds]
    exact hi.lock t P
  · by_cases hP : (s.thread t).holds = some P
    · have howner := owner_of_holds hi hP
      obtain ⟨hcached, hpending, hended⟩ := (hi.profiles P).of_calm (by rw [howner]; exact hcalm)
      obtain ⟨hlatest, hends, hpend⟩ := hhistory P
      have howner' : (s.apply t ⟨stage, none, slots, event⟩).owner P = stage := by
        change (match (s.profile P).lock with
          | none => .idle
          | some u => Function.update s.thread t stage u) = stage
        rw [(hi.lock t P).mp hP]
        exact Function.update_self _ _ _
      exact profileOk_of_calm (by rw [howner']; exact hcalm') (hlatest.trans hcached)
        (hpend.trans hpending) (by rw [hends]; exact hended)
    · exact profileOk_other hi hl hP rfl
  · rw [(hhistory P).2.1] at htime
    exact hi.past P time htime

theorem credsProfile_eq_some {path P : PyStr} :
    credsProfile path = some P ↔ path = credsPathPrefix ++ P := by
  unfold credsProfile
  constructor
  · intro h
    split_ifs at h with hstart
    obtain ⟨rest, rfl⟩ := startswith_iff.mp hstart
    rw [List.drop_left, Option.some.injEq] at h
    rw [h]
  · rintro rfl
    rw [if_pos (startswith_append _ _), List.drop_left]

theorem inv_route (hi : Inv cfg s) {path : PyStr} (ht : s.thread t = .asked path) :
    Inv cfg (s.apply t (route cfg s path)) := by
  have hrefused : ∀ {stage : Stage} {reply : Reply} {slots : ℕ}, reply.status ≠ 200 →
      stage = .routed path reply ∨ stage = .replying path reply →
      Inv cfg (s.apply t { stage := stage, slots := slots }) := by
    rintro stage reply slots hstatus (rfl | rfl) <;>
      exact inv_quiet hi (by rw [ht]; rfl) rfl (by rw [ht]; rfl) (by simp [Stage.about, Stage.holds])
        (by simp) (fun h => absurd h hstatus) (by simp)
  unfold route
  cases hp : credsProfile path with
  | none =>
    refine inv_quiet hi (by rw [ht]; rfl) rfl (by rw [ht]; rfl) (by simp [Stage.about, Stage.holds])
      (by simp) (fun _ P hpath => ?_) (by simp)
    rw [credsProfile_eq_some.mpr hpath] at hp
    cases hp
  | some P =>
    dsimp only
    split_ifs with hslots hallow
    · exact hrefused (by decide) (.inr rfl)
    · refine inv_quiet hi (by rw [ht]; rfl) rfl (by rw [ht]; rfl) (fun Q hQ => ?_) (by simp)
        trivial (by simp)
      rw [Stage.about, Option.some.injEq] at hQ
      exact hQ ▸ hallow
    · exact hrefused (by simp [Config.notAllowed]) (.inl rfl)

/-- A step that replaces the profile whose lock the thread holds, or takes. -/
theorem profile_apply {P : PyStr} {p : Profile} {stage : Stage} {slots : ℕ}
    {event : Option Event} :
    (s.apply t ⟨stage, some (P, p), slots, event⟩).profile P = p :=
  Function.update_self _ _ _

theorem inv_acquire (hi : Inv cfg s) {P : PyStr} {slots : ℕ} (ht : s.thread t = .waiting P)
    (hfree : (s.profile P).lock = none) :
    Inv cfg (s.apply t ⟨.locked P, some (P, { s.profile P with lock := some t }), slots, none⟩) := by
  have hprofile : ∀ Q, Q ≠ P → (s.apply t ⟨.locked P, some (P, { s.profile P with lock := some t }),
      slots, none⟩).profile Q = s.profile Q := fun Q hQ => Function.update_of_ne hQ _ _
  have hl : Effect.Local ⟨.locked P, some (P, { s.profile P with lock := some t }), slots, none⟩ t
      (s.thread t) := by
    refine ⟨?_, by simp, by simp⟩
    rintro Q q ⟨⟩
    rw [ht]
    rfl
  refine inv_apply hi hl (fun Q => ?_) (fun Q u hu => ?_) (fun Q hQ => ?_) (fun Q hQ => ?_) trivial
    (by simp) hi.past
  · by_cases hQ : Q = P
    · subst hQ
      rw [profile_apply]
      simp [Stage.holds]
    · rw [hprofile Q hQ, ← hi.lock t Q, ht]
      simp [Stage.holds, Ne.symm hQ]
  · by_cases hQ : Q = P
    · subst hQ
      rw [profile_apply, hfree]
      simp [Ne.symm hu]
    · rw [hprofile Q hQ]
  · exact hi.allowed t Q (by rw [ht]; exact hQ)
  · obtain rfl : P = Q := by simpa [ht, Stage.about] using hQ
    have howner : s.owner P = .idle := by rw [Sys.owner, hfree]
    obtain ⟨hcached, hpending, hended⟩ := (hi.profiles P).of_calm (by rw [howner]; rfl)
    refine profileOk_of_calm ?_ ?_ hpending ?_
    · rw [Sys.owner, profile_apply]
      change Stage.calm (Function.update s.thread t (.locked P) t) = true
      rw [Function.update_self]
      rfl
    · rw [profile_apply]
      exact hcached
    · rw [profile_apply]
      exact hended

/-- A step under the lock of `P` that does not release it. -/
theorem inv_held (hi : Inv cfg s) {P : PyStr} (hP : (s.thread t).holds = some P)
    (hholds : e.stage.holds = some P)
    (hprofile : e.profile = none ∨ ∃ p, e.profile = some (P, p) ∧ p.lock = some t)
    (hthread : ∀ ev, e.event = some ev → ev.thread = t ∧ ev.mintOf = some P)
    (hok : ProfileOk (s.apply t e) P) (hstage : StageOk cfg (s.apply t e) t e.stage)
    (hevent : ∀ ev, e.event = some ev → EventOk cfg ev s.history)
    (hpast : ∀ time ∈ mintEnds P (s.apply t e).history, time ≤ s.mono) :
    Inv cfg (s.apply t e) := by
  have hl : e.Local t (s.thread t) := by
    refine ⟨fun Q q hq => ?_, fun ev h => (hthread ev h).1, fun ev Q h hm => ?_⟩
    · rcases hprofile with hnone | ⟨p, hp, -⟩
      · rw [hnone] at hq
        cases hq
      · obtain rfl : P = Q := (Prod.mk.inj (Option.some.inj (hp.symm.trans hq))).1
        exact about_of_holds hP
    · rw [hP, ← (hthread ev h).2, hm]
  have hlock : ∀ Q, ((s.apply t e).profile Q).lock = (s.profile Q).lock := by
    intro Q
    unfold Sys.apply
    rcases hprofile with hnone | ⟨p, hp, hpl⟩
    · rw [hnone]
    · rw [hp]
      change (Function.update s.profile P p Q).lock = _
      by_cases hQ : Q = P
      · subst hQ
        rw [Function.update_self, hpl, (hi.lock t Q).mp hP]
      · rw [Function.update_of_ne hQ]
  refine inv_apply hi hl (fun Q => ?_) (fun Q u _ => by rw [hlock Q]) (fun Q hQ => ?_)
    (fun Q hQ => ?_) hstage hevent fun Q time htime => ?_
  · rw [hlock Q, hholds, ← hP]
    exact hi.lock t Q
  · rw [about_of_holds hholds] at hQ
    exact hi.allowed t Q ((about_of_holds hP).trans hQ)
  · rw [about_of_holds hP, Option.some.injEq] at hQ
    exact hQ ▸ hok
  · by_cases hQ : P = Q
    · exact hpast time (hQ ▸ htime)
    · rw [(apply_history_other hl (by rw [hP]; simpa using hQ)).2.1] at htime
      exact hi.past Q time htime

/-- The owner of a profile after a step under its lock. -/
theorem owner_apply (hi : Inv cfg s) {P : PyStr} (hP : (s.thread t).holds = some P)
    (hlock : ((s.apply t e).profile P).lock = (s.profile P).lock) :
    (s.apply t e).owner P = e.stage := by
  rw [Sys.owner, hlock, (hi.lock t P).mp hP]
  exact Function.update_self _ _ _

theorem inv_mintStart (hi : Inv cfg s) {P : PyStr} {slots : ℕ} (ht : s.thread t = .willMint P) :
    Inv cfg (s.apply t ⟨.minting P, none, slots, some (.mintStart t P s.mono)⟩) := by
  have hP : (s.thread t).holds = some P := by
    rw [ht]
    rfl
  have howner : s.owner P = .willMint P := (owner_of_holds hi hP).trans ht
  obtain ⟨hcached, hpending, hended⟩ := (hi.profiles P).of_calm (by rw [howner]; rfl)
  have howner' : (s.apply t ⟨.minting P, none, slots, some (.mintStart t P s.mono)⟩).owner P
      = .minting P := owner_apply hi hP rfl
  refine inv_held hi hP rfl (.inl rfl) ?_ ⟨?_, fun _ => howner', .inr hended⟩ trivial ?_
    (hi.past P)
  · rintro ev ⟨⟩
    exact ⟨rfl, rfl⟩
  · rw [howner']
    exact hcached
  · rintro ev ⟨⟩
    have hspaced := hi.stages t
    rw [ht] at hspaced
    exact ⟨hpending, hspaced⟩

theorem inv_mintEnd (hi : Inv cfg s) {P : PyStr} {slots : ℕ} {run : AwsRun}
    {result : Except MintError Creds} (ht : s.thread t = .minting P)
    (hrun : exportCredentials py run = some result) :
    Inv cfg (s.apply t ⟨.minted P result, none, slots, some (.mintEnd t P result s.mono)⟩) := by
  have hP : (s.thread t).holds = some P := by
    rw [ht]
    rfl
  have howner : s.owner P = .minting P := (owner_of_holds hi hP).trans ht
  have hp := hi.profiles P
  have howner' : (s.apply t
      ⟨.minted P result, none, slots, some (.mintEnd t P result s.mono)⟩).owner P
      = .minted P result := owner_apply hi hP rfl
  refine inv_held hi hP rfl (.inl rfl) ?_ ⟨?_, fun hpending => ?_, .inl ⟨result, howner'⟩⟩ trivial
    ?_ fun time htime => ?_
  · rintro ev ⟨⟩
    exact ⟨rfl, rfl⟩
  · rw [howner']
    have hcached := hp.cached
    rw [howner] at hcached
    cases result with
    | error err => exact hcached
    | ok creds => exact if_pos rfl
  · simp [Sys.apply, mintPending] at hpending
  · rintro ev ⟨⟩
    rintro creds rfl
    exact sessionToken_of_export py hrun
  · have htime' : time ∈ s.mono :: mintEnds P s.history := by
      simpa [Sys.apply, mintEnds] using htime
    rcases List.mem_cons.mp htime' with rfl | hold
    · exact le_rfl
    · exact hi.past P time hold

theorem inv_stamp (hi : Inv cfg s) {P : PyStr} {slots : ℕ} {result : Except MintError Creds}
    (ht : s.thread t = .minted P result) :
    Inv cfg (s.apply t ⟨.stamped P result,
      some (P, { s.profile P with lastMintAttempt := some s.mono }), slots, none⟩) := by
  have hP : (s.thread t).holds = some P := by
    rw [ht]
    rfl
  have hlock := (hi.lock t P).mp hP
  have howner : s.owner P = .minted P result := (owner_of_holds hi hP).trans ht
  have hp := hi.profiles P
  have howner' : (s.apply t ⟨.stamped P result,
      some (P, { s.profile P with lastMintAttempt := some s.mono }), slots, none⟩).owner P
      = .stamped P result := owner_apply hi hP (by rw [profile_apply])
  refine inv_held hi hP rfl (.inr ⟨_, rfl, hlock⟩) (by simp) ⟨?_, fun hpending => ?_, .inr ?_⟩
    trivial (by simp) (hi.past P)
  · rw [howner', profile_apply]
    have hcached := hp.cached
    rw [howner] at hcached
    cases result with
    | error err => exact hcached
    | ok creds => exact hcached
  · have hminting := hp.pending hpending
    rw [howner] at hminting
    cases hminting
  · rw [profile_apply]
    exact fun time htime => ⟨s.mono, rfl, hi.past P time htime⟩

theorem inv_store (hi : Inv cfg s) {P : PyStr} {slots : ℕ} {result : Except MintError Creds}
    (ht : s.thread t = .stamped P result) :
    Inv cfg (s.apply t ⟨.checking P, some (P, (s.profile P).store result), slots, none⟩) := by
  have hP : (s.thread t).holds = some P := by
    rw [ht]
    rfl
  have hlock := (hi.lock t P).mp hP
  have howner : s.owner P = .stamped P result := (owner_of_holds hi hP).trans ht
  have hp := hi.profiles P
  have hstore : ((s.profile P).store result).lock = some t ∧
      ((s.profile P).store result).lastMintAttempt = (s.profile P).lastMintAttempt := by
    cases result with
    | error err => exact ⟨hlock, rfl⟩
    | ok creds => exact ⟨hlock, rfl⟩
  have howner' : (s.apply t
      ⟨.checking P, some (P, (s.profile P).store result), slots, none⟩).owner P = .checking P :=
    owner_apply hi hP (by rw [profile_apply, hstore.1, hlock])
  refine inv_held hi hP rfl (.inr ⟨_, rfl, hstore.1⟩) (by simp)
    (profileOk_of_calm (by rw [howner']; rfl) ?_ ?_ ?_) trivial (by simp) (hi.past P)
  · rw [profile_apply]
    have hcached := hp.cached
    rw [howner] at hcached
    cases result with
    | error err => exact hcached
    | ok creds => exact hcached
  · by_contra hpending
    have hminting := hp.pending (Bool.eq_true_of_not_eq_false hpending)
    rw [howner] at hminting
    cases hminting
  · rw [profile_apply, hstore.2]
    rcases hp.ended with ⟨r, hr⟩ | hended
    · rw [howner] at hr
      cases hr
    · exact hended

theorem inv_leave (hi : Inv cfg s) {P : PyStr} {slots : ℕ} {got : Got}
    (ht : s.thread t = .leaving P got) :
    Inv cfg (s.apply t ⟨.routed (credsPathPrefix ++ P) (got.reply P),
      some (P, { s.profile P with lock := none }), slots, none⟩) := by
  have hP : (s.thread t).holds = some P := by
    rw [ht]
    rfl
  have hlock := (hi.lock t P).mp hP
  have howner : s.owner P = .leaving P got := (owner_of_holds hi hP).trans ht
  have hl : Effect.Local ⟨.routed (credsPathPrefix ++ P) (got.reply P),
      some (P, { s.profile P with lock := none }), slots, none⟩ t (s.thread t) := by
    refine ⟨?_, by simp, by simp⟩
    rintro Q q ⟨⟩
    exact about_of_holds hP
  have hprofile : ∀ Q, Q ≠ P → (s.apply t ⟨.routed (credsPathPrefix ++ P) (got.reply P),
      some (P, { s.profile P with lock := none }), slots, none⟩).profile Q = s.profile Q :=
    fun Q hQ => Function.update_of_ne hQ _ _
  refine inv_apply hi hl (fun Q => ?_) (fun Q u hu => ?_) (by simp [Stage.about, Stage.holds])
    (fun Q hQ => ?_) (fun hstatus Q hpath => ?_) (by simp) hi.past
  · by_cases hQ : Q = P
    · subst hQ
      rw [profile_apply]
      simp [Stage.holds]
    · rw [hprofile Q hQ, ← hi.lock t Q, ht]
      simp [Stage.holds, Ne.symm hQ]
  · by_cases hQ : Q = P
    · subst hQ
      rw [profile_apply, hlock]
      simp [Ne.symm hu]
    · rw [hprofile Q hQ]
  · obtain rfl : P = Q := by simpa [ht, Stage.about, Stage.holds] using hQ
    obtain ⟨hcached, hpending, hended⟩ := (hi.profiles P).of_calm (by rw [howner]; rfl)
    refine profileOk_of_calm ?_ ?_ hpending ?_
    · rw [Sys.owner, profile_apply]
      rfl
    · rw [profile_apply]
      exact hcached
    · rw [profile_apply]
      exact hended
  · obtain rfl : P = Q := List.append_cancel_left hpath
    have hstage := hi.stages t
    rw [ht] at hstage
    cases got with
    | served creds => exact ⟨creds, rfl, hstage⟩
    | nothing => exact absurd hstatus (by simp [Got.reply])
    | raised => exact absurd hstatus (by simp [Got.reply])

/-- The mint that will start is far enough from the last one. -/
theorem inv_decide (hi : Inv cfg s) {P : PyStr} {needs : Bool} {slots : ℕ}
    (ht : s.thread t = .judged P needs) (hfree : throttled cfg (s.profile P) s.mono = false) :
    Inv cfg (s.apply t ⟨.willMint P, none, slots, none⟩) := by
  have hP : (s.thread t).holds = some P := by
    rw [ht]
    rfl
  have howner : s.owner P = .judged P needs := (owner_of_holds hi hP).trans ht
  obtain ⟨-, -, hended⟩ := (hi.profiles P).of_calm (by rw [howner]; rfl)
  refine inv_quiet hi (by rw [ht]; rfl) rfl (by rw [ht]; rfl)
    (fun Q hQ => hi.allowed t Q (by rw [ht]; exact hQ)) (by simp) (fun time htime => ?_) (by simp)
  obtain ⟨last, hlast, hle⟩ := hended time htime
  rw [throttled, hlast, Option.any_some, decide_eq_false_iff_not, not_lt] at hfree
  change time + cfg.minRemintInterval ≤ s.mono
  linarith

/-- What `State.get` returns is the latest mint, unexpired. -/
theorem inv_check (hi : Inv cfg s) {P : PyStr} {slots : ℕ} (ht : s.thread t = .checking P) :
    Inv cfg (s.apply t ⟨.leaving P (usable (s.profile P) s.wall), none, slots,
      (usable (s.profile P) s.wall).event t P s.wall⟩) := by
  have hP : (s.thread t).holds = some P := by
    rw [ht]
    rfl
  have howner : s.owner P = .checking P := (owner_of_holds hi hP).trans ht
  obtain ⟨hcached, -, -⟩ := (hi.profiles P).of_calm (by rw [howner]; rfl)
  have hallowed := hi.allowed t P (about_of_holds hP)
  refine inv_quiet hi (by rw [ht]; rfl) rfl (by rw [ht]; rfl)
    (fun Q hQ => hi.allowed t Q (by rw [ht]; exact hQ)) (fun ev hev => ?_) ?_ (fun ev hev => ?_)
  · cases hgot : usable (s.profile P) s.wall with
    | served creds =>
      rw [hgot] at hev
      cases hev
      exact ⟨rfl, rfl⟩
    | _ =>
      rw [hgot] at hev
      cases hev
  · cases hgot : usable (s.profile P) s.wall with
    | served creds => exact ⟨[], s.wall, s.history, rfl, by simp⟩
    | _ => trivial
  · cases hgot : usable (s.profile P) s.wall with
    | served creds =>
      rw [hgot] at hev
      cases hev
      unfold usable at hgot
      split at hgot
      · cases hgot
      rename_i cached hcache
      split at hgot
      · cases hgot
      rename_i expiry hexpiry
      split_ifs at hgot with hle
      obtain rfl : cached = creds := Got.served.inj hgot
      have hlatest := hcached.trans hcache
      exact ⟨hallowed, hlatest, hi.history.sessionToken hlatest, expiry, hexpiry, by omega⟩
    | _ =>
      rw [hgot] at hev
      cases hev

/-- **The step lemma**, for the steps of a thread. -/
theorem inv_advance (hi : Inv cfg s) {stage : Stage} {move : Move} (ht : s.thread t = stage)
    (h : advance cfg py s t stage move = some e) : Inv cfg (s.apply t e) := by
  have hkeep : ∀ Q, stage.about = some Q → Q ∈ cfg.allow := fun Q hQ =>
    hi.allowed t Q (by rw [ht]; exact hQ)
  unfold advance at h
  split at h
  · cases h
    exact inv_route hi ht
  · rename_i P
    split_ifs at h with hfree
    cases h
    exact inv_acquire hi ht hfree
  · cases h
    exact inv_quiet hi (by rw [ht]; rfl) rfl (by rw [ht]; rfl) (by simp [Stage.about, Stage.holds])
      (by simp) (fun hstatus => absurd hstatus (by decide)) (by simp)
  · rename_i P
    split at h <;> cases h <;>
      exact inv_quiet hi (by rw [ht]; rfl) rfl (by rw [ht]; rfl) hkeep (by simp) trivial (by simp)
  · rename_i P needs
    split_ifs at h with hmint
    · cases h
      rw [Bool.and_eq_true, Bool.not_eq_true'] at hmint
      exact inv_decide hi ht hmint.2
    · cases h
      exact inv_quiet hi (by rw [ht]; rfl) rfl (by rw [ht]; rfl) hkeep (by simp) trivial (by simp)
  · cases h
    exact inv_mintStart hi ht
  · obtain ⟨result, hrun, rfl⟩ := Option.map_eq_some_iff.mp h
    exact inv_mintEnd hi ht hrun
  · cases h
    exact inv_stamp hi ht
  · cases h
    exact inv_store hi ht
  · cases h
    exact inv_check hi ht
  · cases h
    exact inv_leave hi ht
  · cases h
    have hstage := hi.stages t
    rw [ht] at hstage
    exact inv_quiet hi (by rw [ht]; rfl) rfl (by rw [ht]; rfl) (by simp [Stage.about, Stage.holds])
      (by simp) hstage (by simp)
  · rename_i path reply
    cases h
    have hstage := hi.stages t
    rw [ht] at hstage
    refine inv_quiet hi (by rw [ht]; rfl) rfl (by rw [ht]; rfl) (by simp [Stage.about, Stage.holds])
      ?_ trivial ?_
    · rintro ev ⟨⟩
      exact ⟨rfl, rfl⟩
    · rintro ev ⟨⟩
      exact hstage
  · cases h

/-- **The step lemma.** -/
theorem inv_step (hi : Inv cfg s) {a : Action} (h : step cfg py s a = some s') : Inv cfg s' := by
  cases a with
  | tick mono =>
    rw [step, Option.ite_none_right_eq_some] at h
    obtain ⟨hmono, h⟩ := h
    cases h
    refine ⟨hi.lock, hi.allowed, fun P => ?_, fun t => ?_,
      fun P time htime => (hi.past P time htime).trans hmono, hi.history⟩
    · exact ⟨(hi.profiles P).cached, (hi.profiles P).pending, (hi.profiles P).ended⟩
    · have hs := hi.stages t
      change StageOk cfg _ t (s.thread t)
      generalize s.thread t = stage at hs ⊢
      cases stage with
      | willMint P => exact fun ended hended => (hs ended hended).trans hmono
      | leaving P got => cases got <;> exact hs
      | _ => exact hs
  | setWall wall =>
    cases h
    refine ⟨hi.lock, hi.allowed, fun P => ?_, fun t => ?_, hi.past, hi.history⟩
    · exact ⟨(hi.profiles P).cached, (hi.profiles P).pending, (hi.profiles P).ended⟩
    · exact hi.stages t
  | request t path =>
    rw [step, Option.ite_none_right_eq_some] at h
    obtain ⟨ht, h⟩ := h
    cases h
    exact inv_quiet hi (by rw [ht]; rfl) rfl (by rw [ht]; rfl) (by simp [Stage.about, Stage.holds])
      (by simp) trivial (by simp)
  | thread t move =>
    obtain ⟨e, he, rfl⟩ := Option.map_eq_some_iff.mp h
    exact inv_advance hi rfl he

/-- **The run lemma.** -/
theorem inv_of_reaches {mono : ℚ} {wall : ℤ}
    (h : Reaches (step cfg py) anyStep (Sys.init cfg mono wall) s) : Inv cfg s :=
  h.invariant (inv_init mono wall) fun _ _ _ hi _ hs => inv_step hi hs

theorem Good.eventOk {hist post pre : List Event} {ev : Event} (h : Good cfg hist)
    (hsplit : hist = post ++ ev :: pre) : EventOk cfg ev pre ∧ Good cfg pre := by
  subst hsplit
  induction post with
  | nil => exact h
  | cons _ post ih => exact ih h.2

/-- What a step does to the profile it replaces: its credentials stay, or a mint is
stored. -/
theorem profile_of_advance {stage : Stage} {move : Move}
    (h : advance cfg py s t stage move = some e) {P : PyStr} {p : Profile}
    (hp : e.profile = some (P, p)) :
    p.creds = (s.profile P).creds ∨
      ∃ result, stage = .stamped P result ∧ move = .go ∧ p = (s.profile P).store result := by
  unfold advance at h
  split at h
  · cases h
    unfold route at hp
    split at hp
    · cases hp
    · split_ifs at hp
  · split_ifs at h
    cases h
    cases hp
    exact .inl rfl
  · cases h
    cases hp
  · split at h <;> cases h <;> cases hp
  · split_ifs at h <;> cases h <;> cases hp
  · cases h
    cases hp
  · obtain ⟨result, -, rfl⟩ := Option.map_eq_some_iff.mp h
    cases hp
  · cases h
    cases hp
    exact .inl rfl
  · cases h
    cases hp
    exact .inr ⟨_, rfl, rfl, rfl⟩
  · cases h
    cases hp
  · cases h
    cases hp
    exact .inl rfl
  · cases h
    cases hp
  · cases h
    cases hp
  · cases h

/-- The cache of a profile changes only where a thread stores a successful mint. -/
theorem creds_of_step {a : Action} (h : step cfg py s a = some s') (P : PyStr) :
    (s'.profile P).creds = (s.profile P).creds ∨
      ∃ t creds, a = .thread t .go ∧ s.thread t = .stamped P (.ok creds) ∧
        (s'.profile P).creds = some creds := by
  cases a with
  | tick mono =>
    rw [step, Option.ite_none_right_eq_some] at h
    cases h.2
    exact .inl rfl
  | setWall wall =>
    cases h
    exact .inl rfl
  | request t path =>
    rw [step, Option.ite_none_right_eq_some] at h
    cases h.2
    exact .inl rfl
  | thread t move =>
    obtain ⟨e, he, rfl⟩ := Option.map_eq_some_iff.mp h
    cases hprofile : e.profile with
    | none =>
      left
      unfold Sys.apply
      rw [hprofile]
    | some Qp =>
      obtain ⟨Q, p⟩ := Qp
      have happly : (s.apply t e).profile = Function.update s.profile Q p := by
        unfold Sys.apply
        rw [hprofile]
      rw [happly]
      by_cases hQ : P = Q
      · subst hQ
        rw [Function.update_self]
        rcases profile_of_advance he hprofile with hsame | ⟨result, hstage, rfl, rfl⟩
        · exact .inl hsame
        · cases result with
          | error err => exact .inl rfl
          | ok creds => exact .inr ⟨t, creds, rfl, hstage, rfl⟩
      · rw [Function.update_of_ne hQ]
        exact .inl rfl

/-- **What the broker serves.**  In every run, a 200 reply to `/creds/P` carries what
`State.get` returned to that request: the latest successful mint of the allow-listed
profile `P`, with a session token and an expiration behind the wall time it had just
read.  Only a successful mint changes what is cached.  A mint of `P` starts when none
is running and the interval since every earlier one is over. -/
theorem broker_serves {mono : ℚ} {wall : ℤ}
    (h : Reaches (step cfg py) anyStep (Sys.init cfg mono wall) s) :
    (∀ post t P reply pre, s.history = post ++ .sent t (credsPathPrefix ++ P) reply :: pre →
      reply.status = 200 →
      ∃ creds between now before, reply.body = .credentials credentialProcessVersion creds ∧
        pre = between ++ .got t P creds now :: before ∧ (∀ ev ∈ between, ev.thread ≠ t) ∧
        P ∈ cfg.allow ∧ latestMint P before = some creds ∧ creds.sessionToken ≠ [] ∧
        ∃ expiry, parseExpiration creds.expiration = some expiry ∧ now < expiry) ∧
      (∀ a s' P, step cfg py s a = some s' →
        (s'.profile P).creds = (s.profile P).creds ∨
          ∃ t creds, a = .thread t .go ∧ s.thread t = .stamped P (.ok creds) ∧
            (s'.profile P).creds = some creds) ∧
      ∀ post t P time pre, s.history = post ++ .mintStart t P time :: pre →
        mintPending P pre = false ∧
          ∀ ended ∈ mintEnds P pre, ended + cfg.minRemintInterval ≤ time := by
  have hgood := (inv_of_reaches h).history
  refine ⟨fun post t P reply pre hsplit hstatus => ?_, fun a s' P hs => creds_of_step hs P,
    fun post t P time pre hsplit => (hgood.eventOk hsplit).1⟩
  obtain ⟨hok, hpre⟩ := hgood.eventOk hsplit
  obtain ⟨creds, hbody, between, now, before, hlast, hbetween⟩ := hok hstatus P rfl
  obtain ⟨hallow, hlatest, htoken, hexpiry⟩ := (hpre.eventOk hlast).1
  exact ⟨creds, between, now, before, hbody, hlast, hbetween, hallow, hlatest, htoken, hexpiry⟩

/-! ## A run -/

def sampleConfig : Config where
  allow := [lit "dev"]
  minRemintInterval := 5
  maxConcurrent := 32
  pid := 10
  watchPid := 11

/-- A parser of the output of the sample run. -/
def samplePython : Python where
  loads := fun _ => .value (.dict [(lit "Version", .int 1), (lit "AccessKeyId", .str (lit "A")),
    (lit "SecretAccessKey", .str (lit "S")), (lit "SessionToken", .str (lit "T")),
    (lit "Expiration", .str (lit "2024-01-01T00:00:00+00:00"))])
  padsYear := true

def sampleCreds : Creds := ⟨lit "A", lit "S", lit "T", lit "2024-01-01T00:00:00Z"⟩

/-- One request for a profile that has not been minted. -/
def sampleActions : List Action :=
  [.request 0 (lit "/creds/dev"), .thread 0 .go, .thread 0 .go, .thread 0 .go, .thread 0 .go,
    .thread 0 .go, .thread 0 (.awsEnds (.exited 0 [] [])), .thread 0 .go, .thread 0 .go,
    .thread 0 .go, .thread 0 .go, .thread 0 .go, .thread 0 .go]

theorem broker_serves_sample :
    ∃ s, Reaches (step sampleConfig samplePython) anyStep (Sys.init sampleConfig 0 0) s ∧
      ∃ pre, s.history = [] ++ .sent 0 (credsPathPrefix ++ lit "dev")
          ⟨200, .credentials 1 sampleCreds⟩ :: pre ∧
        ∃ creds between now before, Body.credentials 1 sampleCreds = .credentials 1 creds ∧
          pre = between ++ .got 0 (lit "dev") creds now :: before ∧
          latestMint (lit "dev") before = some creds := by
  obtain ⟨s, hs, hhist⟩ : ∃ s, run (guarded (step sampleConfig samplePython) anyStep)
      (Sys.init sampleConfig 0 0) sampleActions = some s ∧
        s.history.head? = some (.sent 0 (credsPathPrefix ++ lit "dev")
          ⟨200, .credentials 1 sampleCreds⟩) := ⟨_, rfl, rfl⟩
  have hreach := reaches_of_run sampleActions hs
  obtain ⟨pre, hpre⟩ := List.head?_eq_some_iff.mp hhist
  obtain ⟨creds, between, now, before, hbody, hlast, -, -, hlatest, -⟩ :=
    (broker_serves hreach).1 [] 0 (lit "dev") _ pre hpre rfl
  exact ⟨s, hreach, pre, hpre, creds, between, now, before, hbody, hlast, hlatest⟩

end Broker
