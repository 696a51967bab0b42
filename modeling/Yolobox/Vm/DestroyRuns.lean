/-
# What `yo destroy` removes, and in which order

A run that returns has removed every piece of its machine but the file of its lock; a run
that was cut off anywhere has removed some of them, and another run removes the rest.  Nothing that is not the
machine's is touched.  A domain is undefined while it is off, a volume is deleted when no
domain is defined any more, and the instance directory when no master and no volume is left.
-/
import Yolobox.Vm.Destroy

open Script hiding Machine

namespace Destroy

variable {m : Machine} {HOME : PyStr} {s t u : Host} {c : Cmd} {role : Role} {hasHerdr : Bool} {n : ℕ}

/-! ## The host while nothing is removed -/

/-- The host as it was, but for the state of the machine's domain. -/
structure Untouched (m : Machine) (s t : Host) : Prop where
  masters : t.masters = s.masters
  others : ∀ domain, domain ≠ m.domainName → t.domains domain = s.domains domain
  domain : (t.domains m.domainName).isSome = (s.domains m.domainName).isSome
  volumes : t.volumes = s.volumes
  paths : t.paths = s.paths
  herdr : t.herdr = s.herdr

theorem Untouched.refl (m : Machine) (s : Host) : Untouched m s s := ⟨rfl, fun _ _ => rfl, rfl, rfl, rfl, rfl⟩

theorem Untouched.trans (h : Untouched m s t) (h' : Untouched m t u) : Untouched m s u where
  masters := h'.masters.trans h.masters
  others domain hne := (h'.others domain hne).trans (h.others domain hne)
  domain := h'.domain.trans h.domain
  volumes := h'.volumes.trans h.volumes
  paths := h'.paths.trans h.paths
  herdr := h'.herdr.trans h.herdr

theorem Drifts.untouched (h : Drifts m.domainName c t u) : Untouched m t u := by
  obtain ⟨state, rfl, hsome⟩ := h.others
  refine ⟨rfl, fun domain hne => Function.update_of_ne hne _ _, ?_, rfl, rfl, rfl⟩
  show (Function.update t.domains m.domainName state m.domainName).isSome = _
  rw [Function.update_self, hsome]

/-- What a script leaves when it returns, and when it does not. -/
def post {α : Type} (P : α → Host → Prop) (I : Host → Prop) : Post PyError α Host := ⟨P, fun _ => I, I⟩

/-- What may be issued, and where. -/
def Allowed (m : Machine) (HOME : PyStr) : Cmd → Host → Prop
  | .privateDir path, t => path = instanceDir m HOME ∧ t.paths path = true
  | .destroy domain, _ => domain = m.domainName
  | .undefine domain, t => domain = m.domainName ∧ t.domains domain = some Stop.STATE_OFF
  | .volDelete volume, t => volume ∈ m.volumes ∧ t.domains m.domainName = none
  | .deleteTree path, t => path = instanceDir m HOME ∧ t.domains m.domainName = none ∧
      (∀ volume ∈ m.volumes, t.volumes volume = false) ∧ ∀ role, t.masters role = false
  | .deleteFile path, _ => path = m.flakeRefFile HOME
  | .herdrRemove id, t => ∃ entry ∈ t.herdr, entry.target = some (m.box .libvirt).herdrAlias ∧ entry.id = some id
  | _, _ => True

/-- A command that only looks. -/
structure Cmd.Looks (m : Machine) (HOME : PyStr) (c : Cmd) : Prop where
  effect : effect c = id
  allowed : ∀ t, Allowed m HOME c t

theorem wpIn_look {P : Answer c → Host → Prop} (hc : c.Looks m HOME) (h : Untouched m s t)
    (hP : ∀ u, Untouched m s u → ∀ a, Answers (instanceDir m HOME) u c (some a) → P a u) :
    (py c).wpIn (host m HOME) (Allowed m HOME) (post P (Untouched m s)) t := by
  refine wpIn_cmd (hc.allowed t) h (fun a t' hm => ?_) fun t' hm => ?_
  · obtain ⟨u, hdrift, hanswer, ht'⟩ := hm
    rw [hc.effect, id_eq] at ht'
    have hu := h.trans hdrift.untouched
    obtain rfl : t' = u := ht'.elim (fun heq => heq) fun heq => heq.2
    exact ⟨hu, hP _ hu a hanswer⟩
  · obtain ⟨u, hdrift, -, ht'⟩ := hm
    rw [hc.effect, id_eq] at ht'
    obtain rfl : t' = u := ht'.elim (fun heq => heq) fun heq => heq.2
    exact ⟨h.trans hdrift.untouched, h.trans hdrift.untouched⟩

/-- The rule of sequencing, with one condition on every way not to return. -/
theorem wpIn_then {α β : Type} {p : Py α} {f : α → Py β} {P : α → Host → Prop} {P' : β → Host → Prop}
    {I : Host → Prop} (hp : p.wpIn (host m HOME) (Allowed m HOME) (post P I) t)
    (hf : ∀ a u, P a u → (f a).wpIn (host m HOME) (Allowed m HOME) (post P' I) u) :
    (p.bind f).wpIn (host m HOME) (Allowed m HOME) (post P' I) t :=
  wpIn.bind (Q := post P' I) hp hf

/-! ## The list of steps -/

def closing (s : Host) (m : Machine) (HOME : PyStr) (role : Role) (close : Py Unit) : List Removal :=
  if s.masters role && s.paths (instanceDir m HOME) then [⟨.master role, close⟩] else []

/-- The steps for the domain; `active` says whether it was on when it was listed. -/
def ending (s : Host) (m : Machine) (active : Bool) : List Removal :=
  if (s.domains m.domainName).isSome then
    (if active then [⟨.power m.domainName, forceStop m⟩] else []) ++ [⟨.definition m.domainName, undefineDomain m⟩]
  else []

def deleting (s : Host) (m : Machine) : List Removal :=
  (m.volumes.filter s.volumes).map fun volume => ⟨.volume volume, py (.volDelete volume)⟩

def clearing (s : Host) (m : Machine) (HOME : PyStr) : List Removal :=
  if s.paths (instanceDir m HOME) then
    [⟨.directory (instanceDir m HOME), py (.deleteTree (instanceDir m HOME))⟩]
  else []

/-- The id of the herdr machine that is registered for the machine. -/
def herdrId (s : Host) (m : Machine) : Option PyStr :=
  (s.herdr.find? fun entry => entry.target == some (m.box .libvirt).herdrAlias).bind HerdrMachine.id

def deregistering (s : Host) (m : Machine) (hasHerdr : Bool) : List Removal :=
  if hasHerdr then
    (herdrId s m).toList.map fun id => ⟨.herdrMachine (m.box .libvirt).herdrAlias, py (.herdrRemove id)⟩
  else []

def forgetting (s : Host) (m : Machine) (HOME : PyStr) : List Removal :=
  if s.paths (m.flakeRefFile HOME) then
    [⟨.file (m.flakeRefFile HOME), py (.deleteFile (m.flakeRefFile HOME))⟩]
  else []

def stepsOf (s : Host) (m : Machine) (HOME : PyStr) (hasHerdr active : Bool) : List Removal :=
  closing s m HOME .agent (stopMaster .agent) ++
    (closing s m HOME .operator (closeMaster m HOME) ++ ending s m active ++ deleting s m ++ clearing s m HOME) ++
    deregistering s m hasHerdr ++ forgetting s m HOME

theorem wpIn_masters {close : Py Unit} (h : Untouched m s t) :
    ((py (.checkMaster role)).bind fun alive => .ret (if alive then [(⟨.master role, close⟩ : Removal)] else [])).wpIn
      (host m HOME) (Allowed m HOME)
      (post (fun steps u => Untouched m s u ∧ steps = closing s m HOME role close) (Untouched m s)) t := by
  refine wpIn_then (wpIn_look ⟨rfl, fun _ => trivial⟩ h fun u hu alive hanswer => ?_) fun alive u hP => hP
  rw [hanswer alive rfl, hu.masters, hu.paths]
  exact ⟨hu, rfl⟩

theorem wpIn_domainRemovals (h : Untouched m s t) :
    (domainRemovals m).wpIn (host m HOME) (Allowed m HOME)
      (post (fun steps u => Untouched m s u ∧ ∃ active, steps = ending s m active) (Untouched m s)) t := by
  refine wpIn_then (P := fun names u => Untouched m s u ∧ (m.domainName ∈ names ↔ (s.domains m.domainName).isSome = true))
    (wpIn_look ⟨rfl, fun _ => trivial⟩ h fun u hu names hanswer => ⟨hu, ?_⟩) fun names u hu => ?_
  · rw [hanswer names rfl, hu.domain]
  · obtain ⟨hu, hnames⟩ := hu
    by_cases hmem : m.domainName ∈ names
    · rw [if_neg (not_not.mpr hmem)]
      refine wpIn_then (wpIn_look (P := fun _ => Untouched m s) ⟨rfl, fun _ => trivial⟩ hu fun v hv _ _ => hv)
        fun state v hv => ⟨hv, decide (state ≠ Stop.STATE_OFF), ?_⟩
      rw [ending, if_pos (hnames.mp hmem)]
      by_cases hoff : state = Stop.STATE_OFF
      · simp [hoff]
      · simp [hoff]
    · rw [if_pos hmem]
      refine ⟨hu, false, ?_⟩
      rw [ending, if_neg fun hsome => hmem (hnames.mpr hsome)]

theorem wpIn_volumeRemovals (h : Untouched m s t) :
    (volumeRemovals m).wpIn (host m HOME) (Allowed m HOME)
      (post (fun steps u => Untouched m s u ∧ steps = deleting s m) (Untouched m s)) t := by
  refine wpIn_then (P := fun names u => Untouched m s u ∧ ∀ volume, volume ∈ names ↔ s.volumes volume = true)
    (wpIn_look ⟨rfl, fun _ => trivial⟩ h fun u hu names hanswer => ⟨hu, ?_⟩) fun names u hu => ⟨hu.1, ?_⟩
  · rw [← hu.volumes]
    exact hanswer names rfl
  · have hfilter : (m.volumes.filter fun volume => decide (volume ∈ names)) = m.volumes.filter s.volumes :=
      List.filter_congr fun volume _ => by
        rw [Bool.eq_iff_iff, decide_eq_true_eq]
        exact hu.2 volume
    rw [deleting, hfilter]

theorem wpIn_path {path : PyStr} {steps : List Removal} (h : Untouched m s t) :
    ((py (.pathExists path)).bind fun there => .ret (if there then steps else [])).wpIn (host m HOME) (Allowed m HOME)
      (post (fun steps' u => Untouched m s u ∧ steps' = if s.paths path then steps else []) (Untouched m s)) t := by
  refine wpIn_then (wpIn_look ⟨rfl, fun _ => trivial⟩ h fun u hu there hanswer => ?_) fun there u hP => hP
  rw [hanswer there rfl, hu.paths]
  exact ⟨hu, rfl⟩

theorem wpIn_herdrMachineRemovals (h : Untouched m s t) :
    (herdrMachineRemovals m).wpIn (host m HOME) (Allowed m HOME)
      (post (fun steps u => Untouched m s u ∧ steps = deregistering s m true) (Untouched m s)) t := by
  refine wpIn_then (P := fun listing u => Untouched m s u ∧ ∀ entries, listing = some entries → entries = s.herdr)
    (wpIn_look ⟨rfl, fun _ => trivial⟩ h fun u hu listing hanswer => ⟨hu, ?_⟩) fun listing u hu => ?_
  · rintro entries rfl
    rw [← hu.herdr]
    exact hanswer entries rfl
  · obtain ⟨hu, hlisting⟩ := hu
    refine wpIn_then (P := fun id v => Untouched m s v ∧ id = herdrId s m) ?_ fun id v hv => ⟨hv.1, ?_⟩
    · unfold herdrMachineId
      split
      · exact hu
      · rename_i entries
        rw [hlisting entries rfl]
        split
        · rename_i hfind
          exact ⟨hu, by rw [herdrId, hfind]; rfl⟩
        · rename_i entry hfind
          split
          · exact hu
          · rename_i id hid
            split_ifs
            · exact hu
            · exact ⟨hu, by rw [herdrId, hfind, Option.bind_some, hid]⟩
    · rw [hv.2]
      rfl

/-- **The steps** are the pieces that exist, and listing them changes nothing. -/
theorem wpIn_destructionSteps (h : Untouched m s t) :
    (destructionSteps m HOME hasHerdr).wpIn (host m HOME) (Allowed m HOME)
      (post (fun steps u => Untouched m s u ∧ ∃ active, steps = stepsOf s m HOME hasHerdr active) (Untouched m s)) t := by
  refine wpIn_then (wpIn_masters h) fun agent u hu => ?_
  obtain ⟨hu, rfl⟩ := hu
  refine wpIn_then (P := fun steps u => Untouched m s u ∧ ∃ active, steps =
    closing s m HOME .operator (closeMaster m HOME) ++ ending s m active ++ deleting s m ++ clearing s m HOME) ?_
    fun driver v hv => ?_
  · refine wpIn_then (wpIn_masters hu) fun masters u hu => ?_
    obtain ⟨hu, rfl⟩ := hu
    refine wpIn_then (wpIn_domainRemovals hu) fun domain u hu => ?_
    obtain ⟨hu, active, rfl⟩ := hu
    refine wpIn_then (wpIn_volumeRemovals hu) fun volumes u hu => ?_
    obtain ⟨hu, rfl⟩ := hu
    refine wpIn_then (wpIn_path hu) fun directory u hu => ?_
    obtain ⟨hu, rfl⟩ := hu
    exact ⟨hu, active, rfl⟩
  · obtain ⟨hv, active, rfl⟩ := hv
    refine wpIn_then (P := fun steps u => Untouched m s u ∧ steps = deregistering s m hasHerdr) ?_ fun machines u hu => ?_
    · cases hasHerdr with
      | false => exact ⟨hv, rfl⟩
      | true => exact wpIn_herdrMachineRemovals hv
    · obtain ⟨hu, rfl⟩ := hu
      refine wpIn_then (wpIn_path hu) fun ref u hu => ?_
      obtain ⟨hu, rfl⟩ := hu
      exact ⟨hu, active, rfl⟩

/-! ## The host while pieces are removed -/

/-- The id of the herdr machine that a run removes. -/
def goneId (s : Host) (m : Machine) (hasHerdr : Bool) : Option PyStr := if hasHerdr then herdrId s m else none

def herdrLeft (s : Host) (m : Machine) (hasHerdr : Bool) : List HerdrMachine :=
  match goneId s m hasHerdr with
  | none => s.herdr
  | some id => s.herdr.filter fun entry => entry.id != some id

/-- The host with some pieces of the machine gone, and perhaps the file of its lock. -/
structure Between (m : Machine) (HOME : PyStr) (s t : Host) : Prop where
  masters : ∀ role, t.masters role = true → s.masters role = true
  others : ∀ domain, domain ≠ m.domainName → t.domains domain = s.domains domain
  domain : (t.domains m.domainName).isSome = true → (s.domains m.domainName).isSome = true
  volumes : ∀ volume, t.volumes volume = s.volumes volume ∨ (volume ∈ m.volumes ∧ t.volumes volume = false)
  paths : ∀ path, t.paths path = s.paths path ∨
    ((path = instanceDir m HOME ∨ path = m.flakeRefFile HOME) ∧ t.paths path = false) ∨
    path = m.unlockLock HOME ∧ t.paths path = true
  herdr : ∀ entry ∈ t.herdr, entry ∈ s.herdr
  registered : ∀ entry ∈ s.herdr, entry ∈ t.herdr ∨
    ∃ own ∈ s.herdr, own.target = some (m.box .libvirt).herdrAlias ∧ own.id = entry.id
  sockets : s.paths (instanceDir m HOME) = true → t.paths (instanceDir m HOME) = false →
    ∀ role, t.masters role = false

/-- What holds from the `k`th stage on: the agent's master is closed, the operator's is, the
domain is undefined, the volumes are deleted, the directory is, the herdr machine is
removed, the file is deleted. -/
def Past (m : Machine) (HOME : PyStr) (hasHerdr : Bool) (s t : Host) : ℕ → Prop
  | 1 => s.paths (instanceDir m HOME) = true → t.masters .agent = false
  | 2 => s.paths (instanceDir m HOME) = true → t.masters .operator = false
  | 3 => t.domains m.domainName = none
  | 4 => ∀ volume ∈ m.volumes, t.volumes volume = false
  | 5 => t.paths (instanceDir m HOME) = false
  | 6 => t.herdr = herdrLeft s m hasHerdr
  | 7 => t.paths (m.flakeRefFile HOME) = false
  | _ => True

/-- How far the steps are. -/
structure Reached (m : Machine) (HOME : PyStr) (hasHerdr : Bool) (s : Host) (n : ℕ) (t : Host) : Prop
    extends Between m HOME s t where
  past : ∀ k ≤ n, Past m HOME hasHerdr s t k
  directory : n < 5 → t.paths (instanceDir m HOME) = s.paths (instanceDir m HOME)
  unregistered : n < 6 → t.herdr = s.herdr

/-- There is no more of the machine than there was. -/
structure Shrinks (m : Machine) (t u : Host) : Prop where
  masters : ∀ role, t.masters role = false → u.masters role = false
  domain : t.domains m.domainName = none → u.domains m.domainName = none
  volumes : ∀ volume, t.volumes volume = false → u.volumes volume = false
  paths : ∀ path, t.paths path = false → u.paths path = false

theorem Past.shrink (h : Past m HOME hasHerdr s t n) (hle : Shrinks m t u) (hherdr : n = 6 → u.herdr = t.herdr) :
    Past m HOME hasHerdr s u n := by
  unfold Past at h ⊢
  split at h
  · exact fun hpath => hle.masters _ (h hpath)
  · exact fun hpath => hle.masters _ (h hpath)
  · exact hle.domain h
  · exact fun volume hmem => hle.volumes _ (h volume hmem)
  · exact hle.paths _ h
  · exact (hherdr rfl).trans h
  · exact hle.paths _ h
  · trivial

/-- **Taking a stage**: nothing comes back, and what the stage promises holds. -/
theorem Reached.take {n' : ℕ} (h : Reached m HOME hasHerdr s n t) (hbetween : Between m HOME s u)
    (hle : Shrinks m t u) (hpast : ∀ k, n < k → k ≤ n' → Past m HOME hasHerdr s u k)
    (hherdr : 6 ≤ n → u.herdr = t.herdr)
    (hdirectory : n' < 5 → u.paths (instanceDir m HOME) = s.paths (instanceDir m HOME))
    (hregistered : n' < 6 → u.herdr = s.herdr) : Reached m HOME hasHerdr s n' u where
  toBetween := hbetween
  past k hk := by
    by_cases hkn : k ≤ n
    · exact (h.past k hkn).shrink hle fun h6 => hherdr (by omega)
    · exact hpast k (by omega) hk
  directory := hdirectory
  unregistered := hregistered

/-- The next stage, when there is nothing to do for it. -/
theorem Reached.next (h : Reached m HOME hasHerdr s n t) (hpast : Past m HOME hasHerdr s t (n + 1)) :
    Reached m HOME hasHerdr s (n + 1) t :=
  h.take h.toBetween ⟨fun _ => id, id, fun _ => id, fun _ => id⟩
    (fun k hk hk' => by rwa [show k = n + 1 by omega]) (fun _ => rfl) (fun hn => h.directory (by omega))
    fun hn => h.unregistered (by omega)

theorem Untouched.between (h : Untouched m s t) : Between m HOME s t where
  masters role hrole := h.masters ▸ hrole
  others := h.others
  domain hsome := h.domain ▸ hsome
  volumes volume := .inl (by rw [h.volumes])
  paths path := .inl (by rw [h.paths])
  herdr entry hmem := h.herdr ▸ hmem
  registered entry hmem := .inl (h.herdr ▸ hmem)
  sockets hpath hgone := by
    rw [h.paths, hpath] at hgone
    cases hgone

theorem Untouched.reached (h : Untouched m s t) : Reached m HOME hasHerdr s 0 t where
  toBetween := h.between
  past k hk := by
    obtain rfl : k = 0 := by omega
    trivial
  directory _ := by rw [h.paths]
  unregistered _ := h.herdr

theorem Untouched.shrinks (h : Untouched m t u) : Shrinks m t u where
  masters role hrole := h.masters ▸ hrole
  domain hnone := by
    have hsome := h.domain
    rw [hnone] at hsome
    exact Option.isNone_iff_eq_none.mp (by rw [← Option.not_isSome, hsome]; rfl)
  volumes volume hvolume := h.volumes ▸ hvolume
  paths path hpath := h.paths ▸ hpath

/-- The domain's state is not one of the pieces. -/
theorem Between.drift (h : Between m HOME s t) (hdrift : Untouched m t u) : Between m HOME s u where
  masters role hrole := h.masters role (hdrift.masters ▸ hrole)
  others domain hne := (hdrift.others domain hne).trans (h.others domain hne)
  domain hsome := h.domain (hdrift.domain ▸ hsome)
  volumes := hdrift.volumes ▸ h.volumes
  paths := hdrift.paths ▸ h.paths
  herdr := hdrift.herdr ▸ h.herdr
  registered := hdrift.herdr ▸ h.registered
  sockets := by
    rw [hdrift.paths, hdrift.masters]
    exact h.sockets

theorem Reached.drift (h : Reached m HOME hasHerdr s n t) (hdrift : Untouched m t u) : Reached m HOME hasHerdr s n u :=
  h.take (h.toBetween.drift hdrift) hdrift.shrinks (fun k hk hk' => by omega) (fun _ => hdrift.herdr)
    (fun hn => by rw [hdrift.paths, h.directory hn]) fun hn => by rw [hdrift.herdr, h.unregistered hn]

theorem Reached.closed (h : Reached m HOME hasHerdr s n t) (hn : 2 ≤ n) (hpath : s.paths (instanceDir m HOME) = true) :
    ∀ role, t.masters role = false
  | .agent => h.past 1 (by omega) hpath
  | .operator => h.past 2 hn hpath

/-- A step takes the run on where its piece is gone. -/
abbrev Takes (m : Machine) (HOME : PyStr) (hasHerdr : Bool) (s : Host) (n : ℕ) (p : Py Unit) (P : Host → Prop) : Prop :=
  ∀ t, Reached m HOME hasHerdr s n t →
    p.wpIn (host m HOME) (Allowed m HOME) (post (fun _ => P) (Between m HOME s)) t

/-- A command that works on a piece. -/
theorem wpIn_do {P : Answer c → Host → Prop} (h : Reached m HOME hasHerdr s n t) (hok : Allowed m HOME c t)
    (hloud : c.silent = true → ∀ u, Reached m HOME hasHerdr s n u → ∀ a, P a u)
    (hstep : ∀ u, Reached m HOME hasHerdr s n u → Drifts m.domainName c t u → ∀ r, Answers (instanceDir m HOME) u c r →
      Between m HOME s (effect c u) ∧ ∀ a, r = some a → P a (effect c u)) :
    (py c).wpIn (host m HOME) (Allowed m HOME) (post P (Between m HOME s)) t := by
  refine wpIn_cmd hok h.toBetween (fun a t' hm => ?_) fun t' hm => ?_
  · obtain ⟨u, hdrift, hanswer, ht'⟩ := hm
    have hu := h.drift hdrift.untouched
    obtain ⟨hbetween, hP⟩ := hstep u hu hdrift _ hanswer
    rcases ht' with rfl | ⟨hnone | hsilent, rfl⟩
    · exact ⟨hbetween, hP a rfl⟩
    · cases hnone
    · exact ⟨hu.toBetween, hloud hsilent _ hu a⟩
  · obtain ⟨u, hdrift, hanswer, ht'⟩ := hm
    have hu := h.drift hdrift.untouched
    obtain ⟨hbetween, -⟩ := hstep u hu hdrift _ hanswer
    rcases ht' with rfl | ⟨-, rfl⟩
    · exact ⟨hbetween, hbetween⟩
    · exact ⟨hu.toBetween, hu.toBetween⟩

/-- A command that only looks. -/
theorem wpIn_glance {P : Answer c → Host → Prop} (hc : c.Looks m HOME) (h : Reached m HOME hasHerdr s n t)
    (hP : ∀ u, Reached m HOME hasHerdr s n u → Untouched m t u → ∀ a, Answers (instanceDir m HOME) u c (some a) → P a u)
    (hloud : c.silent = false) :
    (py c).wpIn (host m HOME) (Allowed m HOME) (post P (Between m HOME s)) t := by
  refine wpIn_do h (hc.allowed t) (fun hsilent => ?_) fun u hu hdrift r hanswer => ?_
  · rw [hloud] at hsilent
    cases hsilent
  · rw [hc.effect, id_eq]
    refine ⟨hu.toBetween, ?_⟩
    rintro a rfl
    exact hP u hu hdrift.untouched a hanswer

/-! ## What a command takes away -/

theorem Reached.exited (h : Reached m HOME hasHerdr s n t) (role : Role) :
    Reached m HOME hasHerdr s n (effect (.exitMaster role) t) := by
  have hmasters : ∀ role', (effect (.exitMaster role) t).masters role' = true → t.masters role' = true := by
    intro role' hrole
    change Function.update t.masters role false role' = true at hrole
    by_cases heq : role' = role
    · rw [heq, Function.update_self] at hrole
      cases hrole
    · rwa [Function.update_of_ne heq] at hrole
  have hclosed : ∀ role', t.masters role' = false → (effect (.exitMaster role) t).masters role' = false := by
    intro role' hrole
    rw [Bool.eq_false_iff] at hrole ⊢
    exact fun htrue => hrole (hmasters role' htrue)
  exact h.take { h.toBetween with
      masters := fun role' hrole => h.masters role' (hmasters role' hrole)
      sockets := fun hpath hgone role' => hclosed role' (h.sockets hpath hgone role') }
    ⟨hclosed, id, fun _ => id, fun _ => id⟩ (fun k hk hk' => by omega) (fun _ => rfl) h.directory h.unregistered

/-- Making a directory that is there changes nothing. -/
theorem effect_privateDir {path : PyStr} (h : t.paths path = true) : effect (.privateDir path) t = t := by
  show { t with paths := Function.update t.paths path true } = t
  rw [← h, Function.update_eq_self]

theorem untouched_destroy : Untouched m t (effect (.destroy m.domainName) t) := by
  refine ⟨rfl, fun domain hne => Function.update_of_ne hne _ _, ?_, rfl, rfl, rfl⟩
  show (Function.update t.domains m.domainName _ m.domainName).isSome = _
  rw [Function.update_self, Option.isSome_map]

theorem Reached.undefine (h : Reached m HOME hasHerdr s 2 t)
    (hoff : t.domains m.domainName = some Stop.STATE_OFF) :
    Reached m HOME hasHerdr s 3 (effect (.undefine m.domainName) t) := by
  rw [show effect (.undefine m.domainName) t = { t with
    domains := Function.update t.domains m.domainName none } from if_pos hoff]
  have hnone : Function.update t.domains m.domainName none m.domainName = none := Function.update_self _ _ _
  refine h.take { h.toBetween with others := fun domain hne => ?_, domain := fun hsome => ?_ }
    ⟨fun _ => id, fun _ => hnone, fun _ => id, fun _ => id⟩ (fun k hk hk' => ?_) (fun _ => rfl)
    (fun _ => h.directory (by omega)) fun _ => h.unregistered (by omega)
  · exact (Function.update_of_ne hne _ _).trans (h.others domain hne)
  · cases (congrArg Option.isSome hnone).symm.trans hsome
  · obtain rfl : k = 3 := by omega
    exact hnone

theorem Reached.delete {volume : PyStr} (h : Reached m HOME hasHerdr s n t) (hmem : volume ∈ m.volumes) :
    Reached m HOME hasHerdr s n (effect (.volDelete volume) t) := by
  have hvolumes : ∀ volume', (effect (.volDelete volume) t).volumes volume' = t.volumes volume' ∨
      volume' = volume ∧ (effect (.volDelete volume) t).volumes volume' = false := by
    intro volume'
    by_cases heq : volume' = volume
    · exact .inr ⟨heq, heq ▸ Function.update_self _ _ _⟩
    · exact .inl (Function.update_of_ne heq _ _)
  refine h.take { h.toBetween with volumes := fun volume' => ?_ }
    ⟨fun _ => id, id, fun volume' hfalse => ?_, fun _ => id⟩ (fun k hk hk' => by omega) (fun _ => rfl) h.directory h.unregistered
  · obtain heq | ⟨rfl, hfalse⟩ := hvolumes volume'
    · exact heq ▸ h.volumes volume'
    · exact .inr ⟨hmem, hfalse⟩
  · obtain heq | ⟨-, hfalse'⟩ := hvolumes volume'
    · exact heq.trans hfalse
    · exact hfalse'

/-- A path that is deleted is gone, and the others stay. -/
theorem paths_delete {path : PyStr} (h : Between m HOME s t)
    (hpath : path = instanceDir m HOME ∨ path = m.flakeRefFile HOME)
    (hsockets : s.paths (instanceDir m HOME) = true → path = instanceDir m HOME → ∀ role, t.masters role = false) :
    Between m HOME s (effect (.deleteTree path) t) ∧ Shrinks m t (effect (.deleteTree path) t) ∧
      (effect (.deleteTree path) t).paths path = false := by
  have hgone : (effect (.deleteTree path) t).paths path = false := Function.update_self _ _ _
  have hpaths : ∀ path', path' ≠ path → (effect (.deleteTree path) t).paths path' = t.paths path' :=
    fun path' hne => Function.update_of_ne hne _ _
  refine ⟨{ h with paths := fun path' => ?_, sockets := fun hthere hgone' => ?_ },
    ⟨fun _ => id, id, fun _ => id, fun path' hfalse => ?_⟩, hgone⟩
  · by_cases heq : path' = path
    · exact .inr (.inl ⟨heq ▸ hpath, heq ▸ hgone⟩)
    · rw [hpaths path' heq]
      exact h.paths path'
  · by_cases heq : path = instanceDir m HOME
    · exact hsockets hthere heq
    · exact h.sockets hthere (hpaths _ (Ne.symm heq) ▸ hgone')
  · by_cases heq : path' = path
    · exact heq ▸ hgone
    · rw [hpaths path' heq, hfalse]

theorem Reached.clear (h : Reached m HOME hasHerdr s 4 t) :
    Reached m HOME hasHerdr s 5 (effect (.deleteTree (instanceDir m HOME)) t) := by
  obtain ⟨hbetween, hle, hgone⟩ := paths_delete h.toBetween (.inl rfl) fun hpath _ => h.closed (by omega) hpath
  refine h.take hbetween hle (fun k hk hk' => ?_) (fun _ => rfl) (fun hn => by omega) fun _ => h.unregistered (by omega)
  obtain rfl : k = 5 := by omega
  exact hgone

theorem Reached.forget (h : Reached m HOME hasHerdr s 6 t) :
    Reached m HOME hasHerdr s 7 (effect (.deleteFile (m.flakeRefFile HOME)) t) := by
  have hsockets : s.paths (instanceDir m HOME) = true → ∀ role, t.masters role = false := h.closed (by omega)
  obtain ⟨hbetween, hle, hgone⟩ := paths_delete h.toBetween (.inr rfl) fun hpath _ => hsockets hpath
  refine h.take hbetween hle (fun k hk hk' => ?_) (fun _ => rfl) (fun hn => by omega) fun hn => by omega
  obtain rfl : k = 7 := by omega
  exact hgone

theorem goneId_mem {id : PyStr} (h : goneId s m hasHerdr = some id) :
    ∃ own ∈ s.herdr, own.target = some (m.box .libvirt).herdrAlias ∧ own.id = some id := by
  unfold goneId at h
  split_ifs at h with hherdr
  obtain ⟨own, hfind, hid⟩ := Option.bind_eq_some_iff.mp h
  exact ⟨own, List.mem_of_find?_eq_some hfind, by simpa using List.find?_some hfind, hid⟩

theorem Reached.deregister {id : PyStr} (h : Reached m HOME hasHerdr s 5 t) (hid : goneId s m hasHerdr = some id) :
    Reached m HOME hasHerdr s 6 (effect (.herdrRemove id) t) := by
  have hfilter : (effect (.herdrRemove id) t).herdr = s.herdr.filter fun entry => entry.id != some id := by
    show (t.herdr.filter fun entry => entry.id != some id) = _
    rw [h.unregistered (by omega)]
  have hbetween : Between m HOME s (effect (.herdrRemove id) t) := by
    refine { h.toBetween with herdr := fun entry hmem => ?_, registered := fun entry hmem => ?_ }
    · rw [hfilter] at hmem
      exact List.mem_of_mem_filter hmem
    · rw [hfilter, List.mem_filter]
      by_cases heq : entry.id = some id
      · obtain ⟨own, hown, htarget, hown'⟩ := goneId_mem hid
        exact .inr ⟨own, hown, htarget, hown'.trans heq.symm⟩
      · exact .inl ⟨hmem, bne_iff_ne.mpr heq⟩
  refine h.take hbetween ⟨fun _ h => h, fun h => h, fun _ h => h, fun _ h => h⟩ (fun k hk hk' => ?_)
    (fun hn => by omega) (fun hn => by omega) fun hn => by omega
  obtain rfl : k = 6 := by omega
  show _ = herdrLeft s m hasHerdr
  rw [hfilter, herdrLeft, hid]

/-! ## The steps -/

/-- What `yo destroy --yes` does with some steps. -/
def carry (steps : List Removal) : Py Unit :=
  each steps fun step => (py (.out (.step step.what))).bind fun _ => step.remove

theorem takes_nil {P : Host → Prop} (h : ∀ t, Reached m HOME hasHerdr s n t → P t) :
    Takes m HOME hasHerdr s n (carry []) P :=
  fun t ht => h t ht

theorem takes_cons {step : Removal} {steps : List Removal} {n' : ℕ} {P : Host → Prop}
    (h : Takes m HOME hasHerdr s n step.remove (Reached m HOME hasHerdr s n'))
    (hrest : Takes m HOME hasHerdr s n' (carry steps) P) : Takes m HOME hasHerdr s n (carry (step :: steps)) P := by
  intro t ht
  refine wpIn_then (wpIn_then ?_ fun _ u hu => h u hu) fun _ u hu => hrest u hu
  exact wpIn_glance (P := fun _ => Reached m HOME hasHerdr s n) ⟨rfl, fun _ => trivial⟩ ht (fun u hu _ _ _ => hu) rfl

theorem takes_one {step : Removal} {P : Host → Prop} (h : Takes m HOME hasHerdr s n step.remove P) :
    Takes m HOME hasHerdr s n (carry [step]) P := by
  intro t ht
  refine wpIn_then (P := fun _ => P) (wpIn_then ?_ fun _ u hu => h u hu) fun _ u hu => hu
  exact wpIn_glance (P := fun _ => Reached m HOME hasHerdr s n) ⟨rfl, fun _ => trivial⟩ ht (fun u hu _ _ _ => hu) rfl

theorem takes_append {steps steps' : List Removal} {n' : ℕ} {P : Host → Prop}
    (h : Takes m HOME hasHerdr s n (carry steps) (Reached m HOME hasHerdr s n'))
    (h' : Takes m HOME hasHerdr s n' (carry steps') P) : Takes m HOME hasHerdr s n (carry (steps ++ steps')) P := by
  intro t ht
  rw [carry, each_append]
  exact wpIn_then (h t ht) fun _ u hu => h' u hu

theorem takes_stopMaster :
    Takes m HOME hasHerdr s n (stopMaster role) fun u =>
      Reached m HOME hasHerdr s n u ∧ (u.paths (instanceDir m HOME) = true → u.masters role = false) := by
  intro t ht
  refine wpIn_then (P := fun _ => Reached m HOME hasHerdr s n)
    (wpIn_do ht trivial (fun _ u hu _ => hu) fun u hu _ r _ => ⟨(hu.exited role).toBetween, fun _ _ => hu.exited role⟩)
    fun _ u hu => ?_
  refine wpIn_then (P := fun alive v => Reached m HOME hasHerdr s n v ∧
    alive = (v.masters role && v.paths (instanceDir m HOME)))
    (wpIn_glance ⟨rfl, fun _ => trivial⟩ hu (fun v hv _ alive hanswer => ⟨hv, hanswer alive rfl⟩) rfl) fun alive v hv => ?_
  obtain ⟨hv, rfl⟩ := hv
  split_ifs with halive
  · exact hv.toBetween
  · refine ⟨hv, fun hpath => ?_⟩
    rw [hpath, Bool.and_true, Bool.not_eq_true] at halive
    exact halive

/-- A master is closed before the directory goes, if there is a directory. -/
theorem takes_closing {close : Py Unit} (hn : n < 5)
    (hclose : s.paths (instanceDir m HOME) = true → Takes m HOME hasHerdr s n close fun u =>
      Reached m HOME hasHerdr s n u ∧ (u.paths (instanceDir m HOME) = true → u.masters role = false)) :
    Takes m HOME hasHerdr s n (carry (closing s m HOME role close)) fun u =>
      Reached m HOME hasHerdr s n u ∧ (s.paths (instanceDir m HOME) = true → u.masters role = false) := by
  unfold closing
  split_ifs with hthere
  · rw [Bool.and_eq_true] at hthere
    refine takes_one fun t ht => wpIn_mono (hclose hthere.2 t ht) (fun _ u hu => ⟨hu.1, fun hpath => ?_⟩)
      (fun _ _ hu => hu) fun _ hu => hu
    exact hu.2 ((hu.1.directory hn).trans hpath)
  · refine takes_nil fun t ht => ⟨ht, fun hpath => ?_⟩
    rw [hpath, Bool.and_true] at hthere
    exact Bool.eq_false_iff.mpr fun htrue => hthere (ht.masters role htrue)

theorem takes_closeMaster (hpath : s.paths (instanceDir m HOME) = true) (hn : n < 5) :
    Takes m HOME hasHerdr s n (closeMaster m HOME) fun u =>
      Reached m HOME hasHerdr s n u ∧ (u.paths (instanceDir m HOME) = true → u.masters .operator = false) := by
  intro t ht
  refine wpIn_then (P := fun _ => Reached m HOME hasHerdr s n) ?_ fun _ u hu => takes_stopMaster u hu
  refine wpIn_do ht ⟨rfl, (ht.directory hn).trans hpath⟩ (fun _ u hu _ => hu) fun u hu _ r _ => ?_
  rw [effect_privateDir ((hu.directory hn).trans hpath)]
  exact ⟨hu.toBetween, fun _ _ => hu⟩

/-- `force_stop` returns when the domain is off. -/
theorem takes_forceStop :
    Takes m HOME hasHerdr s n (forceStop m) fun u =>
      Reached m HOME hasHerdr s n u ∧ u.domains m.domainName = some Stop.STATE_OFF := by
  intro t ht
  refine wpIn_then (P := fun _ => Reached m HOME hasHerdr s n)
    (wpIn_glance ⟨rfl, fun _ => trivial⟩ ht (fun u hu _ _ _ => hu) rfl) fun names u hu => ?_
  split_ifs with hnames
  · refine wpIn_then (P := fun state v => Reached m HOME hasHerdr s n v ∧ v.domains m.domainName = some state)
      (wpIn_glance ⟨rfl, fun _ => trivial⟩ hu (fun v hv _ state hanswer => ⟨hv, hanswer state rfl⟩) rfl)
      fun state v hv => ?_
    obtain ⟨hv, hstate⟩ := hv
    split_ifs with hoff
    · exact ⟨hv, hoff ▸ hstate⟩
    · refine wpIn_do hv rfl (fun hsilent => nomatch hsilent) fun w hw _ r hanswer => ?_
      refine ⟨(hw.drift untouched_destroy).toBetween, fun _ hr => ⟨hw.drift untouched_destroy, ?_⟩⟩
      obtain ⟨state', hstate'⟩ := Option.isSome_iff_exists.mp (hanswer hr)
      show Function.update w.domains m.domainName _ m.domainName = _
      rw [Function.update_self, hstate', Option.map_some]
  · exact hu.toBetween

theorem takes_undefineDomain :
    Takes m HOME hasHerdr s 2 (undefineDomain m) (Reached m HOME hasHerdr s 3) := by
  intro t ht
  refine wpIn_then (takes_forceStop t ht) fun _ u hu => ?_
  refine wpIn_do hu.1 ⟨rfl, hu.2⟩ (fun hsilent => nomatch hsilent) fun v hv hdrift r _ => ?_
  have hgone := hv.undefine (hdrift.off rfl hu.2)
  exact ⟨hgone.toBetween, fun _ _ => hgone⟩

theorem takes_ending (active : Bool) :
    Takes m HOME hasHerdr s 2 (carry (ending s m active)) (Reached m HOME hasHerdr s 3) := by
  unfold ending
  split_ifs with hsome hactive
  · refine takes_cons (fun t ht => ?_) (takes_one takes_undefineDomain)
    exact wpIn_mono (takes_forceStop t ht) (fun _ _ hu => hu.1) (fun _ _ hu => hu) fun _ hu => hu
  · exact takes_one takes_undefineDomain
  · refine takes_nil fun t ht => ht.next (Option.isNone_iff_eq_none.mp ?_)
    rw [← Option.not_isSome, Bool.not_eq_true', Bool.eq_false_iff]
    exact fun hsome' => hsome (ht.domain hsome')

/-- Each volume that was there is deleted; the others were not there. -/
theorem takes_deleting :
    Takes m HOME hasHerdr s 3 (carry (deleting s m)) (Reached m HOME hasHerdr s 4) := by
  have hloop : ∀ (volumes : List PyStr) (gone : PyStr → Prop), (∀ volume ∈ volumes, volume ∈ m.volumes) →
      ∀ t, Reached m HOME hasHerdr s 3 t → (∀ volume, gone volume → t.volumes volume = false) →
        (carry (volumes.map fun volume => ⟨.volume volume, py (.volDelete volume)⟩)).wpIn (host m HOME) (Allowed m HOME)
          (post (fun _ u => Reached m HOME hasHerdr s 3 u ∧
            ∀ volume, gone volume ∨ volume ∈ volumes → u.volumes volume = false) (Between m HOME s)) t := by
    intro volumes
    induction volumes with
    | nil =>
      refine fun gone _ t ht hgone => ⟨ht, fun volume hvolume => ?_⟩
      exact hgone volume (hvolume.resolve_right List.not_mem_nil)
    | cons volume volumes ih =>
      intro gone hmem t ht hgone
      rw [List.forall_mem_cons] at hmem
      refine wpIn_then (P := fun _ u => Reached m HOME hasHerdr s 3 u ∧
        ∀ x, gone x ∨ x = volume → u.volumes x = false) ?_ fun _ u hu => ?_
      · refine wpIn_then (P := fun _ u => Reached m HOME hasHerdr s 3 u ∧ ∀ x, gone x → u.volumes x = false)
          (wpIn_glance ⟨rfl, fun _ => trivial⟩ ht (fun u hu hsame _ _ => ⟨hu, hsame.volumes ▸ hgone⟩) rfl)
          fun _ u hu => ?_
        refine wpIn_do hu.1 ⟨hmem.1, hu.1.past 3 (by omega)⟩ (fun hsilent => nomatch hsilent) fun v hv hdrift r _ => ?_
        refine ⟨(hv.delete hmem.1).toBetween, fun _ _ => ⟨hv.delete hmem.1, ?_⟩⟩
        rintro x (hx | rfl)
        · have hx' : v.volumes x = false := hdrift.untouched.volumes ▸ hu.2 x hx
          show Function.update v.volumes volume false x = false
          rw [Function.update_apply, hx', ite_self]
        · exact Function.update_self _ _ _
      · refine wpIn_mono (ih _ hmem.2 u hu.1 hu.2) (fun _ v hv => ⟨hv.1, fun x hx => hv.2 x ?_⟩)
          (fun _ _ hv => hv) fun _ hv => hv
        rw [List.mem_cons] at hx
        tauto
  intro t ht
  refine wpIn_mono (hloop _ (fun volume => s.volumes volume = false) (fun volume hmem => List.mem_of_mem_filter hmem) t ht
    fun volume hvolume => ?_) (fun _ u hu => hu.1.next fun volume hmem => hu.2 volume ?_) (fun _ _ hu => hu) fun _ hu => hu
  · obtain heq | ⟨-, hgone⟩ := ht.volumes volume
    · exact heq.trans hvolume
    · exact hgone
  · cases hvolume : s.volumes volume with
    | false => exact .inl rfl
    | true => exact .inr (List.mem_filter.mpr ⟨hmem, hvolume⟩)

theorem takes_clearing :
    Takes m HOME hasHerdr s 4 (carry (clearing s m HOME)) (Reached m HOME hasHerdr s 5) := by
  unfold clearing
  split_ifs with hpath
  · refine takes_one fun t ht => wpIn_do ht ⟨rfl, ht.past 3 (by omega), ht.past 4 (by omega), ht.closed (by omega) hpath⟩
      (fun hsilent => nomatch hsilent) fun u hu _ r _ => ⟨hu.clear.toBetween, fun _ _ => hu.clear⟩
  · refine takes_nil fun t ht => ht.next ?_
    exact (ht.directory (by omega)).trans (Bool.eq_false_iff.mpr hpath)

theorem takes_deregistering :
    Takes m HOME hasHerdr s 5 (carry (deregistering s m hasHerdr)) (Reached m HOME hasHerdr s 6) := by
  have hnone : goneId s m hasHerdr = none → ∀ t, Reached m HOME hasHerdr s 5 t → Reached m HOME hasHerdr s 6 t :=
    fun hid t ht => ht.next (show t.herdr = _ by rw [herdrLeft, hid, ht.unregistered (by omega)])
  have hsteps : deregistering s m hasHerdr = (goneId s m hasHerdr).toList.map fun id =>
      ⟨.herdrMachine (m.box .libvirt).herdrAlias, py (.herdrRemove id)⟩ := by
    cases hasHerdr <;> rfl
  rw [hsteps]
  cases hid : goneId s m hasHerdr with
  | none => exact takes_nil (hnone hid)
  | some id =>
    refine takes_one fun t ht => wpIn_do ht ?_ (fun hsilent => nomatch hsilent) fun u hu _ r _ =>
      ⟨(hu.deregister hid).toBetween, fun _ _ => hu.deregister hid⟩
    show ∃ entry ∈ t.herdr, _
    rw [ht.unregistered (by omega)]
    exact goneId_mem hid

theorem takes_forgetting :
    Takes m HOME hasHerdr s 6 (carry (forgetting s m HOME)) (Reached m HOME hasHerdr s 7) := by
  unfold forgetting
  split_ifs with hpath
  · exact takes_one fun t ht => wpIn_do ht rfl (fun hsilent => nomatch hsilent) fun u hu _ r _ =>
      ⟨hu.forget.toBetween, fun _ _ => hu.forget⟩
  · refine takes_nil fun t ht => ht.next ?_
    obtain heq | ⟨-, hgone⟩ | ⟨heq, -⟩ := ht.paths (m.flakeRefFile HOME)
    · exact heq.trans (Bool.eq_false_iff.mpr hpath)
    · exact hgone
    · exact absurd heq.symm (m.unlockLock_ne .libvirt HOME).2

/-- **All the steps**, from a host where none was taken to one where all were. -/
theorem takes_stepsOf (active : Bool) :
    Takes m HOME hasHerdr s 0 (carry (stepsOf s m HOME hasHerdr active)) (Reached m HOME hasHerdr s 7) := by
  have hagent : Takes m HOME hasHerdr s 0 (carry (closing s m HOME .agent (stopMaster .agent)))
      (Reached m HOME hasHerdr s 1) := fun t ht =>
    wpIn_mono (takes_closing (by omega) (fun _ => takes_stopMaster) t ht) (fun _ u hu => hu.1.next hu.2)
      (fun _ _ hu => hu) fun _ hu => hu
  have hoperator : Takes m HOME hasHerdr s 1 (carry (closing s m HOME .operator (closeMaster m HOME)))
      (Reached m HOME hasHerdr s 2) := fun t ht =>
    wpIn_mono (takes_closing (by omega) (fun hpath => takes_closeMaster hpath (by omega)) t ht)
      (fun _ u hu => hu.1.next hu.2) (fun _ _ hu => hu) fun _ hu => hu
  have hdriver := takes_append (takes_append (takes_append hoperator (takes_ending active)) takes_deleting) takes_clearing
  exact takes_append (takes_append (takes_append hagent hdriver) takes_deregistering) takes_forgetting

/-! ## Whole runs -/

/-- Nothing of the machine is left but the file of its lock. -/
structure Gone (m : Machine) (HOME : PyStr) (s t : Host) : Prop where
  domain : t.domains m.domainName = none
  volumes : ∀ volume ∈ m.volumes, t.volumes volume = false
  directory : t.paths (instanceDir m HOME) = false
  flakeRef : t.paths (m.flakeRefFile HOME) = false
  lock : t.paths (m.unlockLock HOME) = true
  masters : s.paths (instanceDir m HOME) = true → ∀ role, t.masters role = false

theorem Between.trans (h : Between m HOME s t) (h' : Between m HOME t u) : Between m HOME s u where
  masters role hrole := h.masters role (h'.masters role hrole)
  others domain hne := (h'.others domain hne).trans (h.others domain hne)
  domain hsome := h.domain (h'.domain hsome)
  volumes volume := by
    obtain heq | hgone := h'.volumes volume
    · exact heq ▸ h.volumes volume
    · exact .inr hgone
  paths path := by
    obtain heq | hchanged := h'.paths path
    · exact heq ▸ h.paths path
    · exact .inr hchanged
  herdr entry hmem := h.herdr entry (h'.herdr entry hmem)
  registered entry hmem := by
    obtain hmem' | hown := h.registered entry hmem
    · obtain hmem'' | ⟨own, hown, hid⟩ := h'.registered entry hmem'
      · exact .inl hmem''
      · exact .inr ⟨own, h.herdr own hown, hid⟩
    · exact .inr hown
  sockets hthere hgone role := by
    cases hpath : t.paths (instanceDir m HOME) with
    | true => exact h'.sockets hpath hgone role
    | false =>
      have hclosed := h.sockets hthere hpath role
      exact Bool.eq_false_iff.mpr fun hrole => Bool.eq_false_iff.mp hclosed (h'.masters role hrole)

theorem wpIn_dryRun :
    (cmdDestroy m HOME hasHerdr false).wpIn (host m HOME) (Allowed m HOME) (post (fun _ => Untouched m s) (Untouched m s)) s := by
  have hout : ∀ line t, Untouched m s t →
      (py (.out line)).wpIn (host m HOME) (Allowed m HOME) (post (fun _ => Untouched m s) (Untouched m s)) t :=
    fun line t ht => wpIn_look ⟨rfl, fun _ => trivial⟩ ht fun u hu _ _ => hu
  refine wpIn_then (wpIn_destructionSteps (.refl m s)) fun steps t ht => ?_
  rw [carryOut, if_neg Bool.false_ne_true]
  split_ifs
  · exact hout _ t ht.1
  · refine wpIn_then (hout _ t ht.1) fun _ u hu => wpIn_then (P := fun _ => Untouched m s) ?_ fun _ v hv => hout _ v hv
    exact wpIn_each (fun step _ v hv => hout (.step step.what) v hv) hu

/-- Under the lock, whose file is there now. -/
structure Locked (m : Machine) (HOME : PyStr) (s t : Host) : Prop extends Between m HOME s t where
  file : t.paths (m.unlockLock HOME) = true
  listed : t.herdr = s.herdr

theorem Untouched.locked (h : Untouched m s t) :
    Locked m HOME s (effect (.unlockLock (m.unlockLock HOME)) t) := by
  have hfile : (effect (.unlockLock (m.unlockLock HOME)) t).paths (m.unlockLock HOME) = true :=
    Function.update_self _ _ _
  have hpaths : ∀ path, path ≠ m.unlockLock HOME →
      (effect (.unlockLock (m.unlockLock HOME)) t).paths path = t.paths path :=
    fun path hne => Function.update_of_ne hne _ _
  have hbetween : Between m HOME s t := h.between
  refine {
    toBetween := { hbetween with paths := fun path => ?_, sockets := fun hthere hgone => ?_ }
    file := hfile
    listed := h.herdr }
  · by_cases heq : path = m.unlockLock HOME
    · exact .inr (.inr ⟨heq, heq ▸ hfile⟩)
    · exact .inl ((hpaths path heq).trans (by rw [h.paths]))
  · have hdir : instanceDir m HOME ≠ m.unlockLock HOME := (m.unlockLock_ne .libvirt HOME).1.symm
    rw [hpaths _ hdir] at hgone
    exact hbetween.sockets hthere hgone

/-- The steps under the lock. -/
theorem wpIn_steps (t : Host) :
    ((destructionSteps m HOME hasHerdr).bind (carryOut m true)).wpIn (host m HOME) (Allowed m HOME)
      (post (fun _ => Reached m HOME hasHerdr t 7) (Between m HOME t)) t := by
  refine wpIn_then (wpIn_mono (wpIn_destructionSteps (.refl m t)) (fun _ _ hu => hu)
    (fun _ _ hu => hu.between) fun _ hu => hu.between) fun steps u hu => ?_
  obtain ⟨hu, active, rfl⟩ := hu
  have hsteps : (carry (stepsOf t m HOME hasHerdr active)).wpIn _ _ _ u := takes_stepsOf active u hu.reached
  rw [carryOut, if_pos rfl]
  split_ifs with hempty
  · rw [List.isEmpty_iff] at hempty
    rw [hempty] at hsteps
    exact wpIn_glance ⟨rfl, fun _ => trivial⟩ hsteps (fun v hv _ _ _ => hv) rfl
  · exact hsteps

theorem wpIn_destroy :
    (cmdDestroy m HOME hasHerdr true).wpIn (host m HOME) (Allowed m HOME)
      (post (fun _ u => ∃ t, Locked m HOME s t ∧ Reached m HOME hasHerdr t 7 u) (Between m HOME s)) s := by
  refine wpIn_then (P := fun _ t => Locked m HOME s t)
    (wpIn_cmd trivial (Untouched.refl m s).between (fun free t' hm => ?_) fun t' hm => ?_) fun free t ht => ?_
  · obtain ⟨u, hdrift, -, rfl | ⟨hfail, rfl⟩⟩ := hm
    · exact ⟨hdrift.untouched.locked.toBetween, hdrift.untouched.locked⟩
    · rcases hfail with hnone | hsilent
      · cases hnone
      · cases hsilent
  · obtain ⟨u, hdrift, -, rfl | ⟨-, rfl⟩⟩ := hm
    · exact ⟨hdrift.untouched.locked.toBetween, hdrift.untouched.locked.toBetween⟩
    · exact ⟨hdrift.untouched.between, hdrift.untouched.between⟩
  · split_ifs
    · exact wpIn_mono (wpIn_steps t) (fun _ u hu => ⟨t, ht, hu⟩)
        (fun _ u hu => ht.toBetween.trans hu) fun u hu => ht.toBetween.trans hu
    · exact ht.toBetween

/-- What may happen to the host: a run of `yo destroy` that ends anyhow, or a domain that
another starts or that stops. -/
def Later (m : Machine) (HOME : PyStr) (t u : Host) : Prop :=
  Untouched m t u ∨ ∃ hasHerdr yes o, (cmdDestroy m HOME hasHerdr yes).Ends (host m HOME) t o u

theorem Later.between (h : Later m HOME t u) : Between m HOME t u := by
  obtain hsame | ⟨hasHerdr, yes, o, hends⟩ := h
  · exact hsame.between
  · cases yes with
    | false =>
      have hpost := (wpIn_iff.mp wpIn_dryRun).2 o u hends
      cases o with
      | returned _ => exact Untouched.between hpost
      | raised e => exact Untouched.between hpost
      | killed => exact Untouched.between hpost
    | true =>
      have hpost := (wpIn_iff.mp wpIn_destroy).2 o u hends
      cases o with
      | returned _ =>
        obtain ⟨_, hlocked, hreached⟩ := hpost
        exact hlocked.toBetween.trans hreached.toBetween
      | raised e => exact hpost
      | killed => exact hpost

/-! ### A machine that runs -/

/-- What a host answers that does what it is told; `names` has its domains and volumes. -/
def told (directory : PyStr) (names : List PyStr) : (c : Cmd) → Host → Option (Answer c)
  | .unlockLock _, _ => some true
  | .checkMaster role, h => some (h.masters role && h.paths directory)
  | .domainNames, h => some (names.filter fun domain => (h.domains domain).isSome)
  | .domstate domain, h => h.domains domain
  | .destroy domain, h => (h.domains domain).map fun _ => ()
  | .volumeNames, h => some (names.filter h.volumes)
  | .pathExists path, h => some (h.paths path)
  | .herdrList, h => some (some h.herdr)
  | .exitMaster _, _ | .privateDir _, _ | .undefine _, _ | .volDelete _, _ | .deleteTree _, _ | .deleteFile _, _
  | .herdrRemove _, _ | .out _, _ => some ()

/-- All that the host has is among the names. -/
structure Named (names : List PyStr) (h : Host) : Prop where
  domains : ∀ domain, (h.domains domain).isSome = true → domain ∈ names
  volumes : ∀ volume, h.volumes volume = true → volume ∈ names

theorem Named.effect {names : List PyStr} (hnamed : Named names s) (c : Cmd) : Named names (effect c s) := by
  cases c
  case destroy domain =>
    refine ⟨fun domain' hsome => hnamed.domains domain' ?_, hnamed.volumes⟩
    simp only [Destroy.effect, Function.update_apply] at hsome
    split_ifs at hsome with heq
    · rwa [Option.isSome_map, ← heq] at hsome
    · exact hsome
  case undefine domain =>
    rw [Destroy.effect]
    split_ifs
    · refine ⟨fun domain' hsome => hnamed.domains domain' ?_, hnamed.volumes⟩
      simp only [Function.update_apply] at hsome
      split_ifs at hsome
      · cases hsome
      · exact hsome
    · exact hnamed
  case volDelete volume =>
    refine ⟨hnamed.domains, fun volume' hvolume => hnamed.volumes volume' ?_⟩
    simp only [Destroy.effect, Function.update_apply] at hvolume
    split_ifs at hvolume
    exact hvolume
  all_goals exact ⟨hnamed.domains, hnamed.volumes⟩

theorem Drifts.refl (domain : PyStr) (c : Cmd) (h : Host) : Drifts domain c h h where
  others := ⟨h.domains domain, by rw [Function.update_eq_self], rfl⟩
  off _ hoff := hoff

theorem host_told {names : List PyStr} (hnamed : Named names s) (c : Cmd) :
    host m HOME c s (told (instanceDir m HOME) names c s) (effect c s) := by
  refine ⟨s, .refl _ _ _, ?_, .inl rfl⟩
  cases c
  case domainNames =>
    intro names' heq domain
    obtain rfl := Option.some.inj heq
    rw [List.mem_filter]
    exact ⟨And.right, fun hsome => ⟨hnamed.domains domain hsome, hsome⟩⟩
  case volumeNames =>
    intro names' heq volume
    obtain rfl := Option.some.inj heq
    rw [List.mem_filter]
    exact ⟨And.right, fun hvolume => ⟨hnamed.volumes volume hvolume, hvolume⟩⟩
  case destroy domain =>
    intro hdone
    obtain ⟨state, hstate, -⟩ := Option.map_eq_some_iff.mp hdone
    exact Option.isSome_iff_exists.mpr ⟨state, hstate⟩
  case domstate domain => exact fun _ hstate => hstate
  case checkMaster role => exact fun _ halive => (Option.some.inj halive).symm
  case pathExists path => exact fun _ hthere => (Option.some.inj hthere).symm
  case herdrList => exact fun _ hentries => (Option.some.inj (Option.some.inj hentries)).symm
  all_goals trivial

def box : Machine := ⟨lit "box", by decide⟩

/-- The box runs, its masters are open and it is registered with herdr. -/
def running : Host where
  masters _ := true
  domains domain := if domain = box.domainName then some (lit "running") else none
  volumes volume := decide (volume ∈ box.volumes)
  paths path := decide (path ∈ box.files .libvirt (lit "/home/u"))
  herdr := [⟨some (box.box .libvirt).herdrAlias, some (lit "7")⟩]

def runsIt : (c : Cmd) → Host → Option (Answer c) × Host :=
  fun c h => (told (instanceDir box (lit "/home/u")) (box.domainName :: box.volumes) c h, effect c h)

end Destroy
