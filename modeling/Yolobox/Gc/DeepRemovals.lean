/-
# What `gc --deep` removes

The runs of `deep_plan` and `apply_deep_plan`, from every state of the box: a directory is
removed under one of three names, when git neither tracks nor sees a file in it, and what is
removed is what stands there, never what a link points at.
-/
import Yolobox.Gc.DeepPlan

open FileTree (nodeAt get alter Node Leads)

namespace Gc

variable {t t' : Tree} {path place p q : Path} {name : PyStr}

/-! ## Where a path leads -/

theorem locate_eq_some (h : locate t path = some p) : ∃ name place mode, path.getLast? = some name ∧
    realpath t path.dropLast = some place ∧ nodeAt t place = some (.dir mode) ∧ p = place ++ [name] := by
  unfold locate at h
  split at h
  · rename_i name place hname hplace
    split at h
    · rename_i mode hnode
      exact ⟨name, place, mode, hname, hplace, hnode, (Option.some.inj h).symm⟩
    · cases h
  · cases h

theorem leads_of_locate (h : locate t path = some p) : Leads t p := by
  obtain ⟨name, place, mode, -, -, hnode, rfl⟩ := locate_eq_some h
  have hplace : nodeAt t place ≠ none := by
    rw [hnode]
    exact Option.some_ne_none _
  exact (FileTree.leads_of_nodeAt hplace).concat hnode

/-- A name that is no way up and no way to stay. -/
def IsEntryName (name : PyStr) : Prop := name ≠ [] ∧ name ≠ lit "." ∧ name ≠ lit ".."

/-- A way that ends in a name ends there, or where a link of that name points. -/
theorem walk_concat {follow : Path → Path → Option Path} (hname : IsEntryName name)
    (hfollow : ∀ place rest p, follow place (rest ++ [name]) = some p → ∃ above, follow place rest = some above ∧
      nodeAt t (above ++ [name]) ≠ none ∧
      (p = above ++ [name] ∨ ∃ target, nodeAt t (above ++ [name]) = some (.leaf (.link target))))
    (h : walk follow t place (path ++ [name]) = some p) :
    ∃ above, walk follow t place path = some above ∧ nodeAt t (above ++ [name]) ≠ none ∧
      (p = above ++ [name] ∨ ∃ target, nodeAt t (above ++ [name]) = some (.leaf (.link target))) := by
  induction path generalizing place with
  | nil =>
    refine ⟨place, rfl, ?_⟩
    rw [List.nil_append, walk, if_neg fun hor => hor.elim hname.1 hname.2.1, if_neg hname.2.2] at h
    split at h
    · rename_i hnode
      rw [hnode]
      exact ⟨Option.some_ne_none _, .inl (Option.some.inj h).symm⟩
    · rename_i target hnode
      rw [hnode]
      exact ⟨Option.some_ne_none _, .inr ⟨target, rfl⟩⟩
    · rename_i hnode
      rw [hnode]
      exact ⟨Option.some_ne_none _, .inl (Option.some.inj h).symm⟩
    · exact absurd h nofun
  | cons first rest ih =>
    rw [List.cons_append, walk] at h
    rw [walk]
    by_cases hstay : first = [] ∨ first = lit "."
    · rw [if_pos hstay] at h ⊢
      exact ih h
    · by_cases hup : first = lit ".."
      · rw [if_neg hstay, if_pos hup] at h ⊢
        exact ih h
      · rw [if_neg hstay, if_neg hup] at h ⊢
        split at h
        · exact ih h
        · rw [← List.append_assoc] at h
          exact hfollow _ _ p h
        · rw [if_neg (List.append_ne_nil_of_right_ne_nil rest (List.cons_ne_nil name []))] at h
          exact absurd h nofun
        · exact absurd h nofun

theorem resolve_concat (hname : IsEntryName name) (links : ℕ) (place path p : Path)
    (h : resolve t links place (path ++ [name]) = some p) :
    ∃ above, resolve t links place path = some above ∧ nodeAt t (above ++ [name]) ≠ none ∧
      (p = above ++ [name] ∨ ∃ target, nodeAt t (above ++ [name]) = some (.leaf (.link target))) := by
  induction links generalizing place path p with
  | zero => exact absurd h nofun
  | succ links ih => exact walk_concat hname (fun place rest p h => ih place rest p h) h

/-- What is no link is where its path leads. -/
theorem locate_of_realpath (hlast : path.getLast? = some name) (hname : IsEntryName name)
    (hlink : ¬IsLink t path) (h : realpath t path = some p) : locate t path = some p := by
  obtain ⟨init, rfl⟩ : ∃ init, path = init ++ [name] :=
    ⟨path.dropLast, (List.dropLast_append_getLast? name hlast).symm⟩
  obtain ⟨above, habove, hnode, hend⟩ := resolve_concat hname 41 [] init p h
  obtain ⟨mode, hdir⟩ := FileTree.dir_of_nodeAt_append hnode (List.cons_ne_nil name [])
  have hlocate : locate t (init ++ [name]) = some (above ++ [name]) := by
    unfold locate
    rw [List.getLast?_concat, List.dropLast_concat, realpath, habove]
    simp only [hdir]
  rcases hend with rfl | ⟨target, htarget⟩
  · exact hlocate
  · exact absurd ⟨_, target, hlocate, htarget⟩ hlink

/-! ## What modes do not change -/

/-- An entry but for its mode. -/
def kind : Node Leaf ℕ → Node Leaf ℕ
  | .dir _ => .dir 0
  | .leaf leaf => .leaf leaf

theorem kind_grant (n : Node Leaf ℕ) : kind (grant n) = kind n := by
  cases n with
  | dir mode => rfl
  | leaf leaf => rfl

def SameKinds (t t' : Tree) : Prop := ∀ q, (nodeAt t q).map kind = (nodeAt t' q).map kind

theorem walk_congr (h : SameKinds t t') {follow follow' : Path → Path → Option Path} (hfollow : follow = follow')
    (place path : Path) : walk follow t place path = walk follow' t' place path := by
  subst hfollow
  induction path generalizing place with
  | nil => rfl
  | cons name rest ih =>
    have hnode := h (place ++ [name])
    rw [walk, walk]
    by_cases hstay : name = [] ∨ name = lit "."
    · rw [if_pos hstay, if_pos hstay, ih]
    · by_cases hup : name = lit ".."
      · rw [if_neg hstay, if_neg hstay, if_pos hup, if_pos hup, ih]
      · rw [if_neg hstay, if_neg hstay, if_neg hup, if_neg hup]
        cases hleft : nodeAt t (place ++ [name]) with
        | none =>
          rw [hleft] at hnode
          rw [Option.map_eq_none_iff.mp hnode.symm]
        | some n =>
          rw [hleft] at hnode
          obtain ⟨n', hright, hkind⟩ := Option.map_eq_some_iff.mp hnode.symm
          rw [hright]
          rcases n with (inode | target) | mode <;> rcases n' with (inode' | target') | mode' <;>
            simp only [kind, Node.leaf.injEq, Leaf.link.injEq, reduceCtorEq] at hkind
          · rfl
          · rw [hkind]
          · exact ih _

theorem resolve_congr (h : SameKinds t t') (links : ℕ) : resolve t links = resolve t' links := by
  induction links with
  | zero => rfl
  | succ links ih => exact funext fun place => funext fun path => walk_congr h ih place path

theorem locate_congr (h : SameKinds t t') (path : Path) : locate t path = locate t' path := by
  have hreal : realpath t path.dropLast = realpath t' path.dropLast := by
    rw [realpath, realpath, resolve_congr h]
  unfold locate
  rw [hreal]
  split
  · rename_i name place hname hplace
    have hnode := h place
    cases hleft : nodeAt t place with
    | none =>
      rw [hleft] at hnode
      rw [Option.map_eq_none_iff.mp hnode.symm]
    | some n =>
      rw [hleft] at hnode
      obtain ⟨n', hright, hkind⟩ := Option.map_eq_some_iff.mp hnode.symm
      rw [hright]
      rcases n with (inode | target) | mode <;> rcases n' with (inode' | target') | mode' <;>
        simp only [kind, reduceCtorEq] at hkind <;> rfl
  · rfl

theorem sameKinds_of_granted {new : Tree} (hleads : Leads t p) (h : Granted (get p t) new) :
    SameKinds t (alter (fun _ => new) p t) := by
  intro q
  by_cases hpq : p <+: q
  · obtain ⟨rest, rfl⟩ := hpq
    rw [FileTree.nodeAt_alter_append hleads, FileTree.nodeAt_append]
    rcases h rest with hsame | hgranted
    · rw [hsame]
    · rw [hgranted, Option.map_map]
      congr 1
      exact funext fun n => (kind_grant n).symm
  · rw [FileTree.nodeAt_alter_of_apart hleads hpq]

theorem isLeaf_congr (h : SameKinds t t') (q : Path) :
    (∃ leaf, nodeAt t' q = some (.leaf leaf)) → ∃ leaf, nodeAt t q = some (.leaf leaf) := by
  rintro ⟨leaf, hleaf⟩
  have hnode := h q
  rw [hleaf] at hnode
  obtain ⟨n, hn, hkind⟩ := Option.map_eq_some_iff.mp hnode
  rw [hn]
  cases n with
  | leaf leaf' => exact ⟨leaf', rfl⟩
  | dir mode =>
    cases leaf <;> simp only [kind, reduceCtorEq] at hkind

/-! ## Removals -/

/-- The directory that a command removes, or makes ready to. -/
def removed : Cmd → Option Path
  | .rmLink path | .chmod path | .rmTree path => some path
  | _ => none

/-- A directory that `deep_plan` may plan to remove. -/
def Named (path : Path) : Prop :=
  ∃ name ∈ [lit "node_modules", lit ".venv", lit ".next"], path.getLast? = some name

/-- git neither tracks a file there nor reports one as untracked. -/
def World.Clear (s : World) (path : Path) : Prop :=
  s.Judges path.dropLast path fun repo p => ∀ q, p <+: q → ¬repo.tracked q ∧ ¬repo.Untracked s.tree q

/-- What a link points at, with what is in it, is not touched, but for what is in the
removed directory too, and a file that has another hard link there. -/
def Within (s t : World) (p : Path) : Prop :=
  ∀ link target place, nodeAt s.tree link = some (.leaf (.link target)) →
    realpath s.tree link = some place → ∀ q, ¬p <+: place ++ q →
      nodeAt t.tree (place ++ q) = nodeAt s.tree (place ++ q) ∧
        ∀ i, nodeAt s.tree (place ++ q) = some (.leaf (.file i)) → ¬Holds (get p s.tree) i →
          t.file i = s.file i

/-- A command that removes a directory, in a state where it may. -/
structure Removal (c : Cmd) (path : Path) (s : World) : Prop where
  named : Named path
  clear : s.Clear path
  within : ∀ r t, machine c s r t → ∀ p, locate s.tree path = some p → Within s t p

/-- Each removal of a run is one that may be. -/
def Allowed (c : Cmd) (s : World) : Prop := ∀ path, removed c = some path → Removal c path s

variable {s u : World} {α : Type}

theorem within_alter (new : Tree) (hp : locate s.tree path = some p)
    (hu : u.tree = s.tree ∨ u.tree = alter (fun _ => new) p s.tree)
    (hfile : ∀ i, ¬Holds (get p s.tree) i → u.file i = s.file i) : Within s u p := by
  intro link target place _ _ q hpq
  refine ⟨?_, fun i _ hi => hfile i hi⟩
  rcases hu with hu | hu
  · rw [hu]
  · rw [hu, FileTree.nodeAt_alter_of_apart (leads_of_locate hp) hpq]

theorem Named.entryName (h : Named path) : ∃ name, path.getLast? = some name ∧ IsEntryName name := by
  obtain ⟨name, hname, hlast⟩ := h
  have hall : ∀ name ∈ [lit "node_modules", lit ".venv", lit ".next"], IsEntryName name := by
    unfold IsEntryName
    decide
  exact ⟨name, hlast, hall name hname⟩

/-! ## One command -/

/-- A condition is looked at, and holds or not. -/
theorem wpIn_holds {c : Cmd} {Q : Script.Post Errexit Bool World} (hok : Allowed c s) (hkill : ∀ u, Q.killed u)
    (h : ∀ r u, machine c s r u → Q.returned r.isSome u) : (holds c).wpIn machine Allowed Q s :=
  ⟨hok, hkill s, fun r u hm => ⟨hkill u, h r u hm⟩⟩

theorem allowed_of_none {c : Cmd} (h : removed c = none) (s : World) : Allowed c s := by
  intro path hpath
  rw [h] at hpath
  exact absurd hpath nofun

/-- Nothing is asked of how a script ends. -/
def anyEnd : Script.Post Errexit α World := ⟨fun _ _ => True, fun _ _ => True, fun _ => True⟩

/-- Every command is one that removes nothing. -/
abbrev Harmless (p : Sh α) (A : α → Prop) : Prop := p.Issues (fun c => removed c = none) (fun _ => True) A

theorem Harmless.wpIn {p : Sh α} {A : α → Prop} (h : Harmless p A) (s : World) :
    p.wpIn machine Allowed ⟨fun a _ => A a, fun _ _ => True, fun _ => True⟩ s :=
  Script.Issues.wpIn (fun _ s hc => allowed_of_none hc s) h s

theorem harmless_report {c : Cmd} (hc : removed c = none) {A : Unit → Prop} (hA : A ()) : Harmless (report c) A :=
  ⟨hc, fun _ => hA⟩

theorem harmless_holds {c : Cmd} (hc : removed c = none) : Harmless (holds c) fun _ => True :=
  ⟨hc, fun _ => trivial⟩

theorem harmless_inProjectEnv (root : Path) (argv : List PyStr) : Harmless (inProjectEnv root argv) fun _ => True :=
  ⟨rfl, fun _ => ⟨rfl, fun _ => trivial⟩⟩

theorem harmless_cleaned (root : Path) (argv : List PyStr) : Harmless (cleaned root argv) fun _ => True :=
  (harmless_inProjectEnv root argv).bind fun _ _ => trivial

theorem harmless_step {label : Label} {command : Sh ℕ} (h : Harmless command fun _ => True) :
    Harmless (step label command) fun _ => True := by
  refine h.bind fun rc _ => ?_
  split_ifs
  · exact harmless_report rfl trivial
  · exact harmless_report rfl trivial

theorem harmless_gitIgnores (path : Path) : Harmless (gitIgnores path) fun _ => True := by
  refine (harmless_holds rfl).bind fun covered _ => ?_
  split_ifs
  · trivial
  · refine ⟨rfl, fun tracked => ?_⟩
    cases tracked with
    | none => trivial
    | some tracked =>
      refine ⟨rfl, fun changed => ?_⟩
      cases changed with
      | none => trivial
      | some changed => trivial

theorem harmless_stepIfIgnored {path : Path} {label : Label} {command : Sh ℕ}
    (h : Harmless command fun _ => True) : Harmless (stepIfIgnored path label command) fun _ => True := by
  refine (harmless_holds rfl).bind fun there _ => ?_
  split_ifs
  · refine (harmless_gitIgnores path).bind fun ignored _ => ?_
    split_ifs
    · exact harmless_step h
    · exact harmless_report rfl trivial
  · exact harmless_report rfl trivial

/-! ## What git vouches for -/

/-- Both stages of `git_ignores` leave everything as it is, and answer for a directory that
git neither tracks nor sees a file in. -/
theorem gitIgnores_clear (path : Path) (s : World) : (gitIgnores path).wpIn machine Allowed
    ⟨fun ignored u => u = s ∧ (ignored = true → s.Clear path), fun _ _ => True, fun _ => True⟩ s := by
  refine Script.wpIn.bind (M := fun covered u => u = s ∧ (covered = true → s.Clear path)) ?_ ?_
  · refine wpIn_holds (allowed_of_none rfl s) (fun _ => trivial) fun r u hm => ?_
    refine ⟨hm.1, fun hcovered => ?_⟩
    obtain ⟨repo, p, haround, hlocate, ⟨above, habove, hrule⟩, htracked⟩ := hm.2 hcovered
    refine ⟨repo, p, haround, hlocate, fun q hq => ⟨htracked q hq, ?_⟩⟩
    rintro ⟨-, -, hnot⟩
    exact hnot ⟨above, habove.trans hq, hrule⟩
  rintro covered u ⟨rfl, hcovered⟩
  split_ifs with hanswer
  · exact ⟨rfl, fun _ => hcovered hanswer⟩
  refine ⟨allowed_of_none rfl u, trivial, fun tracked v hls => ⟨trivial, ?_⟩⟩
  obtain ⟨rfl, htracked⟩ := hls
  cases tracked with
  | none => exact ⟨rfl, fun h => absurd h nofun⟩
  | some tracked =>
    refine ⟨allowed_of_none rfl v, trivial, fun changed w hstatus => ⟨trivial, ?_⟩⟩
    obtain ⟨rfl, huntracked⟩ := hstatus
    cases changed with
    | none => exact ⟨rfl, fun h => absurd h nofun⟩
    | some changed =>
      refine ⟨rfl, fun hseen => ?_⟩
      obtain ⟨hnone, hnone'⟩ := List.append_eq_nil_iff.mp (List.isEmpty_iff.mp hseen)
      obtain ⟨repo, p, haround, hlocate, hlisted⟩ := htracked tracked rfl
      obtain ⟨repo', p', haround', hlocate', hlisted'⟩ := huntracked changed rfl
      obtain rfl := Option.some.inj (haround.symm.trans haround')
      obtain rfl := Option.some.inj (hlocate.symm.trans hlocate')
      refine ⟨repo, p, haround, hlocate, fun q hq => ⟨fun h => ?_, fun h => ?_⟩⟩
      · exact hlisted ⟨q, hq, h⟩ hnone
      · exact hlisted' ⟨q, hq, h⟩ hnone'

/-! ## `remove_tree` -/

/-- Write permission changes nothing of what git says of a directory. -/
theorem Clear.granted (h : s.Clear path) (hgit : u.git = s.git) (hkinds : SameKinds s.tree u.tree) :
    u.Clear path := by
  obtain ⟨repo, p, haround, hlocate, hall⟩ := h
  refine ⟨repo, p, ?_, ?_, fun q hq => ⟨(hall q hq).1, ?_⟩⟩
  · rw [World.around, realpath, ← resolve_congr hkinds, hgit]
    exact haround
  · rw [← locate_congr hkinds]
    exact hlocate
  · rintro ⟨hleaf, hnot⟩
    exact (hall q hq).2 ⟨isLeaf_congr hkinds q hleaf, hnot⟩

theorem removal_rmLink (hnamed : Named path) (hclear : s.Clear path) : Removal (.rmLink path) path s where
  named := hnamed
  clear := hclear
  within r u hm p hp := by
    refine within_alter none hp ?_ fun i _ => by rw [hm.2.1]
    rcases hm.2.2 with hsame | ⟨p', leaf, hp', -, htree⟩
    · exact .inl hsame
    · rw [hp] at hp'
      exact .inr (Option.some.inj hp' ▸ htree)

theorem removal_rmTree (hnamed : Named path) (hclear : s.Clear path) : Removal (.rmTree path) path s where
  named := hnamed
  clear := hclear
  within r u hm p hp := by
    have hfile : ∀ i, ¬Holds (get p s.tree) i → u.file i = s.file i := fun i _ => by rw [hm.2.1]
    rcases hm.2.2 with hsame | ⟨p', new, hp', -, htree⟩
    · exact within_alter none hp (.inl hsame) hfile
    · rw [hp] at hp'
      exact within_alter new hp (.inr (Option.some.inj hp' ▸ htree)) hfile

/-- `chmod -R` follows the link it is given, and is given none. -/
theorem removal_chmod (hnamed : Named path) (hclear : s.Clear path) (hlink : ¬IsLink s.tree path) :
    Removal (.chmod path) path s where
  named := hnamed
  clear := hclear
  within r u hm p hp := by
    obtain ⟨name, hlast, hname⟩ := hnamed.entryName
    rcases hm.2.2 with ⟨hsame, hfile⟩ | ⟨p', new, hp', -, htree, hfile⟩
    · exact within_alter none hp (.inl hsame) fun i _ => by rw [hfile]
    · have hplace := locate_of_realpath hlast hname hlink hp'
      rw [hplace] at hp
      obtain rfl := Option.some.inj hp
      exact within_alter new hplace (.inr htree) fun i hi => (hfile i).resolve_right fun h => hi h.1

theorem allowed_of_removal {c : Cmd} (hc : removed c = some path) (h : Removal c path s) : Allowed c s := by
  intro path' hpath'
  rw [hc] at hpath'
  exact Option.some.inj hpath' ▸ h

theorem removeTree_allowed (hnamed : Named path) (hclear : s.Clear path) :
    (removeTree path).wpIn machine Allowed anyEnd s := by
  refine Script.wpIn.bind (M := fun link u => u = s ∧ (link = true ↔ IsLink s.tree path)) ?_ ?_
  · exact wpIn_holds (allowed_of_none rfl s) (fun _ => trivial) fun r u hm => hm
  rintro link u ⟨rfl, hlink⟩
  split_ifs with hanswer
  · exact ⟨allowed_of_removal rfl (removal_rmLink hnamed hclear), trivial, fun _ _ _ => ⟨trivial, trivial⟩⟩
  have hnot : ¬IsLink u.tree path := fun h => hanswer (hlink.mpr h)
  refine ⟨allowed_of_removal rfl (removal_chmod hnamed hclear hnot), trivial, fun rc v hm => ⟨trivial, ?_⟩⟩
  show (if (rc.map id).getD 127 = 0 then code (.rmTree path) id else .ret _).wpIn machine Allowed anyEnd v
  split_ifs
  · have hclear' : v.Clear path := by
      refine Clear.granted hclear hm.2.1 ?_
      rcases hm.2.2 with ⟨hsame, -⟩ | ⟨p, new, hp, hgranted, htree, -⟩
      · rw [hsame]
        exact fun q => rfl
      · obtain ⟨name, hlast, hname⟩ := hnamed.entryName
        rw [htree]
        exact sameKinds_of_granted (leads_of_locate (locate_of_realpath hlast hname hnot hp)) hgranted
    exact ⟨allowed_of_removal rfl (removal_rmTree hnamed hclear'), trivial, fun _ _ _ => ⟨trivial, trivial⟩⟩
  · trivial

/-- One turn of the last loop of `apply_deep_plan`. -/
theorem removeOutright_allowed (hnamed : Named path) (s : World) :
    (removeOutright path).wpIn machine Allowed anyEnd s := by
  refine Script.wpIn.bind (M := fun _ u => u = s) ?_ ?_
  · exact wpIn_holds (allowed_of_none rfl s) (fun _ => trivial) fun r u hm => hm.1
  rintro there u rfl
  split_ifs
  · refine Script.wpIn.bind (gitIgnores_clear path u) ?_
    rintro ignored v ⟨rfl, hclear⟩
    split_ifs with hignored
    · refine Script.wpIn.bind (M := fun _ _ => True) (removeTree_allowed hnamed (hclear hignored)) fun rc w _ => ?_
      split_ifs
      · exact (harmless_report rfl trivial).wpIn w
      · exact (harmless_report rfl trivial).wpIn w
    · exact (harmless_report rfl trivial).wpIn v
  · exact (harmless_report rfl trivial).wpIn u

/-! ## The plan -/

/-- The directories to remove have their names. -/
def Plan.Names (plan : Plan) : Prop := ∀ path ∈ plan.removals, Named path

theorem harmless_requireTool (root : Path) (tool : PyStr) (what : Label) :
    Harmless (requireTool root tool what) fun _ => True := by
  refine (harmless_inProjectEnv root _).bind fun found _ => ?_
  split_ifs
  · trivial
  · exact (harmless_report rfl trivial : Harmless _ fun _ => True).bind fun _ _ => trivial

theorem harmless_planMake (root : Path) {plan : Plan} (h : plan.Names) :
    Harmless (planMake root plan) Plan.Names := by
  refine (harmless_requireTool root _ _).bind fun found _ => ?_
  split_ifs
  · refine (harmless_inProjectEnv root _).bind fun dry _ => ?_
    split_ifs
    · exact h
    · exact h
    · exact (harmless_report rfl trivial : Harmless _ fun _ => True).bind fun _ _ => h
  · exact h

theorem harmless_hasMakefile (root : Path) : Harmless (hasMakefile root) fun _ => True := by
  refine (harmless_holds rfl).bind fun _ _ => ?_
  split_ifs
  · trivial
  refine (harmless_holds rfl).bind fun _ _ => ?_
  split_ifs
  · trivial
  · exact harmless_holds rfl

theorem harmless_planRoot (root : Path) {plan : Plan} (h : plan.Names) :
    Harmless (planRoot root plan) Plan.Names := by
  have hgo : ∀ plan : Plan, plan.Names → Harmless (do
      if ← holds (.isFile (root ++ [lit "go.mod"])) then
        if ← requireTool root (lit "go") (.goClean root) then
          return { plan with goRoots := plan.goRoots ++ [root] }
        else return plan
      else return plan) Plan.Names := by
    intro plan hplan
    refine (harmless_holds rfl).bind fun _ _ => ?_
    split_ifs
    · refine (harmless_requireTool root _ _).bind fun _ _ => ?_
      split_ifs
      · exact hplan
      · exact hplan
    · exact hplan
  refine (harmless_hasMakefile root).bind fun _ _ => ?_
  split_ifs
  · exact (harmless_planMake root h).bind hgo
  · exact hgo plan h

/-- Only the three names lead to a removal. -/
theorem harmless_planNamed (path : Path) {plan : Plan} (h : plan.Names) :
    Harmless (planNamed path (path.getLast?.getD []) plan) Plan.Names := by
  unfold planNamed
  split_ifs with htarget hname
  · refine (harmless_requireTool _ _ _).bind fun _ _ => ?_
    split_ifs
    · exact h
    · exact h
  · intro path' hpath'
    rcases List.mem_append.mp hpath' with hpath' | hpath'
    · exact h path' hpath'
    · rw [List.mem_singleton.mp hpath']
      cases hlast : path.getLast? with
      | none =>
        rw [hlast, Option.getD_none] at hname
        exact absurd hname (by decide)
      | some name =>
        rw [hlast, Option.getD_some] at hname
        exact ⟨name, by simpa only [List.mem_cons, List.not_mem_nil, or_false] using hname, hlast⟩
  · exact (harmless_report rfl trivial : Harmless _ fun _ => True).bind fun _ _ => h

theorem harmless_planTarget (path : Path) {plan : Plan} (h : plan.Names) :
    Harmless (planTarget path plan) Plan.Names := by
  refine (harmless_holds rfl).bind fun _ _ => ?_
  split_ifs
  · cases hmanifest : NEEDS_MANIFEST.lookup (path.getLast?.getD []) with
    | none =>
      exact harmless_planNamed path h
    | some manifest =>
      refine (harmless_holds rfl).bind fun _ _ => ?_
      split_ifs
      · exact harmless_planNamed path h
      · exact (harmless_report rfl trivial : Harmless _ fun _ => True).bind fun _ _ => h
  · exact (harmless_report rfl trivial : Harmless _ fun _ => True).bind fun _ _ => h

theorem harmless_planEach {one : Path → Plan → Sh Plan}
    (hone : ∀ path plan, plan.Names → Harmless (one path plan) Plan.Names) (paths : List Path) {plan : Plan}
    (h : plan.Names) : Harmless (planEach one paths plan) Plan.Names := by
  induction paths generalizing plan with
  | nil => exact h
  | cons path paths ih => exact (hone path plan h).bind fun _ hplan => ih hplan

theorem harmless_cmd {c : Cmd} (hc : removed c = none) :
    Harmless (Script.cmd .errexit c) fun _ => True := Script.issues_cmd hc trivial fun _ => trivial

theorem harmless_walked {c : Cmd} (hc : removed c = none) (found : Answer c → List Path × ℕ) (failure : ℕ → Failure) :
    Harmless (walked c found failure) fun _ => True := by
  refine (harmless_cmd rfl).bind fun _ _ => ⟨hc, fun answer => ?_⟩
  show Harmless (if ((answer.map found).getD ([], 127)).2 ≠ 0 then _ else _) _
  split_ifs
  · exact (harmless_report rfl trivial : Harmless _ fun _ => True).bind fun _ _ => trivial
  · trivial

theorem harmless_deepPlan : Harmless deepPlan Plan.Names := by
  have hempty : (⟨[], [], [], []⟩ : Plan).Names := fun _ hmem => absurd hmem List.not_mem_nil
  refine (harmless_walked rfl _ _).bind fun roots _ => ?_
  refine (harmless_planEach (fun path _ => harmless_planRoot path) roots hempty).bind fun plan hplan => ?_
  refine (harmless_cmd rfl).bind fun _ _ => (harmless_walked rfl _ _).bind fun targets _ => ?_
  refine (harmless_planEach (fun path _ => harmless_planTarget path) targets hplan).bind fun plan hplan => ?_
  exact (harmless_cmd rfl).bind fun _ _ => hplan

/-! ## Whole runs -/

theorem applyDeepPlan_allowed {plan : Plan} (h : plan.Names) (s : World) :
    (applyDeepPlan plan).wpIn machine Allowed anyEnd s := by
  have hharmless : ∀ {ι : Type} (is : List ι) (f : ι → Sh Unit), (∀ i, Harmless (f i) fun _ => True) →
      Harmless (Script.each is f) fun _ => True := fun is f hf => Script.issues_each fun i _ => hf i
  refine Script.wpIn.bind ((hharmless _ _ fun root => ?_).wpIn s) fun _ u _ => ?_
  · exact harmless_step (harmless_cleaned root.1 _)
  refine Script.wpIn.bind ((hharmless _ _ fun path => ?_).wpIn u) fun _ u _ => ?_
  · exact harmless_stepIfIgnored (harmless_cleaned _ _)
  refine Script.wpIn.bind ((hharmless _ _ fun root => ?_).wpIn u) fun _ u _ => ?_
  · exact harmless_step (harmless_cleaned root _)
  exact Script.wpIn_each (fun path hpath u _ => removeOutright_allowed (h path hpath) u) trivial

theorem deep_allowed (s : World) : deep.wpIn machine Allowed anyEnd s :=
  Script.wpIn.bind (harmless_deepPlan.wpIn s) fun _ u hplan => applyDeepPlan_allowed hplan u

/-- There is something at the path, and no repository that git can read around it. -/
structure Unreadable (s : World) (path : Path) : Prop where
  there : (realpath s.tree path).isSome = true
  unread : s.around path.dropLast = none

theorem not_judges (h : Unreadable s path) {judged : Repository → Path → Prop} :
    ¬s.Judges path.dropLast path judged := by
  rintro ⟨repo, p, haround, -⟩
  rw [h.unread] at haround
  exact absurd haround nofun

/-- **A directory whose repository cannot be read** is kept, and the failure is reported. -/
theorem removeOutright_unreadable (h : Unreadable s path) : (removeOutright path).wp machine
    ⟨fun _ u => u = { s with failures := s.failures ++ [.notIgnored path] }, fun _ _ => False,
      fun u => u.tree = s.tree⟩ s := by
  refine ⟨rfl, fun there u hexists => ?_⟩
  obtain ⟨rfl, hthere⟩ := hexists
  cases there with
  | none => exact absurd (hthere.mpr h.there) Bool.false_ne_true
  | some there =>
    refine ⟨rfl, rfl, fun covered v hcheck => ?_⟩
    obtain ⟨rfl, hcovered⟩ := hcheck
    cases covered with
    | some covered => exact absurd (hcovered rfl) (not_judges h)
    | none =>
      refine ⟨rfl, rfl, fun tracked w hls => ?_⟩
      obtain ⟨rfl, htracked⟩ := hls
      cases tracked with
      | some lines => exact absurd (htracked lines rfl) (not_judges h)
      | none =>
        refine ⟨rfl, rfl, fun _ u hfail => ?_⟩
        obtain rfl : u = { w with failures := w.failures ++ [.notIgnored path] } := hfail
        exact ⟨rfl, rfl⟩

/-- **What `gc --deep` removes.**  In every run, whatever the commands of the projects do to
the files and the repositories in between, a directory that is removed has one of three
names and no file that git tracks or reports as untracked in the repository around it, and
its removal leaves what any link points at as it was, but for what stands in the directory
itself and for the mode of a file that has another hard link there.  One whose repository
cannot be read when its turn comes is kept, and that is reported as a failure. -/
theorem deep_removals (s : World) :
    (∀ c u, deep.Issued machine s c u → ∀ path, removed c = some path → Removal c path u) ∧
    (∀ path u, Unreadable u path → ∀ o v, (removeOutright path).Ends machine u o v →
      v.tree = u.tree ∧ (o ≠ .killed → v.failures = u.failures ++ [.notIgnored path])) := by
  constructor
  · intro c u hissued
    exact (Script.wpIn_iff.mp (deep_allowed s)).1 c u hissued
  · intro path u h o v hends
    have hholds := Script.wp_iff.mp (removeOutright_unreadable h) o v hends
    cases o with
    | returned _ =>
      obtain rfl : v = _ := hholds
      exact ⟨rfl, fun _ => rfl⟩
    | raised _ => exact hholds.elim
    | killed => exact ⟨hholds, fun hne => absurd rfl hne⟩

/-! ## A link on the way -/

/-- A step that leaves what every link points at as it was. -/
def LeavesTargets (s t : World) : Prop := ∀ link target place, nodeAt s.tree link = some (.leaf (.link target)) →
  realpath s.tree link = some place → ∀ q, nodeAt t.tree (place ++ q) = nodeAt s.tree (place ++ q) ∧
    ∀ i, nodeAt s.tree (place ++ q) = some (.leaf (.file i)) → t.file i = s.file i

/-- `node_modules`, and what is in it. -/
def modules (names : List PyStr) : FileTree PyStr Leaf ℕ :=
  .dir 493 (lit "node_modules" :: names) fun name =>
    if name = lit "node_modules" then .dir 493 [lit "x"] fun _ => .leaf (.file 0) else .leaf (.file 0)

/-- Two projects, one with a Makefile. -/
def twoProjects : World where
  tree := some (.dir 493 [lit "p", lit "q"] fun name => if name = lit "p" then modules [lit "Makefile"] else modules [])
  file _ := ⟨420, []⟩
  git _ := some ⟨fun _ => False, fun p => p.getLast? = some (lit "node_modules")⟩
  failures := []

/-- `make clean` puts a link to the other project in the place of the first. -/
def linkedProject : World :=
  { twoProjects with
    tree := some (.dir 493 [lit "p", lit "q"] fun name => if name = lit "p" then .leaf (.link (lit "/q")) else modules []) }

/-- The removal of the first project's `node_modules` takes the other's. -/
def prunedProject : World :=
  { linkedProject with tree := alter (fun _ => none) [lit "q", lit "node_modules"] linkedProject.tree }

theorem machine_notFile (h : realpath s.tree path = none) : machine (.isFile path) s none s := by
  refine ⟨rfl, fun hsome => absurd hsome Bool.false_ne_true, ?_⟩
  rintro ⟨p, inode, hp, -⟩
  rw [h] at hp
  exact absurd hp nofun

theorem issued_linkedProject : deep.Issued machine twoProjects (.rmTree [lit "p", lit "node_modules"]) linkedProject := by
  -- the plan: `make clean` in the first project, and its `node_modules`
  refine .inr ⟨some (), twoProjects, rfl, ?_⟩
  refine .inr ⟨some ([[lit "p"]], 0), twoProjects, rfl, ?_⟩
  refine .inr ⟨some (), twoProjects, ⟨rfl, fun _ => ⟨[lit "p", lit "Makefile"], 0, rfl, rfl⟩, fun _ => rfl⟩, ?_⟩
  refine .inr ⟨none, twoProjects, machine_notFile rfl, ?_⟩
  refine .inr ⟨some (0, []), twoProjects, rfl, ?_⟩
  refine .inr ⟨none, twoProjects, machine_notFile rfl, ?_⟩
  refine .inr ⟨some (0, []), twoProjects, rfl, ?_⟩
  refine .inr ⟨none, twoProjects, machine_notFile rfl, ?_⟩
  refine .inr ⟨some (), twoProjects, rfl, ?_⟩
  refine .inr ⟨some (), twoProjects, rfl, ?_⟩
  refine .inr ⟨some ([[lit "p", lit "node_modules"]], 0), twoProjects, rfl, ?_⟩
  refine .inr ⟨some (), twoProjects, rfl, ?_⟩
  refine .inr ⟨some (), twoProjects, rfl, ?_⟩
  refine .inr ⟨none, twoProjects, machine_notFile rfl, ?_⟩
  refine .inr ⟨some (0, []), linkedProject, rfl, ?_⟩
  refine .inr ⟨some (), linkedProject, rfl, ?_⟩
  -- the removal, through the link
  refine .inr ⟨some (), linkedProject, ⟨rfl, fun _ => rfl, fun _ => rfl⟩, ?_⟩
  refine .inr ⟨some (), linkedProject, ⟨rfl, fun _ => ?_⟩, ?_⟩
  · refine ⟨_, [lit "q", lit "node_modules"], rfl, rfl, ⟨_, List.prefix_rfl, rfl⟩, fun _ _ h => h⟩
  refine .inr ⟨none, linkedProject, ⟨rfl, fun hsome => absurd hsome Bool.false_ne_true, ?_⟩, ?_⟩
  · rintro ⟨p, target, hp, htarget⟩
    obtain rfl : [lit "q", lit "node_modules"] = p := Option.some.inj hp
    exact absurd htarget nofun
  refine .inr ⟨some 0, linkedProject, ⟨rfl, rfl, .inl ⟨rfl, rfl⟩⟩, ?_⟩
  exact .inl ⟨rfl, rfl⟩

/-- A link that a project's command puts in the place of the project's directory is followed:
what is removed then is in the directory that it points at. -/
theorem not_leavesTargets : ¬∀ s c u path r v, deep.Issued machine s c u → removed c = some path →
    machine c u r v → LeavesTargets u v := by
  intro h
  have hremoved : machine (.rmTree [lit "p", lit "node_modules"]) linkedProject (some 0) prunedProject :=
    ⟨rfl, rfl, .inr ⟨[lit "q", lit "node_modules"], none, rfl, fun q => .inl FileTree.nodeAt_none, rfl⟩⟩
  have hleft := h _ _ _ _ _ _ issued_linkedProject rfl hremoved [lit "p"] (lit "/q") [lit "q"] rfl rfl [lit "node_modules"]
  exact absurd hleft.1 nofun

/-- A package with another hard link outside the project, and a link to that. -/
def sharedPackage : World where
  tree := some (.dir 493 [lit "p", lit "store", lit "l"] fun name =>
    if name = lit "p" then modules []
    else if name = lit "store" then .leaf (.file 0)
    else .leaf (.link (lit "/store")))
  file _ := ⟨292, []⟩
  git _ := some ⟨fun _ => False, fun p => p.getLast? = some (lit "node_modules")⟩
  failures := []

/-- `chmod -R u+w` on the package. -/
def grantedPackage : World :=
  { sharedPackage with
    tree := alter (fun _ => get [lit "p", lit "node_modules"] sharedPackage.tree)
      [lit "p", lit "node_modules"] sharedPackage.tree
    file := fun i => if i = 0 then (sharedPackage.file i).grant else sharedPackage.file i }

theorem issued_sharedPackage :
    deep.Issued machine sharedPackage (.chmod [lit "p", lit "node_modules"]) sharedPackage := by
  refine .inr ⟨some (), sharedPackage, rfl, ?_⟩
  refine .inr ⟨some ([], 0), sharedPackage, rfl, ?_⟩
  refine .inr ⟨some (), sharedPackage, rfl, ?_⟩
  refine .inr ⟨some (), sharedPackage, rfl, ?_⟩
  refine .inr ⟨some ([[lit "p", lit "node_modules"]], 0), sharedPackage, rfl, ?_⟩
  refine .inr ⟨some (), sharedPackage, rfl, ?_⟩
  refine .inr ⟨some (), sharedPackage, rfl, ?_⟩
  refine .inr ⟨some (), sharedPackage, ⟨rfl, fun _ => rfl, fun _ => rfl⟩, ?_⟩
  refine .inr ⟨some (), sharedPackage, ⟨rfl, fun _ => ?_⟩, ?_⟩
  · exact ⟨_, [lit "p", lit "node_modules"], rfl, rfl, ⟨_, List.prefix_rfl, rfl⟩, fun _ _ h => h⟩
  refine .inr ⟨none, sharedPackage, ⟨rfl, fun hsome => absurd hsome Bool.false_ne_true, ?_⟩, ?_⟩
  · rintro ⟨p, target, hp, htarget⟩
    obtain rfl : [lit "p", lit "node_modules"] = p := Option.some.inj hp
    exact absurd htarget nofun
  exact .inl ⟨rfl, rfl⟩

/-- With no link on the way, `chmod` still sets the mode of a file that has a hard link
elsewhere. -/
theorem not_leavesTargets_shared :
    deep.Issued machine sharedPackage (.chmod [lit "p", lit "node_modules"]) sharedPackage ∧
      locate sharedPackage.tree [lit "p", lit "node_modules"] = some [lit "p", lit "node_modules"] ∧
      machine (.chmod [lit "p", lit "node_modules"]) sharedPackage (some 0) grantedPackage ∧
      ¬LeavesTargets sharedPackage grantedPackage := by
  have hfile : ∀ i, grantedPackage.file i = sharedPackage.file i ∨
      Holds (get [lit "p", lit "node_modules"] sharedPackage.tree) i ∧
        grantedPackage.file i = (sharedPackage.file i).grant := by
    intro i
    by_cases hi : i = 0
    · subst hi
      exact .inr ⟨⟨[lit "x"], rfl⟩, rfl⟩
    · exact .inl (if_neg hi)
  refine ⟨issued_sharedPackage, rfl, ?_, fun h => ?_⟩
  · exact ⟨rfl, rfl, .inr ⟨[lit "p", lit "node_modules"], _, rfl, fun q => .inl rfl, rfl, hfile⟩⟩
  · have hsame := (h [lit "l"] (lit "/store") [lit "store"] rfl rfl []).2 0 rfl
    exact absurd hsame (by decide)

end Gc
