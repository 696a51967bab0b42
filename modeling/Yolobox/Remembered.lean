/-
# The ref that the host remembers

`remembered_flake_ref` and `destroy_then_bootstrap_command` (`yolobox_cli/state.py`), the file
that `cmd_bootstrap` (`yolobox_cli/vm.py`) keeps for them, and `rebuild_hint` with the argv of
a rebuild (`yolobox_cli/release.py`).  A command that is printed for the operator is judged by
the words that a shell reads in it.
-/
import Yolobox.Release
import Yolobox.Machine
import Yolobox.Ssh.Parse
import Yolobox.Lib.Shlex

open Regex RegularExpression

namespace Release

/-! ## The functions -/

/-- `yo_cmd` -/
def yoCmd (m : Machine) (words : List PyStr) : PyStr :=
  if m.name = DEFAULT_INSTANCE then
    lit "yo " ++ (lit " ").intercalate words
  else
    lit "yo -m " ++ m.name ++ lit " " ++ (lit " ").intercalate words

/-- What `cmd_bootstrap` leaves in the file once the box is built from `ref`: only a ref that was
asked for is remembered. -/
def bootstrapFile (version : Option PyStr) (ref : PyStr) : Option PyStr :=
  version.map fun _ => ref ++ lit "\n"

/-- `remembered_flake_ref`, of what the file holds. -/
def rememberedFlakeRef (file : Option PyStr) : Option PyStr :=
  let ref := strip ((file.map SshConfig.readText).getD [])
  if ref = [] then none else some ref

/-- `destroy_then_bootstrap_command` -/
def destroyThenBootstrapCommand (m : Machine) (file : Option PyStr) : PyStr :=
  let version := match rememberedFlakeRef file with
    | none => []
    | some ref => [lit "--version", Shlex.quote ref]
  yoCmd m [lit "destroy", lit "--yes"] ++ lit " && " ++ yoCmd m (lit "bootstrap" :: version)

def NIX_REBUILD_FLAGS : List PyStr := [lit "--impure", lit "--refresh"]

/-- `nix_env` -/
def nixEnv (m : Machine) (username ref : PyStr) : List PyStr :=
  [lit "YOLOBOX_USERNAME=" ++ username, lit "YOLOBOX_HOSTNAME=" ++ m.hostname,
    lit "YOLOBOX_FLAKE_REF=" ++ ref]

def OLD_RELEASE_WHY : PyStr :=
  lit "whose flake needs the host OS, which this yo no longer passes " ++
    lit "(every release before 1.9.2 does)"

/-- `old_release_yo` -/
def oldReleaseYo (m : Machine) (version : PyStr) : PyStr :=
  lit "nix run " ++ UPSTREAM_FLAKE ++ lit "/v" ++ version ++ lit " -- " ++
    (yoCmd m [lit "bootstrap"]).drop 3

/-- The command line of the hint; `username` is a shell expression there. -/
def rebuildCommand (m : Machine) (username ref : PyStr) : PyStr :=
  yoCmd m [lit "ssh"] ++ lit " sudo " ++ (lit " ").intercalate (nixEnv m username ref) ++
    lit " nixos-rebuild switch " ++ (lit " ").intercalate NIX_REBUILD_FLAGS ++ lit " --flake " ++
    Shlex.quote (ref ++ lit "#yolobox")

inductive Hint
  | old (own : Bool) (version : PyStr)   -- an old release is kept; `own`: this yo has a release
  | name                                 -- there is no ref to build from
  | command (ref : PyStr)
  deriving DecidableEq

/-- What `rebuild_hint` returns. -/
def Hint.text (m : Machine) : Hint → PyStr
  | .old own version =>
    (if own then
      lit "run " ++ yoCmd m [lit "bootstrap"] ++ lit " to move the box to this yo's release"
    else
      lit "run " ++ yoCmd m [lit "bootstrap", lit "--version", lit "<ref>"] ++
        lit " to move the box to a ref this yo can build") ++
      lit ", or " ++ oldReleaseYo m version ++ lit " to keep it on release " ++ version ++
      lit ", " ++ OLD_RELEASE_WHY
  | .name => lit "run " ++ yoCmd m [lit "bootstrap", lit "--version", lit "<ref>"] ++
      lit " with a flake ref the box should build from, then retry"
  | .command ref => rebuildCommand m (lit "$(id -un)") ref

/-- What `rebuild_hint` says on stderr. -/
inductive Said
  | notAccepted (ref : PyStr)   -- "yo: %s holds %r, which is no longer an accepted flake ref …"
  | refused (why : Raised)      -- "yo: %s"
  deriving DecidableEq

/-- `try: flake_ref(version) except YoError`: a `ValueError` goes on. -/
def tried (YO_VERSION : PyStr) (version : Option PyStr) : Except Raised (Except Raised PyStr) :=
  match flakeRef YO_VERSION version with
  | .error .valueError => .error .valueError
  | outcome => .ok outcome

/-- The end of `rebuild_hint`, where no ref is remembered that can be built. -/
def ownHint (YO_VERSION : PyStr) (said : List Said) : Except Raised (List Said × Hint) := do
  match ← tried YO_VERSION none with
  | .ok own => return (said, .command own)
  | .error why => return (said ++ [.refused why], .name)

/-- `rebuild_hint` -/
def rebuildHint (YO_VERSION : PyStr) (file : Option PyStr) : Except Raised (List Said × Hint) :=
  match rememberedFlakeRef file with
  | none => ownHint YO_VERSION []
  | some ref => do
    match ← oldRelease ref with
    | some old => return ([], .old (← ownReleaseRef YO_VERSION).isSome old)
    | none =>
      match ← tried YO_VERSION (some ref) with
      | .ok ref => return ([], .command ref)
      | .error _ => ownHint YO_VERSION [.notAccepted ref]

variable {m : Machine} {YO_VERSION version r user : PyStr} {asked file : Option PyStr}

/-! ## The words of a command -/

/-- What a shell reads in `yo_cmd`. -/
def yoWords (m : Machine) (words : List PyStr) : List PyStr :=
  if m.name = DEFAULT_INSTANCE then lit "yo" :: words else lit "yo" :: lit "-m" :: m.name :: words

/-- The words of the command that the hint prints, once the shell has put the name in. -/
def rebuildWords (m : Machine) (username ref : PyStr) : List PyStr :=
  yoWords m [lit "ssh"] ++ [lit "sudo"] ++ nixEnv m username ref ++
    (lit "nixos-rebuild" :: lit "switch" :: NIX_REBUILD_FLAGS) ++ [lit "--flake", ref ++ lit "#yolobox"]

theorem isSafe_name (m : Machine) : ∀ c ∈ m.name, Shlex.isSafe c = true := by
  intro c hc
  obtain halnum | rfl := m.isNameChar_of_mem hc
  · simp only [isAlnum, isDigit, Bool.or_eq_true, Bool.and_eq_true, decide_eq_true_eq] at halnum
    simp only [Shlex.isSafe, Bool.or_eq_true, Bool.and_eq_true, decide_eq_true_eq]
    exact .inl halnum
  · rfl

theorem isSafe_hostname (m : Machine) : ∀ c ∈ m.hostname, Shlex.isSafe c = true := by
  intro c hc
  have hlabel := m.isHostnameLabel_hostname
  rw [isHostnameLabel] at hlabel
  simp only [Bool.and_eq_true, List.all_eq_true] at hlabel
  have hchar := hlabel.1.1.2 c hc
  rw [Bool.or_eq_true, beq_iff_eq] at hchar
  obtain halnum | rfl := hchar
  · simp only [isLowerAlnum, isDigit, Bool.or_eq_true, Bool.and_eq_true, decide_eq_true_eq] at halnum
    simp only [Shlex.isSafe, Bool.or_eq_true, Bool.and_eq_true, decide_eq_true_eq]
    omega
  · rfl

/-- **The words of a `yo` command** whose words were quoted. -/
theorem yoCmd_eq (m : Machine) {words : List PyStr} (hne : words ≠ []) :
    yoCmd m (words.map Shlex.quote) = Shlex.join (yoWords m words) := by
  obtain ⟨word, words, rfl⟩ := List.exists_cons_of_ne_nil hne
  have hyo : Shlex.quote (lit "yo") = lit "yo" := by decide
  have hoption : Shlex.quote (lit "-m") = lit "-m" := by decide
  have hname : Shlex.quote m.name = m.name := Shlex.quote_eq_self m.ne_nil (isSafe_name m)
  unfold yoCmd yoWords Shlex.join
  split_ifs with hdefault
  · simp only [List.map_cons, hyo, List.intercalate_cons_cons]
    rfl
  · simp only [List.map_cons, hyo, hoption, hname, List.intercalate_cons_cons]
    simp only [List.append_assoc]
    rfl

theorem words_yoCmd (m : Machine) {words : List PyStr} (hne : words ≠ []) :
    Shlex.words (yoCmd m (words.map Shlex.quote)) = some (yoWords m words) := by
  rw [yoCmd_eq m hne, Shlex.words_join]

/-- The words that the operator's next two commands are read as. -/
theorem words_destroyThenBootstrap (m : Machine) (file : Option PyStr) :
    ∃ destroy bootstrap, destroyThenBootstrapCommand m file = destroy ++ lit " && " ++ bootstrap ∧
      Shlex.words destroy = some (yoWords m [lit "destroy", lit "--yes"]) ∧
      Shlex.words bootstrap = some (yoWords m (lit "bootstrap" ::
        (rememberedFlakeRef file).elim [] fun ref => [lit "--version", ref])) := by
  have hdestroy : [lit "destroy", lit "--yes"].map Shlex.quote = [lit "destroy", lit "--yes"] := by
    decide
  refine ⟨_, _, rfl, ?_, ?_⟩
  · rw [← words_yoCmd m (List.cons_ne_nil _ _), hdestroy]
  · rw [← words_yoCmd m (List.cons_ne_nil _ _)]
    cases rememberedFlakeRef file with
    | none => rfl
    | some ref => rfl

/-! ## A ref that is accepted -/

/-- No character of a ref is white space, so it is read back from its line. -/
theorem remembered_of_accepted (h : GITHUB_FLAKE_RE.rmatch r = true) :
    rememberedFlakeRef (some (r ++ lit "\n")) = some r := by
  have hspace : ∀ c ∈ symbols GITHUB_FLAKE_RE, isSpace c = false := by decide +kernel
  have hclean : ∀ c ∈ r, isSpace c = false := fun c hc => hspace c (mem_symbols h c hc)
  have hreturn : 13 ∉ r ++ lit "\n" := by
    intro hmem
    rcases List.mem_append.mp hmem with hr | hline
    · exact absurd (hclean 13 hr) (by decide)
    · exact absurd hline (by decide)
  have hne : r ≠ [] := by
    rintro rfl
    exact absurd h (by decide +kernel)
  have hstrip : strip (r ++ lit "\n") = r := by
    rw [SshConfig.strip_append hne hclean]
    exact List.append_nil r
  rw [rememberedFlakeRef, Option.map_some, Option.getD_some, SshConfig.readText_of_notMem hreturn,
    hstrip]
  exact if_neg hne

theorem isSafe_ref (h : GITHUB_FLAKE_RE.rmatch r = true) : ∀ c ∈ r, Shlex.isSafe c = true := by
  have hsafe : ∀ c ∈ symbols GITHUB_FLAKE_RE, Shlex.isSafe c = true := by decide +kernel
  exact fun c hc => hsafe c (mem_symbols h c hc)

/-- What is accepted once is accepted by every later `yo`. -/
theorem accepted_again (h : GITHUB_FLAKE_RE.rmatch r = true) (hold : oldRelease r = .ok none) :
    flakeRef YO_VERSION (some r) = .ok r := by
  obtain ⟨OWNER, REPO, REF, hr, howner, hrepo, href⟩ := githubFlake_rmatch_iff.mp h
  have hcount : r.count 58 = 1 := hr ▸ count_refOf howner hrepo href
  have hcolon : 58 ∈ r := List.count_pos_iff.mp (by omega)
  refine flakeRef_eq_ok_iff.mpr ⟨?_, hold⟩
  rw [namedFlakeRef_of_colon hcolon, if_pos h]

/-- The release of a `yo` whose version is a name. -/
theorem own_accepted (hversion : ∀ c ∈ YO_VERSION, c ∈ nameChars)
    (h : flakeRef YO_VERSION none = .ok r) :
    GITHUB_FLAKE_RE.rmatch r = true ∧ oldRelease r = .ok none := by
  have hown : ownReleaseRef YO_VERSION = .ok (some r) := by
    rw [flakeRef] at h
    cases hown : ownReleaseRef YO_VERSION with
    | error why => exact absurd (hown ▸ h) (by simp [bind, Except.bind])
    | ok own =>
      rw [hown] at h
      cases own with
      | none => exact absurd h (by simp [bind, Except.bind, throw, throwThe, MonadExceptOf.throw])
      | some own => rw [Except.ok.inj h]
  rw [ownReleaseRef] at hown
  split_ifs at hown with hdev
  · exact absurd (Except.ok.inj hown) (by simp)
  change (oldRelease (UPSTREAM_FLAKE ++ lit "/v" ++ YO_VERSION) >>= _) = _ at hown
  cases hold : oldRelease (UPSTREAM_FLAKE ++ lit "/v" ++ YO_VERSION) with
  | error why =>
    rw [hold] at hown
    exact absurd hown (by simp [bind, Except.bind])
  | ok old =>
    rw [hold] at hown
    change Except.ok (if old.isSome then none else some _) = Except.ok (some r) at hown
    cases old with
    | some version => exact absurd (Except.ok.inj hown) (by simp)
    | none =>
      obtain rfl := Option.some.inj (Except.ok.inj hown)
      have howner : IsRepoName (lit "aka-rider") := ⟨by decide, by decide⟩
      have hrepo : IsRepoName (lit "yolobox") := ⟨by decide, by decide⟩
      have href : IsGitRef (lit "v" ++ YO_VERSION) := ⟨118, YO_VERSION, rfl, by decide, hversion⟩
      refine ⟨githubFlake_rmatch_iff.mpr ⟨_, _, _, ?_, howner, hrepo, href⟩, hold⟩
      simp only [refOf, UPSTREAM_FLAKE, List.append_assoc]
      rfl

/-! ## The hint -/

/-- **The words of the hint's command.** -/
theorem words_rebuildCommand (huser : ∀ c ∈ user, Shlex.isSafe c = true)
    (h : GITHUB_FLAKE_RE.rmatch r = true) :
    Shlex.words (rebuildCommand m user r) = some (rebuildWords m user r) := by
  have hself : ∀ {word start : PyStr}, start ≠ [] → (∀ c ∈ start, Shlex.isSafe c = true) →
      (∀ c ∈ word, Shlex.isSafe c = true) → Shlex.quote (start ++ word) = start ++ word := by
    intro word start hne hstart hword
    refine Shlex.quote_eq_self (by simp [hne]) fun c hc => ?_
    exact (List.mem_append.mp hc).elim (hstart c) (hword c)
  have henv : (nixEnv m user r).map Shlex.quote = nixEnv m user r := by
    simp only [nixEnv, List.map_cons, List.map_nil]
    rw [hself (by decide) (by decide) huser, hself (by decide) (by decide) (isSafe_hostname m),
      hself (by decide) (by decide) (isSafe_ref h)]
  have hssh : yoCmd m [lit "ssh"] = Shlex.join (yoWords m [lit "ssh"]) := by
    have hword : [lit "ssh"] ≠ [] := List.cons_ne_nil _ _
    exact yoCmd_eq m hword
  have henvJoin : Shlex.join (nixEnv m user r) = (lit " ").intercalate (nixEnv m user r) := by
    rw [Shlex.join, henv]
    rfl
  have hflake : Shlex.join [lit "--flake", r ++ lit "#yolobox"] =
      lit "--flake " ++ Shlex.quote (r ++ lit "#yolobox") := by
    rw [Shlex.join, List.map_cons, List.map_singleton, List.intercalate_cons_cons,
      List.intercalate_singleton]
    rfl
  have hwords : rebuildCommand m user r = Shlex.join (rebuildWords m user r) := by
    have hne : yoWords m [lit "ssh"] ≠ [] := by
      unfold yoWords
      split_ifs <;> exact List.cons_ne_nil _ _
    have hsudo : Shlex.join [lit "sudo"] = lit "sudo" := by decide
    have hswitch : Shlex.join (lit "nixos-rebuild" :: lit "switch" :: NIX_REBUILD_FLAGS) =
        lit "nixos-rebuild switch " ++ (lit " ").intercalate NIX_REBUILD_FLAGS := by decide
    have henvNe : nixEnv m user r ≠ [] := List.cons_ne_nil _ _
    rw [rebuildWords, Shlex.join_append (by simp [hne]) (by simp),
      Shlex.join_append (by simp [hne]) (by simp),
      Shlex.join_append (by simp [hne]) henvNe, Shlex.join_append hne (by simp),
      ← hssh, hsudo, henvJoin, hswitch, hflake, rebuildCommand]
    simp only [List.append_assoc, List.cons_append]
    rfl
  rw [hwords, Shlex.words_join]

theorem tried_ok (h : tried YO_VERSION asked = .ok (.ok r)) : flakeRef YO_VERSION asked = .ok r := by
  unfold tried at h
  split at h
  · cases h
  · exact Except.ok.inj h

theorem tried_error {why : Raised} (h : tried YO_VERSION asked = .ok (.error why)) :
    flakeRef YO_VERSION asked = .error why := by
  unfold tried at h
  split at h
  · cases h
  · exact Except.ok.inj h

theorem ownHint_command {said said' : List Said}
    (h : ownHint YO_VERSION said = .ok (said', .command r)) :
    said' = said ∧ flakeRef YO_VERSION none = .ok r := by
  unfold ownHint at h
  cases htried : tried YO_VERSION none with
  | error why =>
    rw [htried] at h
    exact absurd h (by simp [bind, Except.bind])
  | ok outcome =>
    rw [htried] at h
    cases outcome with
    | error why => exact absurd (Except.ok.inj h) (by simp)
    | ok own =>
      obtain ⟨rfl, hcommand⟩ := Prod.mk.inj (Except.ok.inj h)
      obtain rfl := Hint.command.inj hcommand
      exact ⟨rfl, tried_ok htried⟩

/-- Where the ref of a command comes from. -/
theorem rebuildHint_source {said : List Said}
    (h : rebuildHint YO_VERSION file = .ok (said, .command r)) :
    (∃ kept, rememberedFlakeRef file = some kept ∧ flakeRef YO_VERSION (some kept) = .ok r ∧
        said = []) ∨
      flakeRef YO_VERSION none = .ok r ∧ said = (rememberedFlakeRef file).toList.map .notAccepted ∧
        ∀ kept ∈ rememberedFlakeRef file, ∃ why, flakeRef YO_VERSION (some kept) = .error why := by
  unfold rebuildHint at h
  cases hkept : rememberedFlakeRef file with
  | none =>
    rw [hkept] at h
    obtain ⟨hsaid, hown⟩ := ownHint_command h
    exact .inr ⟨hown, hsaid, fun kept hmem => absurd hmem (by simp)⟩
  | some kept =>
    rw [hkept] at h
    change (oldRelease kept >>= _) = _ at h
    cases hold : oldRelease kept with
    | error why =>
      rw [hold] at h
      exact absurd h (by simp [bind, Except.bind])
    | ok old =>
      rw [hold] at h
      cases old with
      | some version =>
        change (ownReleaseRef YO_VERSION >>= _) = _ at h
        cases hown : ownReleaseRef YO_VERSION with
        | error why =>
          rw [hown] at h
          exact absurd h (by simp [bind, Except.bind])
        | ok own =>
          rw [hown] at h
          exact absurd (Except.ok.inj h) (by simp)
      | none =>
        change (tried YO_VERSION (some kept) >>= _) = _ at h
        cases htried : tried YO_VERSION (some kept) with
        | error why =>
          rw [htried] at h
          exact absurd h (by simp [bind, Except.bind])
        | ok outcome =>
          rw [htried] at h
          cases outcome with
          | ok ref =>
            obtain ⟨rfl, hcommand⟩ := Prod.mk.inj (Except.ok.inj h)
            obtain rfl := Hint.command.inj hcommand
            exact .inl ⟨kept, rfl, tried_ok htried, rfl⟩
          | error why =>
            obtain ⟨hsaid, hown⟩ := ownHint_command h
            refine .inr ⟨hown, hsaid, fun kept' hmem => ?_⟩
            obtain rfl := Option.some.inj hmem
            exact ⟨why, tried_error htried⟩

/-- **What the operator is told to build.**  Whatever the file holds, a hint that names a build
is read by a shell as the rebuild of one ref that `flake_ref` accepts, no release too old to
build.  It is what the file names, or else this `yo`'s own release, and then the operator has
been told of what the file holds. -/
theorem rebuildHint_command {said : List Said} (hversion : ∀ c ∈ YO_VERSION, c ∈ nameChars)
    (huser : ∀ c ∈ user, Shlex.isSafe c = true)
    (h : rebuildHint YO_VERSION file = .ok (said, .command r)) :
    Shlex.words (rebuildCommand m user r) = some (rebuildWords m user r) ∧
      (∀ LATER, flakeRef LATER (some r) = .ok r) ∧
      (∀ version, IsRelease r version → FIRST_HOST_OS_FREE_RELEASE ≤ version) ∧
      ((∃ kept, rememberedFlakeRef file = some kept ∧ flakeRef YO_VERSION (some kept) = .ok r ∧
          said = []) ∨
        flakeRef YO_VERSION none = .ok r ∧ said = (rememberedFlakeRef file).toList.map .notAccepted ∧
          ∀ kept ∈ rememberedFlakeRef file, ∃ why, flakeRef YO_VERSION (some kept) = .error why) := by
  have hsource := rebuildHint_source h
  have haccepted : GITHUB_FLAKE_RE.rmatch r = true ∧ oldRelease r = .ok none := by
    rcases hsource with ⟨kept, -, hkept, -⟩ | ⟨hown, -⟩
    · obtain ⟨hnamed, hold⟩ := flakeRef_eq_ok_iff.mp hkept
      exact ⟨githubFlake_of_named hnamed, hold⟩
    · exact own_accepted hversion hown
  obtain ⟨hmatch, hold⟩ := haccepted
  refine ⟨words_rebuildCommand huser hmatch, fun LATER => accepted_again hmatch hold, ?_, hsource⟩
  exact fun parts hparts => oldRelease_eq hparts hold

theorem rebuildHint_command_path : ∃ said, said = [Said.notAccepted (lit "path:/home/u/src")] ∧
    Shlex.words (rebuildCommand ⟨lit "work", by decide⟩ (lit "u") (lit "github:aka-rider/yolobox/v1.9.4")) =
      some (rebuildWords ⟨lit "work", by decide⟩ (lit "u") (lit "github:aka-rider/yolobox/v1.9.4")) :=
  have hhint : rebuildHint (lit "1.9.4") (some (lit "path:/home/u/src\r\n")) =
      .ok ([.notAccepted (lit "path:/home/u/src")], .command (lit "github:aka-rider/yolobox/v1.9.4")) := by
    decide +kernel
  ⟨_, rfl, (rebuildHint_command (by decide) (by decide) hhint).1⟩

/-- **What the other hints tell to run**: a bootstrap of this machine, which a shell reads as it is
meant, with the operator's ref, quoted, in the place of the `<ref>` that a hint may have. -/
theorem Hint.text_run (m : Machine) (hint : Hint) (hnone : ∀ ref, hint ≠ .command ref) :
    ∃ words rest, hint.text m = lit "run " ++ yoCmd m (lit "bootstrap" :: words) ++ rest ∧
      (words = [] ∧ Shlex.words (yoCmd m [lit "bootstrap"]) = some (yoWords m [lit "bootstrap"]) ∨
        words = [lit "--version", lit "<ref>"] ∧
          ∀ ref, Shlex.words (yoCmd m [lit "bootstrap", lit "--version", Shlex.quote ref]) =
            some (yoWords m [lit "bootstrap", lit "--version", ref])) := by
  have hplain := words_yoCmd m (List.cons_ne_nil (lit "bootstrap") [])
  have hasked := fun ref => words_yoCmd m (List.cons_ne_nil (lit "bootstrap") [lit "--version", ref])
  cases hint with
  | command ref => exact absurd rfl (hnone ref)
  | name => exact ⟨_, _, rfl, .inr ⟨rfl, hasked⟩⟩
  | old own version =>
    have hkeep : ∃ keep, ∀ own, Hint.text m (.old own version) =
        lit "run " ++ yoCmd m (lit "bootstrap" :: if own then [] else [lit "--version", lit "<ref>"]) ++
          ((if own then lit " to move the box to this yo's release"
            else lit " to move the box to a ref this yo can build") ++ keep) := by
      refine ⟨lit ", or " ++ (oldReleaseYo m version ++ (lit " to keep it on release " ++
        (version ++ (lit ", " ++ OLD_RELEASE_WHY)))), fun own => ?_⟩
      cases own <;> simp only [Hint.text, Bool.false_eq_true, if_false, if_true, List.append_assoc]
    obtain ⟨keep, htext⟩ := hkeep
    cases own with
    | true => exact ⟨_, _, htext true, .inl ⟨rfl, hplain⟩⟩
    | false => exact ⟨_, _, htext false, .inr ⟨rfl, hasked⟩⟩

/-- **The ref of a bootstrap is the ref of the next one.**  Once a box is built from a ref that
was asked for, the file remembers that ref, every later `yo` accepts it and prints the rebuild
of it, and the command that replaces the box bootstraps it again from it, which leaves the
same file. -/
theorem bootstrap_remembered (h : flakeRef YO_VERSION (some version) = .ok r) (m : Machine)
    (LATER : PyStr) :
    rememberedFlakeRef (bootstrapFile (some version) r) = some r ∧
      rebuildHint LATER (bootstrapFile (some version) r) = .ok ([], .command r) ∧
      flakeRef LATER (some r) = .ok r ∧ bootstrapFile (some r) r = bootstrapFile (some version) r ∧
      ∃ destroy bootstrap,
        destroyThenBootstrapCommand m (bootstrapFile (some version) r) =
          destroy ++ lit " && " ++ bootstrap ∧
        Shlex.words destroy = some (yoWords m [lit "destroy", lit "--yes"]) ∧
        Shlex.words bootstrap = some (yoWords m [lit "bootstrap", lit "--version", r]) := by
  obtain ⟨hnamed, hold⟩ := flakeRef_eq_ok_iff.mp h
  have hmatch := githubFlake_of_named hnamed
  have hkept : rememberedFlakeRef (bootstrapFile (some version) r) = some r :=
    remembered_of_accepted hmatch
  have hagain : flakeRef LATER (some r) = .ok r := accepted_again hmatch hold
  refine ⟨hkept, ?_, hagain, rfl, ?_⟩
  · rw [rebuildHint, hkept]
    change (oldRelease r >>= _) = _
    rw [hold]
    change (tried LATER (some r) >>= _) = _
    rw [tried, hagain]
    rfl
  · have hcommand := words_destroyThenBootstrap m (bootstrapFile (some version) r)
    rwa [hkept] at hcommand

theorem bootstrap_remembered_branch :
    rememberedFlakeRef (bootstrapFile (some (lit "main")) (lit "github:aka-rider/yolobox/main")) =
      some (lit "github:aka-rider/yolobox/main") :=
  have hmain : flakeRef (lit "1.9.4") (some (lit "main")) = .ok (lit "github:aka-rider/yolobox/main") := by
    decide +kernel
  (bootstrap_remembered hmain ⟨lit "work", by decide⟩ (lit "dev")).1

end Release
