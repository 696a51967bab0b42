/-
# `posixpath`

The functions of Python's `posixpath` on the text of a path, and what they do on a
clean absolute path: one that is spelled by a list of names, a slash before each.
On clean paths the text and the list of names say the same, and a prefix of the
text that ends before a slash is a prefix of the list.
-/
import Yolobox.Text
import Yolobox.Lib.Lists

namespace Posix

/-! ## The functions -/

/-- `'/'.join(names)`. -/
def joinSlash (names : List PyStr) : PyStr := [47].intercalate names

/-- `splitroot`: one leading slash is a root, and so are exactly two. -/
def splitroot : PyStr → PyStr × PyStr
  | 47 :: 47 :: 47 :: rest => ([47], 47 :: 47 :: rest)
  | 47 :: 47 :: rest => ([47, 47], rest)
  | 47 :: rest => ([47], rest)
  | path => ([], path)

/-- One component of `normpath`. -/
def normStep (root : PyStr) (comps : List PyStr) (comp : PyStr) : List PyStr :=
  if comp = [] ∨ comp = lit "." then comps
  else if comp ≠ lit ".." ∨ (root = [] ∧ comps = []) ∨ comps.getLast? = some (lit "..") then
    comps ++ [comp]
  else comps.dropLast

def normpath (path : PyStr) : PyStr :=
  let (root, rest) := splitroot path
  let normal := root ++ joinSlash ((rest.splitOn 47).foldl (normStep root) [])
  if normal = [] then lit "." else normal

def isSlash (c : ℕ) : Bool := c == 47

def basename (path : PyStr) : PyStr := (path.reverse.takeWhile fun c => !isSlash c).reverse

def dirname (path : PyStr) : PyStr :=
  let head := (path.reverse.dropWhile fun c => !isSlash c).reverse
  if head.all isSlash then head else (head.reverse.dropWhile isSlash).reverse

/-- `join(a, b)`. -/
def join (a b : PyStr) : PyStr :=
  if startswith b [47] then b
  else if a = [] ∨ a.getLast? = some 47 then a ++ b
  else a ++ 47 :: b

/-! ## Clean absolute paths -/

/-- A component that stands for itself. -/
def IsName (n : PyStr) : Prop := n ≠ [] ∧ n ≠ lit "." ∧ n ≠ lit ".." ∧ 47 ∉ n

instance (n : PyStr) : Decidable (IsName n) := by unfold IsName; infer_instance

/-- The text of a list of names, a slash before each. -/
def ofNames (names : List PyStr) : PyStr := names.flatMap fun n => 47 :: n

/-- The components of a text. -/
def names (path : PyStr) : List PyStr := (path.splitOn 47).tail

@[simp] theorem ofNames_nil : ofNames [] = [] := rfl

@[simp] theorem ofNames_cons (n : PyStr) (ns : List PyStr) :
    ofNames (n :: ns) = 47 :: (n ++ ofNames ns) := rfl

@[simp] theorem ofNames_append (ns ms : List PyStr) :
    ofNames (ns ++ ms) = ofNames ns ++ ofNames ms := List.flatMap_append

theorem ofNames_concat (ns : List PyStr) (n : PyStr) :
    ofNames (ns ++ [n]) = ofNames ns ++ 47 :: n := by simp

theorem ofNames_eq_nil {ns : List PyStr} : ofNames ns = [] ↔ ns = [] := by
  cases ns <;> simp

/-- The text is what `'/'.join` makes of the names after an empty one. -/
theorem joinSlash_cons_nil (ns : List PyStr) : joinSlash ([] :: ns) = ofNames ns := by
  induction ns with
  | nil => rfl
  | cons n ns ih =>
    cases ns with
    | nil => simp [joinSlash, List.intercalate]
    | cons m ns =>
      simp only [joinSlash, List.intercalate_cons_cons] at ih ⊢
      rw [ofNames_cons, ← ih]
      simp

theorem ofNames_eq_joinSlash {ns : List PyStr} (h : ns ≠ []) : ofNames ns = 47 :: joinSlash ns := by
  obtain ⟨n, ns, rfl⟩ := List.exists_cons_of_ne_nil h
  rw [← joinSlash_cons_nil, joinSlash, List.intercalate_cons_cons]
  rfl

/-- A text that starts with a slash is spelled by its components. -/
theorem ofNames_names (rest : PyStr) : ofNames (names (47 :: rest)) = 47 :: rest := by
  have hsplit : (47 :: rest).splitOn 47 = [] :: rest.splitOn 47 :=
    List.splitOn_append_cons_self_of_not_mem List.not_mem_nil rest
  rw [← joinSlash_cons_nil, names, hsplit, List.tail_cons, ← hsplit]
  exact List.intercalate_splitOn 47

/-- **Text and names.**  A clean text spells one list of names. -/
theorem names_ofNames {ns : List PyStr} (h : ∀ n ∈ ns, IsName n) : names (ofNames ns) = ns := by
  have hsep : ∀ n ∈ ([] :: ns), 47 ∉ n := by
    rw [List.forall_mem_cons]
    exact ⟨List.not_mem_nil, fun n hn => (h n hn).2.2.2⟩
  rw [names, ← joinSlash_cons_nil, joinSlash,
    List.splitOn_intercalate 47 hsep (List.cons_ne_nil _ _), List.tail_cons]

theorem ofNames_injective {ns ms : List PyStr} (hn : ∀ n ∈ ns, IsName n)
    (hm : ∀ m ∈ ms, IsName m) (h : ofNames ns = ofNames ms) : ns = ms := by
  rw [← names_ofNames hn, h, names_ofNames hm]

/-- **Below.**  What follows a clean path and a slash are more components. -/
theorem names_append_slash (path rest : PyStr) :
    names (path ++ 47 :: rest) = names path ++ rest.splitOn 47 := by
  unfold names
  rw [List.splitOn_append_cons_self, List.tail_append_of_ne_nil (List.splitOn_ne_nil 47 path)]

theorem startswith_slash_iff {ss ps : List PyStr} (hs : ∀ n ∈ ss, IsName n)
    (hp : ∀ n ∈ ps, IsName n) :
    startswith (ofNames ps) (ofNames ss ++ [47]) = true ↔ ∃ r rs, ps = ss ++ r :: rs := by
  rw [startswith_iff]
  constructor
  · rintro ⟨rest, hrest⟩
    rw [List.append_assoc, List.singleton_append] at hrest
    have hnames := congrArg names hrest
    rw [names_ofNames hp, names_append_slash, names_ofNames hs] at hnames
    obtain ⟨r, rs, hsplit⟩ := List.exists_cons_of_ne_nil (List.splitOn_ne_nil 47 rest)
    exact ⟨r, rs, by rw [hnames, hsplit]⟩
  · rintro ⟨r, rs, rfl⟩
    exact ⟨r ++ ofNames rs, by simp⟩

/-! ## The functions on clean paths -/

theorem takeWhile_name {n : PyStr} (hn : 47 ∉ n) (rest : PyStr) :
    ((n.reverse ++ 47 :: rest).takeWhile fun c => !isSlash c) = n.reverse ∧
      ((n.reverse ++ 47 :: rest).dropWhile fun c => !isSlash c) = 47 :: rest := by
  have hall : ∀ c ∈ n.reverse, (!isSlash c) = true := by
    intro c hc
    rw [List.mem_reverse] at hc
    simp only [isSlash, Bool.not_eq_true', beq_eq_false_iff_ne]
    rintro rfl
    exact hn hc
  rw [List.takeWhile_append_of_pos hall, List.dropWhile_append_of_pos hall]
  simp [isSlash]

theorem basename_ofNames {ns : List PyStr} {n : PyStr} (hn : 47 ∉ n) :
    basename (ofNames (ns ++ [n])) = n := by
  rw [basename, ofNames_concat, List.reverse_append, List.reverse_cons, List.append_assoc,
    List.singleton_append, (takeWhile_name hn _).1, List.reverse_reverse]

/-- The text of a name at the end does not end in a slash. -/
theorem dropWhile_slash_ofNames {ns : List PyStr} (hns : ∀ n ∈ ns, IsName n) (hne : ns ≠ []) :
    ((ofNames ns).reverse.dropWhile isSlash) = (ofNames ns).reverse := by
  obtain ⟨init, last, rfl⟩ := List.eq_nil_or_concat ns |>.resolve_left hne
  have hlast := hns last (by simp)
  obtain ⟨front, c, rfl⟩ := List.eq_nil_or_concat last |>.resolve_left hlast.1
  have hc : isSlash c = false := by
    simp only [isSlash, beq_eq_false_iff_ne]
    rintro rfl
    exact hlast.2.2.2 (by simp)
  rw [List.concat_eq_append, List.concat_eq_append, ofNames_concat]
  simp [hc]

theorem dirname_ofNames {ns : List PyStr} {n : PyStr} (hns : ∀ n ∈ ns, IsName n) (hne : ns ≠ [])
    (hn : 47 ∉ n) : dirname (ofNames (ns ++ [n])) = ofNames ns := by
  have hhead : ((ofNames (ns ++ [n])).reverse.dropWhile fun c => !isSlash c) =
      47 :: (ofNames ns).reverse := by
    rw [ofNames_concat, List.reverse_append, List.reverse_cons, List.append_assoc,
      List.singleton_append, (takeWhile_name hn _).2]
  have hdrop := dropWhile_slash_ofNames hns hne
  have hall : (47 :: (ofNames ns).reverse).reverse.all isSlash = false := by
    by_contra h
    rw [Bool.not_eq_false, List.all_reverse, List.all_cons, Bool.and_eq_true] at h
    have hnil := List.dropWhile_eq_nil_iff.mpr (List.all_eq_true.mp h.2)
    rw [hdrop, List.reverse_eq_nil_iff, ofNames_eq_nil] at hnil
    exact hne hnil
  unfold dirname
  simp only [hhead, hall, Bool.false_eq_true, if_false, List.reverse_reverse]
  rw [List.dropWhile_cons, if_pos (by rfl), hdrop, List.reverse_reverse]

theorem join_ofNames {a n : PyStr} (ha : a ≠ []) (hend : a.getLast? ≠ some 47) (hn : IsName n) :
    join a n = a ++ ofNames [n] := by
  have hstart : startswith n [47] = false := by
    rw [Bool.eq_false_iff, Ne, startswith_iff]
    rintro ⟨rest, rfl⟩
    exact hn.2.2.2 (by simp)
  simp [join, hstart, ha, hend]

/-- The components of an absolute path, once normal, are names. -/
theorem foldl_normStep_isName (comps : List PyStr) (hsep : ∀ c ∈ comps, 47 ∉ c)
    {stack : List PyStr} (hstack : ∀ n ∈ stack, IsName n) :
    ∀ n ∈ comps.foldl (normStep [47]) stack, IsName n := by
  induction comps generalizing stack with
  | nil => exact hstack
  | cons comp comps ih =>
    rw [List.forall_mem_cons] at hsep
    refine ih hsep.2 ?_
    unfold normStep
    split_ifs with hskip hpush
    · exact hstack
    · have hlast : stack.getLast? ≠ some (lit "..") := by
        intro h
        exact (hstack _ (List.mem_of_getLast? h)).2.2.1 rfl
      have hdots : comp ≠ lit ".." := by simpa [hlast] using hpush
      rw [List.forall_mem_append]
      refine ⟨hstack, ?_⟩
      rw [List.forall_mem_singleton]
      rw [not_or] at hskip
      exact ⟨hskip.1, hskip.2, hdots, hsep.1⟩
    · exact fun n hn => hstack n (List.mem_of_mem_dropLast hn)

/-- Names are kept as they are. -/
theorem foldl_normStep_names (root : PyStr) {ns : List PyStr} (hns : ∀ n ∈ ns, IsName n)
    (stack : List PyStr) : ns.foldl (normStep root) stack = stack ++ ns := by
  induction ns generalizing stack with
  | nil => simp
  | cons n ns ih =>
    rw [List.forall_mem_cons] at hns
    have hstep : normStep root stack n = stack ++ [n] := by
      rw [normStep, if_neg (by simp [hns.1.1, hns.1.2.1]), if_pos (.inl hns.1.2.2.1)]
    rw [List.foldl_cons, hstep, ih hns.2, List.append_assoc, List.singleton_append]

theorem splitroot_single {c : ℕ} (hc : c ≠ 47) (rest : PyStr) :
    splitroot (47 :: c :: rest) = ([47], c :: rest) := by
  unfold splitroot
  split <;> simp_all

/-- Every component of a normal path is some text without a slash. -/
theorem foldl_normStep_component (root : PyStr) (comps : List PyStr) (hsep : ∀ c ∈ comps, 47 ∉ c)
    {stack : List PyStr} (hstack : ∀ n ∈ stack, n ≠ [] ∧ 47 ∉ n) :
    ∀ n ∈ comps.foldl (normStep root) stack, n ≠ [] ∧ 47 ∉ n := by
  induction comps generalizing stack with
  | nil => exact hstack
  | cons comp comps ih =>
    rw [List.forall_mem_cons] at hsep
    refine ih hsep.2 ?_
    unfold normStep
    split_ifs with hskip hpush
    · exact hstack
    · rw [List.forall_mem_append, List.forall_mem_singleton]
      rw [not_or] at hskip
      exact ⟨hstack, hskip.1, hsep.1⟩
    · exact fun n hn => hstack n (List.mem_of_mem_dropLast hn)

theorem splitroot_root (path : PyStr) :
    (splitroot path).1 = [] ∨ (splitroot path).1 = [47] ∨ (splitroot path).1 = [47, 47] := by
  unfold splitroot
  split <;> simp

/-- **Clean.**  What `normpath` returns, with one leading slash and more, is the text of a
list of names. -/
theorem clean_of_normpath {path : PyStr} {c : ℕ} {rest : PyStr} (hc : c ≠ 47)
    (h : normpath path = 47 :: c :: rest) :
    ∃ ns, ns ≠ [] ∧ (∀ n ∈ ns, IsName n) ∧ normpath path = ofNames ns := by
  have hsep : ∀ comp ∈ (splitroot path).2.splitOn 47, 47 ∉ comp :=
    fun comp hcomp => Lists.not_mem_of_mem_splitOn hcomp
  have hnormal : normpath path = (splitroot path).1 ++
      joinSlash (((splitroot path).2.splitOn 47).foldl (normStep (splitroot path).1) []) := by
    unfold normpath at h ⊢
    simp only at h ⊢
    split_ifs at h ⊢ with hempty
    · rw [show lit "." = [46] from rfl] at h
      simp at h
    · rfl
  rcases splitroot_root path with hroot | hroot | hroot
  · -- a relative path starts with a component
    rw [hnormal, hroot, List.nil_append] at h
    have hcomps : ∀ n ∈ ((splitroot path).2.splitOn 47).foldl (normStep []) [],
        n ≠ [] ∧ 47 ∉ n := foldl_normStep_component [] _ hsep (by simp)
    cases hfold : ((splitroot path).2.splitOn 47).foldl (normStep []) [] with
    | nil => simp [hfold, joinSlash] at h
    | cons n ns =>
      rw [hfold, List.forall_mem_cons] at hcomps
      obtain ⟨x, xs, rfl⟩ := List.exists_cons_of_ne_nil hcomps.1.1
      rw [hfold, joinSlash, List.intercalate_cons_cons_left, List.cons.injEq] at h
      exact absurd (List.mem_cons_self ..) (h.1 ▸ hcomps.1.2)
  · rw [hroot] at hnormal
    refine ⟨((splitroot path).2.splitOn 47).foldl (normStep [47]) [], ?_, ?_, ?_⟩
    · intro hnil
      rw [hnormal, hnil] at h
      simp [joinSlash] at h
    · exact foldl_normStep_isName _ hsep (by simp)
    · rw [ofNames_eq_joinSlash, hnormal]
      · rfl
      · intro hnil
        rw [hnormal, hnil] at h
        simp [joinSlash] at h
  · rw [hnormal, hroot, List.cons_append, List.cons_append, List.cons.injEq, List.cons.injEq] at h
    exact absurd h.2.1.symm hc

/-- A list of names is clean already. -/
theorem normpath_ofNames {ns : List PyStr} (hns : ∀ n ∈ ns, IsName n) (hne : ns ≠ []) :
    normpath (ofNames ns) = ofNames ns := by
  have htext := ofNames_eq_joinSlash hne
  obtain ⟨n, tail, rfl⟩ := List.exists_cons_of_ne_nil hne
  have hn := hns n (List.mem_cons_self ..)
  obtain ⟨c, cs, rfl⟩ := List.exists_cons_of_ne_nil hn.1
  have hc : c ≠ 47 := fun h => hn.2.2.2 (by simp [h])
  have hsplit : (c :: (cs ++ ofNames tail)).splitOn 47 = (c :: cs) :: tail := by
    rw [ofNames_cons, List.cons_append, List.cons.injEq] at htext
    rw [htext.2]
    exact List.splitOn_intercalate 47 (fun m hm => (hns m hm).2.2.2) hne
  rw [ofNames_cons, List.cons_append, normpath, splitroot_single hc]
  simp only [hsplit, foldl_normStep_names _ hns, List.nil_append, List.cons_append,
    List.cons_ne_nil, if_false]
  exact htext.symm

/-! ## Below -/

/-- A clean absolute path other than the root. -/
def Clean (path : PyStr) : Prop :=
  ∃ ns, ns ≠ [] ∧ (∀ n ∈ ns, IsName n) ∧ path = ofNames ns

/-- `path` is `start` and some names more, at least one when `strict`. -/
def AtOrBelow (start path : PyStr) : Prop :=
  ∃ rest, (∀ n ∈ rest, IsName n) ∧ path = start ++ ofNames rest

def Below (start path : PyStr) : Prop :=
  ∃ rest, rest ≠ [] ∧ (∀ n ∈ rest, IsName n) ∧ path = start ++ ofNames rest

theorem AtOrBelow.refl (path : PyStr) : AtOrBelow path path := ⟨[], by simp, by simp⟩

theorem Below.atOrBelow {start path : PyStr} (h : Below start path) : AtOrBelow start path := by
  obtain ⟨rest, -, hrest, rfl⟩ := h
  exact ⟨rest, hrest, rfl⟩

theorem AtOrBelow.clean {start path : PyStr} (hstart : Clean start) (h : AtOrBelow start path) :
    Clean path := by
  obtain ⟨ns, hne, hns, rfl⟩ := hstart
  obtain ⟨rest, hrest, rfl⟩ := h
  refine ⟨ns ++ rest, by simp [hne], ?_, (ofNames_append ..).symm⟩
  rw [List.forall_mem_append]
  exact ⟨hns, hrest⟩

theorem AtOrBelow.trans {a b c : PyStr} (hab : AtOrBelow a b) (hbc : AtOrBelow b c) :
    AtOrBelow a c := by
  obtain ⟨xs, hxs, rfl⟩ := hab
  obtain ⟨ys, hys, rfl⟩ := hbc
  refine ⟨xs ++ ys, ?_, by simp⟩
  rw [List.forall_mem_append]
  exact ⟨hxs, hys⟩

theorem Clean.ne_nil {path : PyStr} (h : Clean path) : path ≠ [] := by
  obtain ⟨ns, hne, -, rfl⟩ := h
  exact fun hnil => hne (ofNames_eq_nil.mp hnil)

theorem Clean.normpath_eq {path : PyStr} (h : Clean path) : normpath path = path := by
  obtain ⟨ns, hne, hns, rfl⟩ := h
  exact normpath_ofNames hns hne

/-- A clean path starts with one slash and a character of a name. -/
theorem Clean.head {path : PyStr} (h : Clean path) : ∃ c rest, c ≠ 47 ∧ path = 47 :: c :: rest := by
  obtain ⟨ns, hne, hns, rfl⟩ := h
  obtain ⟨n, tail, rfl⟩ := List.exists_cons_of_ne_nil hne
  have hn := hns n (List.mem_cons_self ..)
  obtain ⟨c, cs, rfl⟩ := List.exists_cons_of_ne_nil hn.1
  exact ⟨c, cs ++ ofNames tail, fun h => hn.2.2.2 (by simp [h]), rfl⟩

/-- **Below a clean start.**  A normal path whose text goes on after the start and a slash
is some names more. -/
theorem below_of_startswith {start path : PyStr} (hstart : Clean start)
    (hnorm : normpath path = path) (h : startswith path (start ++ [47]) = true) :
    Below start path := by
  obtain ⟨c, cs, hc, htext⟩ := hstart.head
  obtain ⟨more, hmore⟩ := startswith_iff.mp h
  have hpath : path = 47 :: c :: (cs ++ [47] ++ more) := by
    rw [hmore, htext]
    simp
  obtain ⟨ps, -, hps, hspell⟩ := clean_of_normpath hc (hnorm.trans hpath)
  rw [hnorm] at hspell
  obtain ⟨ns, hne, hns, rfl⟩ := hstart
  rw [hspell] at h
  obtain ⟨r, rs, rfl⟩ := (startswith_slash_iff hns hps).mp h
  refine ⟨r :: rs, List.cons_ne_nil _ _, fun n hn => hps n (by simp [hn]), ?_⟩
  rw [hspell, ofNames_append]

theorem Below.startswith {start path : PyStr} (h : Below start path) :
    startswith path (start ++ [47]) = true := by
  obtain ⟨rest, hne, hrest, rfl⟩ := h
  obtain ⟨r, rs, rfl⟩ := List.exists_cons_of_ne_nil hne
  exact startswith_iff.mpr ⟨r ++ ofNames rs, by simp⟩

/-- The parent of a path some names below a clean start. -/
theorem dirname_below {start n : PyStr} {rest : List PyStr} (hstart : Clean start)
    (hrest : ∀ m ∈ rest, IsName m) (hn : IsName n) :
    dirname (start ++ ofNames (rest ++ [n])) = start ++ ofNames rest := by
  obtain ⟨ns, hne, hns, rfl⟩ := hstart
  rw [← ofNames_append, ← ofNames_append, ← List.append_assoc]
  refine dirname_ofNames ?_ (by simp [hne]) hn.2.2.2
  rw [List.forall_mem_append]
  exact ⟨hns, hrest⟩

theorem basename_below {start n : PyStr} {rest : List PyStr} (hstart : Clean start)
    (hn : IsName n) : basename (start ++ ofNames (rest ++ [n])) = n := by
  obtain ⟨ns, -, -, rfl⟩ := hstart
  rw [← ofNames_append, ← List.append_assoc]
  exact basename_ofNames hn.2.2.2

theorem Clean.basename_isName {path : PyStr} (h : Clean path) : IsName (basename path) := by
  obtain ⟨ns, hne, hns, rfl⟩ := h
  obtain ⟨init, last, rfl⟩ := (List.eq_nil_or_concat ns).resolve_left hne
  have hlast := hns last (by simp)
  rw [List.concat_eq_append, basename_ofNames hlast.2.2.2]
  exact hlast

/-- A child is its directory and one name. -/
theorem Clean.child {directory child : PyStr} (hdir : Clean directory) (hchild : Clean child)
    (h : dirname child = directory) :
    IsName (basename child) ∧ child = directory ++ ofNames [basename child] := by
  obtain ⟨ns, hne, hns, rfl⟩ := hchild
  obtain ⟨init, last, rfl⟩ := (List.eq_nil_or_concat ns).resolve_left hne
  rw [List.concat_eq_append] at hns h ⊢
  have hlast := hns last (by simp)
  rw [basename_ofNames hlast.2.2.2]
  refine ⟨hlast, ?_⟩
  have hinit : init ≠ [] := by
    rintro rfl
    have hroot : dirname (ofNames ([] ++ [last])) = [47] := by
      simp only [dirname, List.nil_append, ofNames_cons, ofNames_nil, List.append_nil,
        List.reverse_cons]
      rw [(takeWhile_name hlast.2.2.2 []).2]
      rfl
    obtain ⟨c, rest, -, htext⟩ := hdir.head
    rw [← h, hroot] at htext
    simp at htext
  rw [dirname_ofNames (fun n hn => hns n (by simp [hn])) hinit hlast.2.2.2] at h
  rw [← h, ofNames_append]

/-! ## Directories made below another -/

/-- A text that `join` extends by a slash and a name. -/
def Extends (a : PyStr) : Prop := a ≠ [] ∧ a.getLast? ≠ some 47

theorem Extends.join {a n : PyStr} (ha : Extends a) (hn : IsName n) :
    join a n = a ++ ofNames [n] := join_ofNames ha.1 ha.2 hn

theorem IsName.getLast? {n : PyStr} (hn : IsName n) (a : PyStr) :
    (a ++ n).getLast? ≠ some 47 := by
  rw [List.getLast?_append_of_ne_nil _ hn.1]
  exact fun h => hn.2.2.2 (List.mem_of_getLast? h)

/-- What `join` makes of any directory and a name can be extended. -/
theorem IsName.extends_join {n : PyStr} (hn : IsName n) (a : PyStr) : Extends (join a n) := by
  have hjoin : ∃ front, Posix.join a n = front ++ n := by
    unfold Posix.join
    split_ifs
    · exact ⟨[], rfl⟩
    · exact ⟨a, rfl⟩
    · exact ⟨a ++ [47], by simp⟩
  obtain ⟨front, hfront⟩ := hjoin
  rw [hfront]
  exact ⟨by simp [hn.1], hn.getLast? front⟩

theorem Extends.append {a : PyStr} {ns : List PyStr} (ha : Extends a) (hns : ∀ n ∈ ns, IsName n) :
    Extends (a ++ ofNames ns) := by
  induction ns using List.reverseRecOn with
  | nil => simpa using ha
  | append_singleton ns n _ =>
    have hn := hns n (by simp)
    refine ⟨by simp [ha.1], ?_⟩
    rw [ofNames_concat, ← List.append_assoc, List.append_cons]
    exact hn.getLast? _

/-! ## The characters of a normal path -/

theorem mem_splitroot {c : ℕ} {path : PyStr} (h : c ∈ (splitroot path).2) : c ∈ path := by
  unfold splitroot at h
  split at h <;> simp only [List.mem_cons] at h ⊢ <;> tauto

/-- A component that is kept was there. -/
theorem mem_foldl_normStep {root n : PyStr} {comps stack : List PyStr}
    (h : n ∈ comps.foldl (normStep root) stack) : n ∈ stack ∨ n ∈ comps := by
  induction comps generalizing stack with
  | nil => exact .inl h
  | cons comp comps ih =>
    rcases ih h with hstep | hrest
    · unfold normStep at hstep
      split_ifs at hstep
      · exact .inl hstep
      · rcases List.mem_append.mp hstep with hstack | hcomp
        · exact .inl hstack
        · exact .inr (by simp [List.mem_singleton.mp hcomp])
      · exact .inl (List.mem_of_mem_dropLast hstep)
    · exact .inr (List.mem_cons_of_mem _ hrest)

/-- **`normpath` makes no character** but a slash and a dot. -/
theorem mem_normpath {c : ℕ} {path : PyStr} (h : c ∈ normpath path) : c = 46 ∨ c = 47 ∨ c ∈ path := by
  unfold normpath at h
  simp only at h
  split_ifs at h with hempty
  · exact .inl (List.mem_singleton.mp h)
  · rcases List.mem_append.mp h with hroot | hjoin
    · rcases splitroot_root path with hr | hr | hr <;> rw [hr] at hroot <;> simp at hroot
      all_goals exact .inr (.inl hroot)
    · rcases Lists.mem_intercalate hjoin with hslash | ⟨n, hn, hc⟩
      · exact .inr (.inl (List.mem_singleton.mp hslash))
      · rcases mem_foldl_normStep hn with hnil | hcomp
        · exact absurd hnil List.not_mem_nil
        · exact .inr (.inr (mem_splitroot (Lists.mem_of_mem_splitOn hcomp hc)))

end Posix
