/-
# Names and inodes

A file system as its users see it over time: a name points at an inode, an open file is an
inode, and a rename moves a name.  In a sound file system no two names share an inode, and
an inode that is new is nobody's.
-/
import Mathlib

namespace Inodes

variable {N α : Type}

structure File (α : Type) where
  data : List α
  mode : ℕ
  deriving DecidableEq, Repr

structure Fs (N α : Type) where
  names : N → Option ℕ
  inodes : ℕ → File α
  next : ℕ                -- the inodes from here on are new

namespace Fs

/-- The file that a name points at. -/
def file (fs : Fs N α) (name : N) : Option (File α) := (fs.names name).map fs.inodes

/-! ## Operations -/

def create [DecidableEq N] (fs : Fs N α) (name : N) (mode : ℕ) : Fs N α :=
  ⟨Function.update fs.names name (some fs.next), Function.update fs.inodes fs.next ⟨[], mode⟩, fs.next + 1⟩

def modify (fs : Fs N α) (inode : ℕ) (f : File α → File α) : Fs N α :=
  { fs with inodes := Function.update fs.inodes inode (f (fs.inodes inode)) }

def append (fs : Fs N α) (inode : ℕ) (data : List α) : Fs N α :=
  fs.modify inode fun file => { file with data := file.data ++ data }

def chmod (fs : Fs N α) (inode : ℕ) (mode : ℕ) : Fs N α :=
  fs.modify inode fun file => { file with mode := mode }

def unlink [DecidableEq N] (fs : Fs N α) (name : N) : Fs N α := { fs with names := Function.update fs.names name none }

/-- The name moves, and what was there before is gone. -/
def rename [DecidableEq N] (fs : Fs N α) (source target : N) : Fs N α :=
  { fs with names := Function.update (Function.update fs.names target (fs.names source)) source none }

/-! ## Soundness -/

structure Sound (fs : Fs N α) : Prop where
  used : ∀ name inode, fs.names name = some inode → inode < fs.next
  apart : ∀ name name' inode, fs.names name = some inode → fs.names name' = some inode → name = name'

variable {fs : Fs N α} {name name' source target : N} {inode mode : ℕ}

@[simp] theorem names_modify (f : File α → File α) : (fs.modify inode f).names = fs.names := rfl

@[simp] theorem next_modify (f : File α → File α) : (fs.modify inode f).next = fs.next := rfl

theorem inodes_modify_of_ne {f : File α → File α} {other : ℕ} (h : other ≠ inode) :
    (fs.modify inode f).inodes other = fs.inodes other := Function.update_of_ne h _ _

@[simp] theorem inodes_modify_self (f : File α → File α) :
    (fs.modify inode f).inodes inode = f (fs.inodes inode) := Function.update_self _ _ _

theorem Sound.modify (h : fs.Sound) (f : File α → File α) : (fs.modify inode f).Sound := ⟨h.used, h.apart⟩

variable [DecidableEq N]

theorem names_create (other : N) : (fs.create name mode).names other =
    if other = name then some fs.next else fs.names other := Function.update_apply _ _ _ _

theorem names_unlink (other : N) : (fs.unlink name).names other =
    if other = name then none else fs.names other := Function.update_apply _ _ _ _

theorem inodes_create_of_lt {other : ℕ} (h : other < fs.next) :
    (fs.create name mode).inodes other = fs.inodes other := Function.update_of_ne h.ne _ _

theorem Sound.create (h : fs.Sound) : (fs.create name mode).Sound := by
  have hcases {other : N} {inode : ℕ} (hother : (fs.create name mode).names other = some inode) :
      (other = name ∧ inode = fs.next) ∨ (other ≠ name ∧ fs.names other = some inode) := by
    rw [names_create] at hother
    split_ifs at hother with hname
    · exact .inl ⟨hname, (Option.some.inj hother).symm⟩
    · exact .inr ⟨hname, hother⟩
  constructor
  case used =>
    intro other inode hother
    show inode < fs.next + 1
    rcases hcases hother with ⟨-, rfl⟩ | ⟨-, hused⟩
    · exact Nat.lt_succ_self _
    · exact Nat.lt_succ_of_lt (h.used other inode hused)
  case apart =>
    intro other other' inode hother hother'
    rcases hcases hother with ⟨rfl, rfl⟩ | ⟨-, hused⟩ <;> rcases hcases hother' with ⟨rfl, heq⟩ | ⟨-, hused'⟩
    · rfl
    · exact absurd (h.used other' _ hused') (lt_irrefl _)
    · exact absurd (heq ▸ h.used other _ hused) (lt_irrefl _)
    · exact h.apart other other' inode hused hused'

theorem Sound.unlink (h : fs.Sound) : (fs.unlink name).Sound := by
  have hcases {other : N} {inode : ℕ} (hother : (fs.unlink name).names other = some inode) :
      fs.names other = some inode := by
    rw [names_unlink] at hother
    exact (Option.ite_none_left_eq_some.mp hother).2
  exact ⟨fun other inode hother => h.used other inode (hcases hother),
    fun other other' inode hother hother' => h.apart other other' inode (hcases hother) (hcases hother')⟩

/-- What a name points at after a rename. -/
theorem names_rename (name : N) :
    (fs.rename source target).names name =
      if name = source then none else if name = target then fs.names source else fs.names name := by
  unfold Fs.rename
  simp only [Function.update_apply]

theorem Sound.rename (h : fs.Sound) : (fs.rename source target).Sound := by
  have hcases {other : N} {inode : ℕ} (hother : (fs.rename source target).names other = some inode) :
      other ≠ source ∧ ((other = target ∧ fs.names source = some inode) ∨
        (other ≠ target ∧ fs.names other = some inode)) := by
    rw [names_rename] at hother
    split_ifs at hother with hsource htarget
    · exact ⟨hsource, .inl ⟨htarget, hother⟩⟩
    · exact ⟨hsource, .inr ⟨htarget, hother⟩⟩
  constructor
  case used =>
    intro other inode hother
    rcases (hcases hother).2 with ⟨-, hused⟩ | ⟨-, hused⟩ <;> exact h.used _ _ hused
  case apart =>
    intro other other' inode hother hother'
    obtain ⟨hsource, hwhere⟩ := hcases hother
    obtain ⟨hsource', hwhere'⟩ := hcases hother'
    rcases hwhere with ⟨rfl, hused⟩ | ⟨-, hused⟩ <;> rcases hwhere' with ⟨rfl, hused'⟩ | ⟨-, hused'⟩
    · rfl
    · exact absurd (h.apart _ _ inode hused hused') hsource'.symm
    · exact absurd (h.apart _ _ inode hused hused') hsource
    · exact h.apart other other' inode hused hused'

end Fs

end Inodes
