/-
# Sizes

The units and floors of `yolobox_cli/config.py`.
-/
import Mathlib

namespace Config

def KIB : ℕ := 1024
def MIB : ℕ := 1024 * KIB
def GIB : ℕ := 1024 * MIB

/-- The least `--memory` a box can be given. -/
def MIN_MEMORY_GIB : ℕ := 8

/-- The least `--disk`; no box is created below it. -/
def MIN_DISK_GIB : ℕ := 40

end Config
