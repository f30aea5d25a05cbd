import Vlog.Emulator.Lemmas.Feed

/-!
# Levels on the wire

The numeral of a level passes through `strtoul`, a cast to 32 bits and the table of names. What a level
means is a matter of the number alone.
-/

namespace Vlog.Emulator

open Vlog.Lib Vlog.Libc

/-- The name of a level, for any number. -/
def levelText (n : Nat) : List Byte :=
  [lit "DEBUG", lit "INFO", lit "WARN", lit "ERROR"].getD n (lit "LVL?")

/-- The level still has its name behind the saturation and the cast. -/
def LevelKept (n : Nat) : Prop := n ≤ 3 ∨ 3 < n % 2 ^ 32 ∨ ulongMax < n

instance : DecidablePred LevelKept := fun _ => inferInstanceAs (Decidable (_ ∨ _ ∨ _))

/-! ## Names -/

theorem levelName_eq (level : UInt32) : levelName level = levelText level.toNat := by
  unfold levelName levelText
  rcases level.toNat with _ | _ | _ | _ | n <;> rfl

theorem levelText_large {n : Nat} (h : 3 < n) : levelText n = lit "LVL?" :=
  List.getD_eq_default _ _ h

theorem levelText_inj : ∀ a ≤ 4, ∀ b ≤ 4, levelText a = levelText b → a = b := by decide

/-- The names tell apart the numbers up to 3, and those from each other that are above. -/
theorem levelText_eq_iff {a b : Nat} : levelText a = levelText b ↔ min a 4 = min b 4 := by
  have hcut : ∀ n, levelText n = levelText (min n 4) := by
    intro n
    by_cases hn : n ≤ 4
    · rw [min_eq_left hn]
    · rw [min_eq_right (by omega), levelText_large (by omega), levelText_large (by decide)]
  constructor
  · intro h
    rw [hcut a, hcut b] at h
    exact levelText_inj _ (min_le_right a 4) _ (min_le_right b 4) h
  · intro h
    rw [hcut a, hcut b, h]

/-! ## Numerals -/

theorem wireLevel_iff {ds : List Byte} (hne : ds ≠ []) (hds : ∀ b ∈ ds, isDigit b = true) :
    levelName (strtoul ds).toUInt32 = levelText (digitsValue ds) ↔ LevelKept (digitsValue ds) := by
  rw [levelName_eq, levelText_eq_iff, strtoul_digits hne hds]
  unfold LevelKept ulongMax
  split <;> omega

end Vlog.Emulator
