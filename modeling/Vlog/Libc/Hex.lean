import Vlog.Libc.CString

/-!
# Hexadecimal numerals

The conversion `%08x` of `printf`, and its digits one by one.
-/

namespace Vlog.Libc

def fmtX8 (n : UInt32) : List Byte :=
  ((Nat.toDigits 16 n.toNat).leftpad 8 '0').map fun c => UInt8.ofNat c.toNat

theorem leftpad_toDigits_succ {b k n : Nat} (hb : 1 < b) (hk : 0 < k) :
    (Nat.toDigits b n).leftpad (k + 1) '0' =
      (Nat.toDigits b (n / b)).leftpad k '0' ++ [Nat.digitChar (n % b)] := by
  by_cases h : n < b
  · obtain ⟨k, rfl⟩ := Nat.exists_eq_succ_of_ne_zero hk.ne'
    rw [Nat.toDigits_of_lt_base h, Nat.div_eq_of_lt h, Nat.mod_eq_of_lt h, Nat.toDigits_zero]
    simp [List.leftpad, List.replicate_succ']
  · rw [Nat.toDigits_of_base_le hb (by omega)]
    simp [List.leftpad, List.append_assoc]

/-- The digit of place `i` is the quotient by `b ^ i`, modulo `b`. -/
theorem leftpad_toDigits {b k n : Nat} (hb : 1 < b) (hk : 0 < k) (hn : n < b ^ k) :
    (Nat.toDigits b n).leftpad k '0' =
      (List.range k).reverse.map fun i => Nat.digitChar (n / b ^ i % b) := by
  induction k, hk using Nat.le_induction generalizing n with
  | base =>
      rw [pow_one] at hn
      simp [Nat.toDigits_of_lt_base hn, Nat.mod_eq_of_lt hn, List.leftpad]
  | succ k hk ih =>
      have hdiv : n / b < b ^ k := by
        rw [Nat.div_lt_iff_lt_mul (by omega), ← pow_succ]
        exact hn
      rw [leftpad_toDigits_succ hb hk, ih hdiv, List.range_succ_eq_map]
      simp [Nat.div_div_eq_div_mul, pow_succ', Function.comp_def]

theorem fmtX8_digits (n : UInt32) :
    fmtX8 n = [7, 6, 5, 4, 3, 2, 1, 0].map fun i =>
      UInt8.ofNat (Nat.digitChar (n.toNat / 16 ^ i % 16)).toNat := by
  have hn : n.toNat < 16 ^ 8 := n.toNat_lt
  rw [fmtX8, leftpad_toDigits (by decide) (by decide) hn, List.map_map]
  rfl

end Vlog.Libc
