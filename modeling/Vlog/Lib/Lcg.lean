import Mathlib

/-!
# Linear congruential generators

The map `x ↦ a x + c` on the natural numbers for `a` of the form `4 n + 1` and an odd `c`, and its
residues modulo a power of two.
-/

namespace Vlog.Lib

def lcg (a c x : Nat) : Nat := x * a + c

variable {a c : Nat}

/-- A generator whose states are words of `w` bits makes the steps of the unbounded one, modulo `2 ^ w`. -/
theorem lcg_iterate_mod {σ : Type*} {val : σ → Nat} {next : σ → σ} {w : Nat}
    (hlt : ∀ s, val s < 2 ^ w) (hnext : ∀ s, val (next s) = lcg a c (val s) % 2 ^ w) (n : Nat) (s : σ) :
    val (next^[n] s) = (lcg a c)^[n] (val s) % 2 ^ w := by
  induction n with
  | zero => exact (Nat.mod_eq_of_lt (hlt s)).symm
  | succ n ih =>
      rw [Function.iterate_succ_apply', Function.iterate_succ_apply', hnext, ih, lcg, lcg]
      simp [Nat.add_mod, Nat.mul_mod]

/-- `2 ^ k` steps multiply by a number of the form `2 ^ (k + 2) u + 1` and add an odd multiple of
`2 ^ k`. -/
theorem lcg_two_pow (ha : a % 4 = 1) (hc : c % 2 = 1) (k : Nat) :
    ∃ u v, ∀ x, (lcg a c)^[2 ^ k] x = x * (2 ^ (k + 2) * u + 1) + 2 ^ k * (2 * v + 1) := by
  induction k with
  | zero =>
      refine ⟨a / 4, c / 2, ?_⟩
      intro x
      have ha' : 2 ^ (0 + 2) * (a / 4) + 1 = a := by omega
      have hc' : 2 ^ 0 * (2 * (c / 2) + 1) = c := by omega
      rw [ha', hc']
      rfl
  | succ k ih =>
      obtain ⟨u, v, h⟩ := ih
      refine ⟨2 ^ (k + 1) * u ^ 2 + u, v + 2 ^ k * u * (2 * v + 1), ?_⟩
      intro x
      rw [pow_succ, mul_two, Function.iterate_add_apply, h, h]
      ring

/-- `2 ^ k` steps change bit `k`. -/
theorem lcg_bit_changes (ha : a % 4 = 1) (hc : c % 2 = 1) (k x : Nat) :
    ((lcg a c)^[2 ^ k] x / 2 ^ k) % 2 ≠ (x / 2 ^ k) % 2 := by
  obtain ⟨u, v, h⟩ := lcg_two_pow ha hc k
  have hsum : (lcg a c)^[2 ^ k] x = x + 2 ^ k * (2 * (2 * u * x + v) + 1) := by
    rw [h]
    ring
  rw [hsum, Nat.add_mul_div_left _ _ (by positivity)]
  omega

end Vlog.Lib
