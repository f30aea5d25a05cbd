import Mathlib

/-!
# Ring buffers

A ring of `num` slots under positions that only grow. Whoever keeps a position in a counter that wraps sees the
same slots, as long as the ring divides the range of the counter.
-/

namespace Vlog.Lib

variable {α : Type*} {num width i : Nat} {ring : Nat → α} {a : α} {l : List α}

/-- The entries of `l` stand in the ring from position `i` on. -/
def RingHolds (num : Nat) (ring : Nat → α) (i : Nat) (l : List α) : Prop :=
  ∀ j (h : j < l.length), ring ((i + j) % num) = l[j]

theorem ringHolds_nil (num : Nat) (ring : Nat → α) (i : Nat) : RingHolds num ring i [] :=
  fun _ h => nomatch h

/-- Positions that differ by less than the ring have slots of their own. -/
theorem slot_ne {j k : Nat} (hjk : j < k) (hk : k < j + num) : j % num ≠ k % num := by
  intro h
  have hdvd : num ∣ k - j := (Nat.modEq_iff_dvd' hjk.le).mp h
  have hle := Nat.le_of_dvd (by omega) hdvd
  omega

/-! ## At the end and in front -/

theorem RingHolds.push (h : RingHolds num ring i l) (hlen : l.length < num) (a : α) :
    RingHolds num (Function.update ring ((i + l.length) % num) a) i (l ++ [a]) := by
  intro j hj
  rw [List.length_append, List.length_singleton] at hj
  rcases Nat.lt_succ_iff_lt_or_eq.mp hj with hlt | rfl
  · have hne : (i + j) % num ≠ (i + l.length) % num := slot_ne (by omega) (by omega)
    rw [Function.update_of_ne hne, List.getElem_append_left hlt]
    exact h j hlt
  · simp

theorem RingHolds.head (h : RingHolds num ring i (a :: l)) : ring (i % num) = a := h 0 (by simp)

theorem RingHolds.tail (h : RingHolds num ring i (a :: l)) : RingHolds num ring (i + 1) l := by
  intro j hj
  have hnext := h (j + 1) (by simpa using hj)
  rwa [← Nat.add_assoc, Nat.add_right_comm] at hnext

/-! ## Counters that wrap -/

theorem slot_wrap (hdvd : num ∣ width) (i j : Nat) : (i % width + j) % num = (i + j) % num := by
  rw [Nat.add_mod, Nat.mod_mod_of_dvd i hdvd, ← Nat.add_mod]

theorem ringHolds_wrap (hdvd : num ∣ width) :
    RingHolds num ring (i % width) l ↔ RingHolds num ring i l := by
  simp only [RingHolds, slot_wrap hdvd]

end Vlog.Lib
