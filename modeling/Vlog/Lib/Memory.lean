import Mathlib

/-!
# Byte memories

A memory by address, the stores into it, the bytes that stand at an address, and little-endian numbers.
-/

namespace Vlog.Lib

abbrev Memory := Nat → UInt8

namespace Memory

def store (m : Memory) (a : Nat) (bs : List UInt8) : Memory :=
  fun x => if a ≤ x then bs[x - a]?.getD (m x) else m x

def slice (m : Memory) (a n : Nat) : List UInt8 := (List.range n).map fun i => m (a + i)

/-- The bytes `bs` stand at `a`. -/
def Holds (m : Memory) (a : Nat) (bs : List UInt8) : Prop := m.slice a bs.length = bs

variable {m : Memory} {a c : Nat} {bs cs : List UInt8}

/-! ## What a store leaves -/

theorem holds_iff : m.Holds a bs ↔ ∀ i (h : i < bs.length), m (a + i) = bs[i] := by
  unfold Holds slice
  constructor
  · intro h i hi
    have hget := List.getElem_of_eq h (by simpa using hi)
    simpa using hget
  · intro h
    apply List.ext_getElem
    · simp
    · intro i _ hi
      simpa using h i hi

theorem store_outside {x : Nat} (h : x < a ∨ a + bs.length ≤ x) : m.store a bs x = m x := by
  unfold store
  split
  · rw [List.getElem?_eq_none (by omega)]
    rfl
  · rfl

theorem holds_store : (m.store a bs).Holds a bs := by
  rw [holds_iff]
  intro i hi
  simp [store, hi]

theorem Holds.store (h : m.Holds a bs) (hd : a + bs.length ≤ c ∨ c + cs.length ≤ a) :
    (m.store c cs).Holds a bs := by
  rw [holds_iff] at h ⊢
  intro i hi
  rw [store_outside (by omega)]
  exact h i hi

@[simp] theorem slice_length (m : Memory) (a n : Nat) : (m.slice a n).length = n := by
  simp [slice]

theorem slice_store {n : Nat} (hd : a + n ≤ c ∨ c + cs.length ≤ a) :
    (m.store c cs).slice a n = m.slice a n := by
  have hhere : m.Holds a (m.slice a n) := by
    rw [Holds, slice_length]
  have hthere : (m.store c cs).Holds a (m.slice a n) := hhere.store (by rwa [slice_length])
  rwa [Holds, slice_length] at hthere

theorem holds_append : m.Holds a (bs ++ cs) ↔ m.Holds a bs ∧ m.Holds (a + bs.length) cs := by
  have hsplit : m.slice a (bs ++ cs).length =
      m.slice a bs.length ++ m.slice (a + bs.length) cs.length := by
    simp [slice, List.range_add, Nat.add_assoc]
  have hlen : (m.slice a bs.length).length = bs.length := slice_length m a bs.length
  rw [Holds, hsplit]
  constructor
  · intro h
    exact List.append_inj h hlen
  · intro h
    rw [h.1, h.2]

/-! ## Little-endian numbers -/

/-- The `k` lowest bytes of a number, the lowest one first. -/
def leBytes : Nat → Nat → List UInt8
  | 0, _ => []
  | k + 1, n => UInt8.ofNat n :: leBytes k (n / 256)

def ofLeBytes : List UInt8 → Nat
  | [] => 0
  | b :: bs => b.toNat + 256 * ofLeBytes bs

def load (m : Memory) (a k : Nat) : Nat := ofLeBytes (m.slice a k)

@[simp] theorem leBytes_length (k n : Nat) : (leBytes k n).length = k := by
  induction k generalizing n with
  | zero => rfl
  | succ k ih => simp [leBytes, ih]

theorem ofLeBytes_leBytes (k n : Nat) : ofLeBytes (leBytes k n) = n % 256 ^ k := by
  induction k generalizing n with
  | zero => simp [leBytes, ofLeBytes, Nat.mod_one]
  | succ k ih => rw [leBytes, ofLeBytes, ih, UInt8.toNat_ofNat', pow_succ' 256, Nat.mod_mul]

theorem Holds.load {k n : Nat} (h : m.Holds a (leBytes k n)) : m.load a k = n % 256 ^ k := by
  rw [Holds, leBytes_length] at h
  rw [Memory.load, h, ofLeBytes_leBytes]

end Memory

end Vlog.Lib
