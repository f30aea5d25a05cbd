import Mathlib

/-!
# Decimal numerals as bytes

The decimal numeral of a natural number, and the value of a string of digits.
-/

namespace Vlog.Lib

def isDigit (b : UInt8) : Bool := 48 ≤ b && b ≤ 57

def decimal (n : Nat) : List UInt8 := (Nat.toDigits 10 n).map fun c => UInt8.ofNat c.toNat

def digitsValue (ds : List UInt8) : Nat := ds.foldl (fun v b => 10 * v + (b.toNat - 48)) 0

/-- The value of digits behind others of the value `v`. -/
def digitsFrom (v : Nat) (ds : List UInt8) : Nat := ds.foldl (fun v b => 10 * v + (b.toNat - 48)) v

theorem digitsFrom_cons (v : Nat) (b : UInt8) (ds : List UInt8) :
    digitsFrom v (b :: ds) = digitsFrom (10 * v + (b.toNat - 48)) ds := by
  simp only [digitsFrom, List.foldl_cons]

theorem digitsFrom_zero (ds : List UInt8) : digitsFrom 0 ds = digitsValue ds := by
  simp only [digitsFrom, digitsValue]

theorem le_digitsFrom (v : Nat) (ds : List UInt8) : v ≤ digitsFrom v ds := by
  induction ds generalizing v with
  | nil => exact Nat.le_refl v
  | cons b ds ih =>
      have hle := ih (10 * v + (b.toNat - 48))
      rw [digitsFrom_cons]
      omega

theorem isDigit_iff {b : UInt8} : isDigit b = true ↔ 48 ≤ b.toNat ∧ b.toNat ≤ 57 := by
  simp [isDigit, UInt8.le_iff_toNat_le]

/-! ## The digits of a numeral -/

theorem digitChar_range {c : Char} (h : c.isDigit = true) : 48 ≤ c.toNat ∧ c.toNat ≤ 57 := by
  simp only [Char.isDigit, Bool.and_eq_true, decide_eq_true_eq, ge_iff_le, UInt32.le_iff_toNat_le] at h
  exact h

theorem digitChar_byte {c : Char} (h : c.isDigit = true) :
    (UInt8.ofNat c.toNat).toNat = c.toNat := by
  have hc := digitChar_range h
  rw [UInt8.toNat_ofNat']
  omega

theorem decimal_isDigit {n : Nat} {b : UInt8} (h : b ∈ decimal n) : isDigit b = true := by
  obtain ⟨c, hc, rfl⟩ := List.mem_map.mp h
  have hd := Nat.isDigit_of_mem_toDigits (by decide) (by decide) hc
  rw [isDigit_iff, digitChar_byte hd]
  exact digitChar_range hd

theorem decimal_ne_nil (n : Nat) : decimal n ≠ [] := by
  simp [decimal, Nat.toDigits_ne_nil]

theorem decimal_length_le {n k : Nat} (hk : 0 < k) : (decimal n).length ≤ k ↔ n < 10 ^ k := by
  rw [decimal, List.length_map]
  exact Nat.length_toDigits_le_iff (by decide) hk

theorem not_mem_decimal {n : Nat} {b : UInt8} (hb : isDigit b = false) : b ∉ decimal n := by
  intro h
  rw [decimal_isDigit h] at hb
  exact Bool.noConfusion hb

/-! ## The value of a numeral -/

theorem digitsValue_chars {cs : List Char} (h : ∀ c ∈ cs, c.isDigit = true) (v : Nat) :
    (cs.map fun c => UInt8.ofNat c.toNat).foldl (fun v b => 10 * v + (b.toNat - 48)) v =
      Nat.ofDigitChars 10 cs v := by
  induction cs generalizing v with
  | nil => simp
  | cons c cs ih =>
      have hc := digitChar_byte (h c (by simp))
      simp only [List.map_cons, List.foldl_cons, Nat.ofDigitChars_cons, hc]
      exact ih (fun d hd => h d (by simp [hd])) _

@[simp] theorem digitsValue_decimal (n : Nat) : digitsValue (decimal n) = n := by
  have h : ∀ c ∈ Nat.toDigits 10 n, c.isDigit = true := fun c hc =>
    Nat.isDigit_of_mem_toDigits (by decide) (by decide) hc
  unfold digitsValue decimal
  rw [digitsValue_chars h, Nat.ofDigitChars_ten_toDigits]

/-! ## Reading a numeral in front of other bytes -/

theorem takeWhile_decimal {n : Nat} {b : UInt8} (hb : isDigit b = false) (rest : List UInt8) :
    (decimal n ++ b :: rest).takeWhile isDigit = decimal n := by
  rw [List.takeWhile_append_of_pos fun _ => decimal_isDigit]
  simp [hb]

end Vlog.Lib
