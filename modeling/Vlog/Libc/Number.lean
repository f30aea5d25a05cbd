import Vlog.Libc.CString

/-!
# Printing and parsing integers

`printf`'s integer conversions into a bounded buffer, and `strtoul` and `strtoll` in base 10, on a
system with 32-bit `int` and 64-bit `long`.
-/

namespace Vlog.Libc

open Vlog.Lib

def intMax : Nat := 2147483647
def ulongMax : Nat := 18446744073709551615
def llongMax : Int := 9223372036854775807
def llongMin : Int := -9223372036854775808

def minus : Byte := 45
def plus : Byte := 43

/-! ## Printing -/

def fmtU (n : UInt32) : List Byte := decimal n.toNat

/-- The conversions `%d`, `%ld` and `%lld`. -/
def fmtD (n : Int) : List Byte :=
  if n < 0 then minus :: decimal n.natAbs else decimal n.natAbs

/-- `vsnprintf(buf, size, ...)` for the formatted text `text`: the value returned, and the bytes
stored in front of the terminating NUL. A length that `int` cannot hold is reported as an error. -/
def vsnprintf (size : Nat) (text : List Byte) : Int × List Byte :=
  (if text.length ≤ intMax then text.length else -1, text.take (size - 1))

/-! ## Parsing -/

/-- What the parsing functions find at the start of a string: white space, a sign, digits. -/
structure Numeral where
  neg : Bool
  value : Nat
  used : Nat
  deriving DecidableEq

def scanNumeral (s : List Byte) : Option Numeral :=
  let ws := (s.takeWhile isspace).length
  let t := s.drop ws
  let sign := if t.head? = some minus ∨ t.head? = some plus then 1 else 0
  let ds := (t.drop sign).takeWhile isDigit
  if ds = [] then none
  else some
    { neg := t.head? = some minus, value := digitsValue ds, used := ws + sign + ds.length }

def strtoul (s : List Byte) : UInt64 :=
  match scanNumeral s with
  | none => 0
  | some n =>
      if ulongMax < n.value then UInt64.ofNat ulongMax
      else if n.neg then -UInt64.ofNat n.value else UInt64.ofNat n.value

/-- `strtoll(s, &end, 10)`: the value, and `end - s`. -/
def strtoll (s : List Byte) : Int × Nat :=
  match scanNumeral s with
  | none => (0, 0)
  | some n => (if n.neg then max llongMin (-n.value) else min llongMax n.value, n.used)

/-! ## A printed integer is parsed back -/

theorem isDigit_not_isspace {b : Byte} (h : isDigit b = true) : isspace b = false := by
  rw [isDigit_iff] at h
  have h₁ : b ≠ space := fun e => by simp [e, space] at h
  have h₂ : ¬ b ≤ 13 := by rw [UInt8.le_iff_toNat_le]; simp; omega
  simp [isspace, h₁, h₂]

theorem isDigit_not_sign {b : Byte} (h : isDigit b = true) : b ≠ minus ∧ b ≠ plus := by
  rw [isDigit_iff] at h
  constructor <;> intro e <;> simp [e, minus, plus] at h

theorem scanNumeral_digits {ds : List Byte} (hne : ds ≠ []) (hd : ∀ b ∈ ds, isDigit b = true) :
    scanNumeral ds = some { neg := false, value := digitsValue ds, used := ds.length } := by
  obtain ⟨d, ds', rfl⟩ := List.exists_cons_of_ne_nil hne
  have hdd := hd d (by simp)
  have htw : (d :: ds').takeWhile isDigit = d :: ds' := List.takeWhile_eq_self_iff.mpr hd
  have hs := isDigit_not_sign hdd
  simp [scanNumeral, isDigit_not_isspace hdd, hs.1, hs.2, htw]

theorem scanNumeral_minus {ds : List Byte} (hne : ds ≠ []) (hd : ∀ b ∈ ds, isDigit b = true) :
    scanNumeral (minus :: ds) =
      some { neg := true, value := digitsValue ds, used := 1 + ds.length } := by
  have htw : ds.takeWhile isDigit = ds := List.takeWhile_eq_self_iff.mpr hd
  have hsp : isspace minus = false := by decide
  simp [scanNumeral, hsp, htw, hne]

theorem scanNumeral_fmtD (n : Int) :
    scanNumeral (fmtD n) = some { neg := n < 0, value := n.natAbs, used := (fmtD n).length } := by
  have hd : ∀ b ∈ decimal n.natAbs, isDigit b = true := fun _ => decimal_isDigit
  by_cases hn : n < 0
  · simp [fmtD, hn, scanNumeral_minus (decimal_ne_nil _) hd, Nat.add_comm]
  · simp [fmtD, hn, scanNumeral_digits (decimal_ne_nil _) hd]

theorem int32_toInt (k : Int32) :
    k.toInt = if 2 * k.toUInt32.toNat < 2 ^ 32 then (k.toUInt32.toNat : Int)
      else k.toUInt32.toNat - 2 ^ 32 := by
  exact_mod_cast BitVec.toInt_eq_toNat_cond k.toBitVec

/-- A numeral without sign, saturated at `ULONG_MAX` and then converted to `uint32_t`. -/
theorem strtoul_digits {ds : List Byte} (hne : ds ≠ []) (hd : ∀ b ∈ ds, isDigit b = true) :
    (strtoul ds).toUInt32.toNat =
      (if ulongMax < digitsValue ds then ulongMax else digitsValue ds) % 2 ^ 32 := by
  rw [strtoul, scanNumeral_digits hne hd]
  simp only [Bool.false_eq_true, ↓reduceIte]
  split <;> rw [UInt64.toUInt32_ofNat', UInt32.toNat_ofNat']

/-- An `int` that is printed and parsed again is the `int` converted to `uint32_t`. -/
theorem strtoul_fmtD (k : Int32) : (strtoul (fmtD k.toInt)).toUInt32 = k.toUInt32 := by
  have hk := int32_toInt k
  have hlt := k.toUInt32.toNat_lt
  have hv : ¬ ulongMax < k.toInt.natAbs := by unfold ulongMax; split at hk <;> omega
  rw [strtoul, scanNumeral_fmtD]
  simp only [hv, ↓reduceIte, decide_eq_true_eq]
  by_cases hn : k.toInt < 0
  · rw [if_pos hn, ← UInt32.toNat_inj, UInt64.toUInt32_neg, UInt64.toUInt32_ofNat',
      UInt32.toNat_neg, UInt32.toNat_ofNat']
    unfold UInt32.size at *
    split at hk <;> omega
  · rw [if_neg hn, ← UInt32.toNat_inj, UInt64.toUInt32_ofNat', UInt32.toNat_ofNat']
    split at hk <;> omega

end Vlog.Libc
