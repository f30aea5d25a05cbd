import Vlog.Runner.LogSink

/-!
# Addresses, byte by byte (`parse_ipv4` in `runner/runner.c`)

`parseIpv4At` is `parse_ipv4` with its pointer, which is what the buffer still holds behind it, and with
`*out`. To read behind the buffer is a fault, and so is an octet that `unsigned` cannot hold.
-/

namespace Vlog.Runner

open Vlog.Lib Vlog.Libc

inductive Stop
  | fault
  | reject
  deriving DecidableEq

/-- `*s` -/
def deref (s : List Byte) : Except Stop Byte :=
  match s with
  | [] => .error .fault
  | c :: _ => .ok c

/-- `if (*s++ != '.') return -1;` -/
def skipDot (s : List Byte) : Except Stop (List Byte) :=
  match s with
  | [] => .error .fault
  | c :: s => if c ≠ dot then .error .reject else .ok s

def octetLoop (octet : Nat) (s : List Byte) : Except Stop (Nat × List Byte) :=
  match s with
  | [] => .error .fault
  | c :: s =>
      if isDigit c then
        let octet := octet * 10 + (c.toNat - 48)
        if 2 ^ 32 ≤ octet then .error .fault
        else if 255 < octet then .error .reject
        else octetLoop octet s
      else .ok (octet, c :: s)

/-- The octet of a round, which its first digit starts. -/
def octetAt (s : List Byte) : Except Stop (Nat × List Byte) := do
  let c ← deref s
  if ¬ isDigit c then .error .reject else octetLoop 0 s

/-- The last `k` of the four rounds; round `k = 4` is that of `i = 0`. -/
def octetsLoop : Nat → UInt32 → List Byte → Except Stop (UInt32 × List Byte)
  | 0, v, s => .ok (v, s)
  | k + 1, v, s => do
      let s ← if k + 1 ≠ 4 then skipDot s else .ok s
      let (octet, s) ← octetAt s
      octetsLoop k ((v <<< 8) ||| UInt32.ofNat octet) s

def scanIpv4 (s : List Byte) : Except Stop UInt32 := do
  let (v, s) ← octetsLoop 4 0 s
  let c ← deref s
  if c ≠ nul then .error .reject else .ok v

/-- What `parse_ipv4` returns, and `*out` behind the call; `none` for a fault. -/
def parseIpv4At (s : List Byte) (out : UInt32) : Option (Int × UInt32) :=
  match scanIpv4 s with
  | .ok v => some (0, v)
  | .error .reject => some (-1, out)
  | .error .fault => none

/-! ## Dotted quads -/

/-- A decimal field of one or more digits, leading zeros or not, and its value. -/
structure IsOctet (f : List Byte) (a : Nat) : Prop where
  ne_nil : f ≠ []
  digits : ∀ b ∈ f, isDigit b = true
  value : digitsValue f = a
  le : a ≤ 255

def DottedQuad (s : List Byte) (a b c d : Nat) : Prop :=
  ∃ f₁ f₂ f₃ f₄, s = f₁ ++ dot :: (f₂ ++ dot :: (f₃ ++ dot :: f₄)) ∧
    IsOctet f₁ a ∧ IsOctet f₂ b ∧ IsOctet f₃ c ∧ IsOctet f₄ d

end Vlog.Runner
