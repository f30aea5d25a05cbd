import Vlog.Device.Abi

/-!
# Codes that are merged

`set_error` adds the bits of its code to those in STATUS. What STATUS reports is the union of the codes
set since the last `clear_error`.
-/

namespace Vlog.Device

/-! ## The bits of several codes -/

def merged (codes : List UInt8) : UInt8 := codes.foldr (· ||| ·) 0

theorem merged_snoc (codes : List UInt8) (code : UInt8) :
    merged (codes ++ [code]) = merged codes ||| code := by
  induction codes with
  | nil => simp [merged]
  | cons c codes ih =>
      have htail : merged (c :: codes) = c ||| merged codes := rfl
      rw [List.cons_append, htail, UInt8.or_assoc, ← ih]
      rfl

theorem or_merged {code : UInt8} {codes : List UInt8} (h : code ∈ codes) :
    code ||| merged codes = merged codes := by
  induction codes with
  | nil => cases h
  | cons c codes ih =>
      have htail : merged (c :: codes) = c ||| merged codes := rfl
      rw [htail]
      rcases List.mem_cons.mp h with rfl | h
      · rw [← UInt8.or_assoc, UInt8.or_self]
      · rw [← UInt8.or_assoc, UInt8.or_comm code c, UInt8.or_assoc, ih h]

theorem merged_or {code : UInt8} {codes : List UInt8} (h : ∀ c ∈ codes, c ||| code = code) :
    merged codes ||| code = code := by
  induction codes with
  | nil => simp [merged]
  | cons c codes ih =>
      have htail : merged (c :: codes) = c ||| merged codes := rfl
      rw [htail, UInt8.or_assoc, ih fun c' hc' => h c' (List.mem_cons_of_mem _ hc')]
      exact h c List.mem_cons_self

/-- The bits together are those of the last code exactly if it has all bits of the others. -/
theorem merged_eq_last_iff (codes : List UInt8) (code : UInt8) :
    merged (codes ++ [code]) = code ↔ ∀ c ∈ codes ++ [code], c ||| code = code := by
  constructor
  · intro h c hc
    have hor := or_merged hc
    rwa [h] at hor
  · intro h
    rw [merged_snoc]
    exact merged_or fun c hc => h c (List.mem_append_left _ hc)

/-! ## The status word -/

/-- STATUS with the codes set since the last `clear_error`. -/
def statusOf (codes : List UInt8) : UInt32 :=
  if codes = [] then statusReady
  else statusReady ||| statusError ||| ((merged codes).toUInt32 <<< statusErrShift)

theorem statusResult_error (code : UInt8) :
    statusResult (statusReady ||| statusError ||| (code.toUInt32 <<< statusErrShift)) =
      code.toUInt32 := by
  revert code
  decide +kernel

theorem clear_error_word (code : UInt8) :
    (statusReady ||| statusError ||| (code.toUInt32 <<< statusErrShift)) &&&
      ~~~(statusError ||| ((0xff : UInt32) <<< statusErrShift)) = statusReady := by
  revert code
  decide +kernel

theorem statusOf_inj {a b : UInt8} :
    statusReady ||| statusError ||| (a.toUInt32 <<< statusErrShift) =
      statusReady ||| statusError ||| (b.toUInt32 <<< statusErrShift) ↔ a = b := by
  constructor
  · intro h
    have hresult := congrArg statusResult h
    rw [statusResult_error, statusResult_error] at hresult
    have hback := congrArg UInt32.toUInt8 hresult
    simpa using hback
  · intro h
    rw [h]

theorem statusOf_snoc (codes : List UInt8) (code : UInt8) :
    statusOf codes ||| (statusError ||| (code.toUInt32 <<< statusErrShift)) =
      statusOf (codes ++ [code]) := by
  have hne : codes ++ [code] ≠ [] := by simp
  rw [statusOf, statusOf, if_neg hne, merged_snoc, UInt8.toUInt32_or, UInt32.shiftLeft_or]
  split
  · rename_i hnil
    subst hnil
    have hzero : (merged []).toUInt32 <<< statusErrShift = 0 := by decide
    rw [hzero, UInt32.zero_or, UInt32.or_assoc]
  · generalize (merged codes).toUInt32 <<< statusErrShift = m
    generalize code.toUInt32 <<< statusErrShift = n
    rw [UInt32.or_assoc _ m, ← UInt32.or_assoc m, UInt32.or_comm m statusError,
      UInt32.or_assoc statusError m, ← UInt32.or_assoc (statusReady ||| statusError),
      UInt32.or_assoc statusReady, UInt32.or_self]

theorem statusOf_clear (codes : List UInt8) :
    statusOf codes &&& ~~~(statusError ||| ((0xff : UInt32) <<< statusErrShift)) = statusReady := by
  unfold statusOf
  split
  · decide
  · exact clear_error_word _

/-! ## Sequences of calls -/

theorem afterCalls_snoc (calls : List HelperCall) (call : HelperCall) :
    afterCalls (calls ++ [call]) = call.apply (afterCalls calls) := by
  rw [afterCalls, List.foldl_append]
  rfl

theorem codesSinceClear_snoc (calls : List HelperCall) (call : HelperCall) :
    codesSinceClear (calls ++ [call]) =
      match call with | .setError code => codesSinceClear calls ++ [code] | .clearError => [] := by
  rw [codesSinceClear, List.foldl_append]
  rfl

theorem afterCalls_status (calls : List HelperCall) :
    (afterCalls calls).status = statusOf (codesSinceClear calls) := by
  induction calls using List.reverseRecOn with
  | nil => rfl
  | append_singleton calls call ih =>
      rw [afterCalls_snoc, codesSinceClear_snoc]
      cases call with
      | setError code =>
          have happly : (HelperCall.apply (afterCalls calls) (.setError code)).status =
              (afterCalls calls).status ||| (statusError ||| (code.toUInt32 <<< statusErrShift)) :=
            rfl
          rw [happly, ih, statusOf_snoc]
      | clearError =>
          have happly : (HelperCall.apply (afterCalls calls) .clearError).status =
              (afterCalls calls).status &&& ~~~(statusError ||| ((0xff : UInt32) <<< statusErrShift)) := rfl
          rw [happly, ih, statusOf_clear]
          rfl

end Vlog.Device
