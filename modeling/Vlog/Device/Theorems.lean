import Vlog.Device.Lemmas.Status

/-!
# The guarantees of the logging device's interface
-/

namespace Vlog.Device

/-! ## STATUS -/

/-- STATUS reports the outcome of the last call, and the guest library reads the code of that call out
of it, exactly if every code set since the last `clear_error` has no bit that the last code lacks. -/
theorem status_lastOutcome (calls : List HelperCall) :
    ((afterCalls calls).status = reportedStatus calls ↔
        ∀ code ∈ codesSinceClear calls, code ||| lastCode calls = lastCode calls) ∧
      (statusResult (afterCalls calls).status = (lastCode calls).toUInt32 ↔
        ∀ code ∈ codesSinceClear calls, code ||| lastCode calls = lastCode calls) := by
  rw [afterCalls_status]
  induction calls using List.reverseRecOn with
  | nil =>
      refine ⟨iff_of_true rfl ?_, iff_of_true (by decide) ?_⟩
      · simp [codesSinceClear]
      · simp [codesSinceClear]
  | append_singleton calls call _ =>
      rw [codesSinceClear_snoc]
      cases call with
      | clearError =>
          have hlast : lastCode (calls ++ [.clearError]) = 0 := by simp [lastCode]
          have hstatus : reportedStatus (calls ++ [.clearError]) = statusReady := by
            simp [reportedStatus]
          have hresult : statusResult (statusOf []) = UInt8.toUInt32 0 := by decide
          rw [hlast, hstatus]
          exact ⟨iff_of_true rfl (by simp), iff_of_true hresult (by simp)⟩
      | setError code =>
          have hne : codesSinceClear calls ++ [code] ≠ [] := by simp
          have hlast : lastCode (calls ++ [.setError code]) = code := by simp [lastCode]
          have hstatus : reportedStatus (calls ++ [.setError code]) =
              statusReady ||| statusError ||| (code.toUInt32 <<< statusErrShift) := by
            simp [reportedStatus]
          rw [hlast, hstatus, statusOf, if_neg hne, statusOf_inj, statusResult_error,
            UInt8.toUInt32_inj]
          exact ⟨merged_eq_last_iff _ _, merged_eq_last_iff _ _⟩

/-- An unknown command and then a message outside the RAM: the codes 1 and 2 read as 3, a bad length. -/
theorem status_lastOutcome_merged :
    (¬ ∀ calls, (afterCalls calls).status = reportedStatus calls) ∧
      statusResult (afterCalls [.setError errBadCmd, .setError errBadAddr]).status =
        errBadLen.toUInt32 := by
  refine ⟨?_, by decide⟩
  intro h
  have hmerged := h [.setError errBadCmd, .setError errBadAddr]
  revert hmerged
  decide

end Vlog.Device
