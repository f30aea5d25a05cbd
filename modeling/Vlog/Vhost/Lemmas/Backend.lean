import Vlog.Lib.Run
import Vlog.Vhost.Backend

/-!
# No wake-up of the transmit queue is lost

While the device may go to sleep, `avail_event` is its cursor, and whatever it has not consumed is
announced: a kick is pending or decided on, or the driver is in front of a decision that it cannot
take the other way.
-/

namespace Vlog.Vhost

open Vlog.Lib

/-! ## Indices that wrap -/

theorem sub_toNat_ne_zero {a b : UInt16} (h : a ≠ b) : (a - b).toNat ≠ 0 := fun h₀ =>
  h (sub_eq_zero.mp (UInt16.toNat_inj.mp (by simpa using h₀)))

theorem ne_of_sub_toNat {a b : UInt16} (h : (a - b).toNat ≠ 0) : a ≠ b := by
  intro he
  simp [he] at h

theorem sub_one_toNat {a b : UInt16} (h : a ≠ b) : (a - b - 1).toNat = (a - b).toNat - 1 := by
  have hpos := sub_toNat_ne_zero h
  rw [UInt16.toNat_sub_of_le]
  · rfl
  · rw [UInt16.le_iff_toNat_le]
    have h₁ : (1 : UInt16).toNat = 1 := rfl
    omega

theorem sub_succ_toNat {a b : UInt16} (h : a ≠ b) : (a - (b + 1)).toNat = (a - b).toNat - 1 := by
  rw [← sub_sub, sub_one_toNat h]

theorem add_sub_toNat {a b : UInt16} {k : Nat} (h : (a - b).toNat + k < 65536) :
    (a + UInt16.ofNat k - b).toNat = (a - b).toNat + k := by
  rw [add_sub_right_comm, UInt16.toNat_add, UInt16.toNat_ofNat']
  omega

/-- The driver kicks if the cursor asked for is among the entries it has just published. -/
theorem vringNeedEvent_of_le {event new old : UInt16} (hne : new ≠ event)
    (h : (new - event).toNat ≤ (new - old).toNat) : vringNeedEvent event new old = true := by
  have hpos := sub_toNat_ne_zero hne
  simp only [vringNeedEvent, decide_eq_true_eq, UInt16.lt_iff_toNat_lt]
  rw [sub_one_toNat hne]
  omega

/-! ## The invariant -/

def TxQueue.Announced (q : TxQueue) : Prop :=
  q.idx = q.lastAvail ∨ q.pending = true ∨ q.drv = .kick ∨
    ∃ old, q.drv = .stored old q.idx ∧ (q.idx - q.lastAvail).toNat ≤ (q.idx - old).toNat

/-- A device that goes to sleep now is woken for everything that it has not consumed. -/
def TxQueue.Ready (q : TxQueue) : Prop := q.availEvent = q.lastAvail ∧ q.Announced

/-- What the device has established where it is. Once a call has completed a chain, it is the check
of `avail->idx` that establishes the rest. -/
def TxQueue.DevInv (q : TxQueue) : Prop :=
  match q.dev with
  | .idle => q.Ready
  | .handle => q.availEvent = q.lastAvail
  | .handling v n => n = 0 → q.availEvent = q.lastAvail ∧ (v = q.lastAvail → q.Announced)
  | .publish n => n = 0 → q.Ready
  | .recheck n => q.availEvent = q.lastAvail ∧ (n = 0 → q.Announced)

/-- The chains outstanding are those between the cursor and the index, which the ring bounds; the
handler stays in front of what it has read. -/
structure TxQueue.Counted (num : Nat) (q : TxQueue) : Prop where
  outstanding : q.outstanding = (q.idx - q.lastAvail).toNat
  bound : q.outstanding ≤ num
  handling : ∀ v n, q.dev = .handling v n → (v - q.lastAvail).toNat ≤ q.outstanding

theorem TxQueue.Announced.store {q : TxQueue} (h : q.Announced) (hdrv : q.drv = .idle) (k m : Nat) :
    TxQueue.Announced { q with
      idx := q.idx + UInt16.ofNat k
      outstanding := m
      drv := .stored q.idx (q.idx + UInt16.ofNat k) } := by
  rcases h with h | h | h | ⟨old, h, _⟩
  · exact .inr (.inr (.inr ⟨q.idx, rfl, by simp [h]⟩))
  · exact .inr (.inl h)
  · rw [hdrv] at h
    cases h
  · rw [hdrv] at h
    cases h

theorem TxQueue.Ready.decide {q : TxQueue} (h : q.Ready) {old new : UInt16}
    (hdrv : q.drv = .stored old new) :
    TxQueue.Ready { q with
      drv := if vringNeedEvent q.availEvent new old then .kick else .idle } := by
  obtain ⟨he, ha⟩ := h
  refine ⟨he, ?_⟩
  rcases ha with ha | ha | ha | ⟨old', ha, hle⟩
  · exact .inl ha
  · exact .inr (.inl ha)
  · rw [hdrv] at ha
    cases ha
  · rw [hdrv] at ha
    cases ha
    by_cases heq : q.idx = q.lastAvail
    · exact .inl heq
    · have hneed := vringNeedEvent_of_le heq hle
      rw [← he] at hneed
      exact .inr (.inr (.inl (by simp [hneed])))

theorem TxQueue.DevInv.driver {q q' : TxQueue} (h : q.DevInv) (hdev : q'.dev = q.dev)
    (he : q'.availEvent = q.availEvent) (hl : q'.lastAvail = q.lastAvail)
    (ha : q.availEvent = q.lastAvail → q.Announced → q'.Announced) : q'.DevInv := by
  unfold TxQueue.DevInv TxQueue.Ready at *
  rw [hdev, he, hl]
  cases hd : q.dev with
  | idle =>
      rw [hd] at h
      exact ⟨h.1, ha h.1 h.2⟩
  | handle =>
      rw [hd] at h
      exact h
  | handling v n =>
      rw [hd] at h
      intro hn
      exact ⟨(h hn).1, fun hv => ha (h hn).1 ((h hn).2 hv)⟩
  | publish n =>
      rw [hd] at h
      intro hn
      exact ⟨(h hn).1, ha (h hn).1 (h hn).2⟩
  | recheck n =>
      rw [hd] at h
      exact ⟨h.1, fun hn => ha h.1 (h.2 hn)⟩

variable {num : Nat} {q q' : TxQueue} {es : List Signal}

theorem TxQueue.DevInv.step (h : q.DevInv) (hst : TxQueue.Step num q es q') : q'.DevInv := by
  cases hst with
  | begin hd _ =>
      simp only [TxQueue.DevInv, hd] at h
      exact h.1
  | load hd =>
      simp only [TxQueue.DevInv, hd] at h
      exact fun _ => ⟨h, fun hv => .inl hv⟩
  | complete hd _ => exact fun hn => absurd hn (Nat.succ_ne_zero _)
  | handled hd hv =>
      simp only [TxQueue.DevInv, hd] at h
      exact fun hn => ⟨(h hn).1, (h hn).2 hv.symm⟩
  | publish hd =>
      simp only [TxQueue.DevInv, hd] at h
      exact ⟨rfl, fun hn => (h hn).2⟩
  | caughtUp hd heq =>
      simp only [TxQueue.DevInv, hd] at h
      exact ⟨h.1, .inl heq⟩
  | noProgress hd _ hn =>
      simp only [TxQueue.DevInv, hd] at h
      exact ⟨h.1, h.2 hn⟩
  | again hd _ _ =>
      simp only [TxQueue.DevInv, hd] at h
      exact h.1
  | store k hdrv _ _ => exact h.driver rfl rfl rfl fun _ ha => ha.store hdrv k _
  | decide hdrv => exact h.driver rfl rfl rfl fun he ha => (TxQueue.Ready.decide ⟨he, ha⟩ hdrv).2
  | kick hdrv => exact h.driver rfl rfl rfl fun _ _ => .inr (.inl rfl)

theorem TxQueue.Counted.outside (hout : q.outstanding = (q.idx - q.lastAvail).toNat)
    (hbound : q.outstanding ≤ num) (hdev : ∀ v n, q.dev ≠ .handling v n) : q.Counted num := by
  constructor
  case outstanding => exact hout
  case bound => exact hbound
  case handling =>
    intro v n h
    exact absurd h (hdev v n)

theorem TxQueue.Counted.inside {v : UInt16} {n : Nat} (hdev : q.dev = .handling v n)
    (hout : q.outstanding = (q.idx - q.lastAvail).toNat) (hbound : q.outstanding ≤ num)
    (hle : (v - q.lastAvail).toNat ≤ q.outstanding) : q.Counted num := by
  constructor
  case outstanding => exact hout
  case bound => exact hbound
  case handling =>
    intro v' n' h
    cases hdev.symm.trans h
    exact hle

theorem TxQueue.Counted.step (h : q.Counted num) (hnum : num ≤ 32768)
    (hst : TxQueue.Step num q es q') : q'.Counted num := by
  have hout := h.outstanding
  have hbound := h.bound
  cases hst with
  | begin | handled | publish | caughtUp | noProgress | again =>
      exact .outside hout hbound fun _ _ => Dev.noConfusion
  | load hd => exact .inside rfl hout hbound hout.ge
  | @complete v n hd hv =>
      have hle := h.handling v n hd
      have hpos := sub_toNat_ne_zero (Ne.symm hv)
      have hidx : q.idx ≠ q.lastAvail := ne_of_sub_toNat (by omega)
      apply TxQueue.Counted.inside
      · rfl
      · simp only [sub_succ_toNat hidx, hout]
      · exact (Nat.sub_le _ _).trans hbound
      · simp only [sub_succ_toNat (Ne.symm hv)]
        exact Nat.sub_le_sub_right hle 1
  | store k hdrv _ hle =>
      have hout' : q.outstanding + k = (q.idx + UInt16.ofNat k - q.lastAvail).toNat := by
        rw [add_sub_toNat (by omega), hout]
      exact ⟨hout', hle, fun v n hd => (h.handling v n hd).trans (Nat.le_add_right _ _)⟩
  | decide hdrv => exact ⟨hout, hbound, h.handling⟩
  | kick hdrv => exact ⟨hout, hbound, h.handling⟩

/-! ## Runs -/

theorem TxQueue.run_devInv {x : UInt16} {callFd : Int}
    (hr : Run (TxQueue.Step num) (TxQueue.start x callFd) es q) : q.DevInv :=
  hr.invariant (I := fun _ q => q.DevInv) ⟨rfl, .inl rfl⟩ fun _ _ _ _ _ h hst => h.step hst

theorem TxQueue.run_counted {x : UInt16} {callFd : Int} (hnum : num ≤ 32768)
    (hr : Run (TxQueue.Step num) (TxQueue.start x callFd) es q) : q.Counted num := by
  refine hr.invariant (I := fun _ q => q.Counted num) ?_ fun _ _ _ _ _ h hst => h.step hnum hst
  exact .outside (by simp [TxQueue.start]) (Nat.zero_le _) fun _ _ => Dev.noConfusion

end Vlog.Vhost
