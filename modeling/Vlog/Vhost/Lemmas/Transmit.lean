import Vlog.Vhost.Lemmas.Backend
import Vlog.Vhost.Lemmas.Sink
import Vlog.Vhost.Transmit

/-!
# Every chain reaches the sink

The entries between the cursor of the device and the index of the driver are the chains that are not recorded
yet, and those behind the index the ones that are staged.
-/

namespace Vlog.Vhost

open Vlog.Lib Vlog.Libc Vlog.Emulator

variable {num : Nat} {t t' : Transmit} {es : List Signal} {x : UInt16} {callFd : Int}
  {avail : Nat → List Byte}

/-! ## The steps of the queue -/

theorem Transmit.Step.queue (hle : t.q.outstanding + t.staged.length ≤ num)
    (hst : Transmit.Step num t es t') : t'.q = t.q ∨ TxQueue.Step num t.q es t'.q := by
  cases hst with
  | write _ _ _ => exact .inl rfl
  | store hdrv hne => exact .inr (.store _ hdrv (List.length_pos_of_ne_nil hne) hle)
  | complete hdev hv => exact .inr (.complete hdev hv)
  | other hq _ _ => exact .inr hq

/-! ## The ring and the sink -/

theorem vlogSinkEmits_append (chains : List (List Byte)) (c : List Byte) :
    vlogSinkEmits (chains ++ [c]) = (vlogSinkEmit (vlogSinkEmits chains) c).1 := by
  rw [vlogSinkEmits, List.foldl_append]
  rfl

/-- What the device has established of its call so far, if there is an interrupt to raise at all. -/
def Transmit.Reported (t : Transmit) : Prop :=
  0 ≤ t.q.callFd → t.unreported = match t.q.dev with
    | .idle => 0
    | .handle => t.q.total
    | .handling _ n => t.q.total + n
    | .publish _ => t.q.total
    | .recheck _ => t.q.total

structure Transmit.Inv (num : Nat) (t : Transmit) : Prop where
  counted : t.q.Counted num
  ready : t.q.DevInv
  room : t.q.outstanding + t.staged.length ≤ num
  delivered : ∃ done pending, t.published = done ++ pending ∧ pending.length = t.q.outstanding ∧
    t.sink = vlogSinkEmits done ∧
    RingHolds num t.avail t.q.lastAvail.toNat (pending ++ t.staged)
  reported : t.Reported

theorem Transmit.Inv.start (x : UInt16) (callFd : Int) (avail : Nat → List Byte) :
    (Transmit.start x callFd avail).Inv num where
  counted := .outside (by simp [Transmit.start, TxQueue.start]) (Nat.zero_le _) fun _ _ => Dev.noConfusion
  ready := ⟨rfl, .inl rfl⟩
  room := Nat.zero_le _
  delivered := ⟨[], [], rfl, rfl, rfl, ringHolds_nil _ _ _⟩
  reported := fun _ => rfl

theorem add_one_ne (a : UInt16) : a + 1 ≠ a := by
  intro h
  have hone : (1 : UInt16) = 0 := add_eq_left.mp h
  exact absurd hone (by decide)

theorem add_ofNat_ne {k : Nat} (hk : 1 ≤ k) (hle : k ≤ 32768) (a : UInt16) : a + UInt16.ofNat k ≠ a := by
  intro h
  have hzero : UInt16.ofNat k = 0 := add_eq_left.mp h
  have hnat := congrArg UInt16.toNat hzero
  rw [UInt16.toNat_ofNat'] at hnat
  have h0 : (0 : UInt16).toNat = 0 := rfl
  omega

theorem Transmit.Reported.other {q : TxQueue} (h : t.Reported) (hnum : num ≤ 32768)
    (hq : TxQueue.Step num t.q es q) (hidx : q.idx = t.q.idx) (hlast : q.lastAvail = t.q.lastAvail) :
    Transmit.Reported
      { t with q := q, unreported := if .interrupt ∈ es then 0 else t.unreported } := by
  have hfinish : (0 ≤ t.q.callFd → t.unreported = t.q.total) → 0 ≤ t.q.callFd →
      (if .interrupt ∈ t.q.finish.2 then 0 else t.unreported) = 0 := by
    intro htotal hfd
    replace htotal := htotal hfd
    unfold TxQueue.finish
    simp only
    split
    · simp
    · simp only [List.not_mem_nil, if_false]
      omega
  unfold Transmit.Reported at h ⊢
  cases hq with
  | complete hdev _ => exact absurd hlast (add_one_ne _)
  | store k _ hk hle => exact absurd hidx (add_ofNat_ne hk (by omega) _)
  | begin hdev _ => simpa [hdev] using h
  | load hdev => simpa [hdev] using h
  | handled hdev _ => simpa [hdev] using h
  | publish hdev => simpa [hdev] using h
  | caughtUp hdev _ =>
      rw [hdev] at h
      exact hfinish h
  | noProgress hdev _ _ =>
      rw [hdev] at h
      exact hfinish h
  | again hdev _ _ => simpa [hdev] using h
  | decide _ => simpa using h
  | kick _ => simpa using h

/-- The index is ahead of the cursor by the chains outstanding. -/
theorem TxQueue.Counted.idx {q : TxQueue} (h : q.Counted num) :
    q.idx.toNat = (q.lastAvail.toNat + q.outstanding) % 65536 := by
  rw [h.outstanding, ← UInt16.toNat_add, add_sub_cancel]

theorem Transmit.Inv.move (hdvd : num ∣ 65536) (hnum : num ≤ 32768) (h : t.Inv num)
    (hst : Transmit.Step num t es t') : t'.Inv num := by
  have hqueue := hst.queue h.room
  have hcounted : t'.q.Counted num := by
    rcases hqueue with heq | hq
    · rw [heq]
      exact h.counted
    · exact h.counted.step hnum hq
  have hready : t'.q.DevInv := by
    rcases hqueue with heq | hq
    · rw [heq]
      exact h.ready
    · exact h.ready.step hq
  obtain ⟨done, pending, hpublished, hpending, hsink, hring⟩ := h.delivered
  cases hst with
  | write chain hdrv hlt =>
      refine ⟨hcounted, hready, ?_, ⟨done, pending, hpublished, hpending, hsink, ?_⟩, h.reported⟩
      · simp only [List.length_append, List.length_singleton]
        omega
      · have hlen : (pending ++ t.staged).length = t.q.outstanding + t.staged.length := by
          rw [List.length_append, hpending]
        have hslot : (t.q.idx.toNat + t.staged.length) % num =
            (t.q.lastAvail.toNat + (pending ++ t.staged).length) % num := by
          rw [h.counted.idx, slot_wrap hdvd, hlen, Nat.add_assoc]
        have hpush := hring.push (hlen ▸ hlt) chain
        rwa [← hslot, List.append_assoc] at hpush
  | store hdrv hne =>
      refine ⟨hcounted, hready, ?_, ⟨done, pending ++ t.staged, ?_, ?_, hsink, ?_⟩, h.reported⟩
      · simpa using h.room
      · simp only [hpublished, List.append_assoc]
      · simp only [List.length_append, hpending]
      · simpa using hring
  | @complete v n hdev hv =>
      have hpos := sub_toNat_ne_zero (Ne.symm hv)
      have hahead := h.counted.handling v n hdev
      obtain ⟨c, rest, rfl⟩ : ∃ c rest, pending = c :: rest := by
        apply List.exists_cons_of_ne_nil
        rintro rfl
        rw [List.length_nil] at hpending
        omega
      rw [List.length_cons] at hpending
      refine ⟨hcounted, hready, ?_, ⟨done ++ [c], rest, ?_, ?_, ?_, ?_⟩, ?_⟩
      · exact (Nat.add_le_add_right (Nat.sub_le _ _) _).trans h.room
      · rw [hpublished, List.append_assoc, List.singleton_append]
      · simp only
        omega
      · rw [vlogSinkEmits_append, ← hsink, hring.head]
      · have hnext := hring.tail
        rw [← ringHolds_wrap hdvd] at hnext
        simpa [UInt16.toNat_add] using hnext
      · intro hfd
        have hreported := h.reported hfd
        rw [hdev] at hreported
        simp only [hreported]
        omega
  | @other _ q hq hidx hlast =>
      have hout : q.outstanding = t.q.outstanding := by
        rw [hcounted.outstanding, h.counted.outstanding, hidx, hlast]
      refine ⟨hcounted, hready, ?_, ⟨done, pending, hpublished, ?_, hsink, ?_⟩, ?_⟩
      · rw [hout]
        exact h.room
      · rw [hout]
        exact hpending
      · rw [hlast]
        exact hring
      · exact h.reported.other hnum hq hidx hlast

theorem Transmit.Inv.setVringCall (h : t.Inv num) (hdev : t.q.dev = .idle) (fd : Int) :
    Transmit.Inv num { t with
      q := { t.q with callFd := fd }
      unreported := if fd = -1 then t.unreported else 0 } where
  counted := ⟨h.counted.outstanding, h.counted.bound, h.counted.handling⟩
  ready := h.ready.driver rfl rfl rfl fun _ ha => ha
  room := h.room
  delivered := h.delivered
  reported := by
    intro hfd
    have hne : fd ≠ -1 := by
      rintro rfl
      have hneg : ¬ (0 : Int) ≤ -1 := by decide
      exact hneg hfd
    simp only [hdev, if_neg hne]

theorem Transmit.Inv.turn (hdvd : num ∣ 65536) (hnum : num ≤ 32768) (h : t.Inv num)
    (ht : Transmit.Turn num t es t') : t'.Inv num := by
  cases ht with
  | step hst => exact h.move hdvd hnum hst
  | setVringCall fd hdev => exact h.setVringCall hdev fd

theorem Transmit.run_inv (hdvd : num ∣ 65536) (hnum : num ≤ 32768)
    (hr : Run (Transmit.Turn num) (Transmit.start x callFd avail) es t) : t.Inv num :=
  hr.invariant (I := fun _ t => t.Inv num) (.start x callFd avail)
    fun _ _ _ _ _ h ht => h.turn hdvd hnum ht

/-! ## Rest -/

theorem Transmit.Inv.quiet (h : t.Inv num) (hq : t.q.Quiet) :
    t.q.outstanding = 0 ∧ t.sink = vlogSinkEmits t.published ∧ (0 ≤ t.q.callFd → t.unreported = 0) := by
  obtain ⟨hdev, hpending, hdrv⟩ := hq
  have hready := h.ready
  simp only [TxQueue.DevInv, hdev] at hready
  have hidx : t.q.idx = t.q.lastAvail := by
    rcases hready.2 with h | h | h | ⟨_, h, _⟩
    · exact h
    · simp [hpending] at h
    · simp [hdrv] at h
    · simp [hdrv] at h
  have hout : t.q.outstanding = 0 := by
    rw [h.counted.outstanding, hidx]
    simp
  obtain ⟨done, rest, hpublished, hlen, hsink, _⟩ := h.delivered
  obtain rfl : rest = [] := List.length_eq_zero_iff.mp (hlen.trans hout)
  have hreported := h.reported
  rw [Transmit.Reported, hdev] at hreported
  exact ⟨hout, by rw [hsink, hpublished, List.append_nil], hreported⟩

/-- While something is left to do, the device or the driver can do it. -/
theorem Transmit.Inv.progress (hq : ¬ t.q.Quiet) : ∃ steps t', Transmit.Settles num t steps t' := by
  have hother : ∀ {es q}, TxQueue.Step num t.q es q → q.idx = t.q.idx → q.lastAvail = t.q.lastAvail →
      ∃ steps t', Transmit.Settles num t steps t' := fun hst hidx hlast =>
    ⟨_, _, rfl, ⟨_, .other hst hidx hlast⟩, rfl, rfl⟩
  cases hdev : t.q.dev with
  | idle =>
      by_cases hpending : t.q.pending = true
      · exact hother (.begin hdev hpending) rfl rfl
      cases hdrv : t.q.drv with
      | idle => exact absurd ⟨hdev, by simpa using hpending, hdrv⟩ hq
      | stored old new => exact hother (.decide hdrv) rfl rfl
      | kick => exact hother (.kick hdrv) rfl rfl
  | handle => exact hother (.load hdev) rfl rfl
  | handling v n =>
      by_cases hv : t.q.lastAvail = v
      · exact hother (.handled hdev hv) rfl rfl
      · exact ⟨_, _, rfl, ⟨_, .complete hdev hv⟩, rfl, rfl⟩
  | publish n => exact hother (.publish hdev) rfl rfl
  | recheck n =>
      by_cases hidx : t.q.idx = t.q.lastAvail
      · exact hother (.caughtUp hdev hidx) rfl rfl
      by_cases hn : n = 0
      · exact hother (.noProgress hdev hidx hn) rfl rfl
      · exact hother (.again hdev hidx hn) rfl rfl

theorem TxQueue.Step.work {q q' : TxQueue} (hnum : num ≤ 32768) (hst : TxQueue.Step num q es q')
    (hidx : q'.idx = q.idx) (hlast : q'.lastAvail = q.lastAvail) : q'.work < q.work := by
  have hfinish : ∀ n, q.dev = .recheck n → q.finish.1.work < q.work := by
    intro n hdev
    have hidle : q.finish.1.work =
        8 * q.outstanding + q.drv.work + if q.pending then 7 else 0 := rfl
    have hle : 3 ≤ (Dev.recheck n).work := by
      simp only [Dev.work]
      split <;> omega
    rw [hidle, TxQueue.work, hdev]
    omega
  cases hst with
  | complete _ _ => exact absurd hlast (add_one_ne _)
  | store k _ hk hle => exact absurd hidx (add_ofNat_ne hk (by omega) _)
  | begin hdev hpending =>
      simp only [TxQueue.work, hdev, hpending, Dev.work, if_true, Bool.false_eq_true, if_false]
      omega
  | load hdev =>
      simp only [TxQueue.work, hdev, Dev.work, if_true]
      omega
  | handled hdev _ =>
      simp only [TxQueue.work, hdev, Dev.work]
      split <;> omega
  | publish hdev =>
      simp only [TxQueue.work, hdev, Dev.work]
      split <;> omega
  | caughtUp hdev _ => exact hfinish _ hdev
  | noProgress hdev _ _ => exact hfinish _ hdev
  | again hdev _ hn =>
      simp only [TxQueue.work, hdev, Dev.work, if_neg hn]
      omega
  | @decide old new hdrv =>
      have hle : ∀ need : Bool, Drv.work (if need then .kick else .idle) ≤ 8 := by decide
      have hdecided := hle (vringNeedEvent q.availEvent new old)
      have hstored : (Drv.stored old new).work = 16 := rfl
      simp only [TxQueue.work, hdrv]
      omega
  | kick hdrv =>
      simp only [TxQueue.work, hdrv, Drv.work, if_true]
      split <;> omega

theorem Transmit.Settles.work {steps : List Unit} (hnum : num ≤ 32768) (h : t.Inv num)
    (hst : Transmit.Settles num t steps t') : steps.length + t'.q.work ≤ t.q.work := by
  obtain ⟨rfl, ⟨es, hst⟩, hstaged, hpublished⟩ := hst
  cases hst with
  | write chain _ _ => simp at hstaged
  | store _ hne => simp [hne] at hpublished
  | @complete v n hdev hv =>
      have hpos := sub_toNat_ne_zero (Ne.symm hv)
      have hahead := h.counted.handling v n hdev
      have hle : (Dev.handling v (n + 1)).work ≤ (Dev.handling v n).work + 7 := by
        simp only [Dev.work]
        split <;> split <;> omega
      simp only [TxQueue.work, hdev, List.length_singleton]
      omega
  | other hq hidx hlast =>
      have hlt := hq.work hnum hidx hlast
      exact (Nat.add_comm ..).trans_le hlt

theorem Transmit.Inv.settle {steps : List Unit} (hdvd : num ∣ 65536) (hnum : num ≤ 32768)
    (h : t.Inv num) (hr : Run (Transmit.Settles num) t steps t') :
    t'.Inv num ∧ t'.published = t.published ∧ steps.length + t'.q.work ≤ t.q.work := by
  refine hr.invariant (I := fun steps t' => t'.Inv num ∧ t'.published = t.published ∧
    steps.length + t'.q.work ≤ t.q.work) ⟨h, rfl, by simp⟩ ?_
  rintro steps u more u' _ ⟨hu, hpublished, hwork⟩ hst
  have hmore := Transmit.Settles.work hnum hu hst
  obtain ⟨_, ⟨es, hstep⟩, _, hsame⟩ := hst
  refine ⟨hu.move hdvd hnum hstep, hsame.trans hpublished, ?_⟩
  rw [List.length_append]
  omega

end Vlog.Vhost
