import Vlog.Vhost.Lemmas.Replies

/-!
# The position in the ring of a queue that is stopped

Two messages move `last_avail_idx` of a queue, the one that sets it and the kick that comes as a message. Of
the callbacks only that of the transmit queue does, and a queue that is stopped has no kick.
-/

namespace Vlog.Vhost

open Vlog.Lib
open Vlog.Emulator (Pollfd pollin pollhup)

variable {d d' : VuDev} {m : VhostUserMsg} {x : Answer} {q : VuQueue} {h : Handling} {i : Nat}
  {b b' : Backend} {s s' : Process} {s₀ : Finset Resource} {es fs : List Effect} {y : Iteration}

/-! ## Messages -/

theorem setVq_lastAvail {k : Nat} (hq : i = k → q.vuq.lastAvailIdx = d.lastAvail k) :
    (d.setVq k q).lastAvail i = d.lastAvail i := by
  by_cases hi : i = k
  · rw [← hi, VuDev.lastAvail, setVq_self, hq hi, hi]
  · rw [VuDev.lastAvail, setVq_of_ne hi, VuDev.lastAvail]

theorem remapRings_lastAvail {rs : List VuDevRegion} {n : Nat} (h₀ : remapRings rs d n = some d') :
    d'.lastAvail i = d.lastAvail i := by
  obtain ⟨rfl, _⟩ := remapRings_spec h₀
  simp only [VuDev.lastAvail]
  split
  · rfl
  · rfl

theorem vuSetEnableAllRings_lastAvail (d : VuDev) (enabled : UInt32) :
    (vuSetEnableAllRings d enabled).lastAvail i = d.lastAvail i := by
  simp only [VuDev.lastAvail, vuSetEnableAllRings]
  split
  · rfl
  · rfl

theorem txKick_lastAvail {k : Nat} (hk : i ≠ k) : (txKick d k x).1.lastAvail i = d.lastAvail i := by
  unfold txKick
  split
  · rfl
  · exact setVq_lastAvail fun hi => absurd hi hk

theorem vuSetFeaturesExec_lastAvail (h₀ : vuSetFeaturesExec d m x = .ok h) :
    h.dev.lastAvail i = d.lastAvail i := by
  unfold vuSetFeaturesExec at h₀
  simp only at h₀
  split at h₀
  · cases h₀
    have hall := vuSetEnableAllRings_lastAvail (i := i) { d with features := m.u64 } 1
    simp only [VuDev.lastAvail, Handling.quiet] at hall ⊢
    split
    · exact hall
    · rfl
  · cases h₀

theorem vuSetMemTableExec_lastAvail (h₀ : vuSetMemTableExec d m x = .ok h) :
    h.dev.lastAvail i = d.lastAvail i := by
  unfold vuSetMemTableExec at h₀
  split at h₀
  · cases h₀
  split at h₀
  · cases h₀
  split at h₀
  · cases h₀
  rename_i t _ _ e he
  cases h₀
  have hsame : e.lastAvail i = VuDev.lastAvail { d with regions := t.1 } i := remapRings_lastAvail he
  exact hsame

theorem vuAddMemReg_lastAvail (h₀ : vuAddMemReg d m x = .ok h) :
    h.dev.lastAvail i = d.lastAvail i := by
  unfold vuAddMemReg at h₀
  split at h₀
  · cases h₀
  split at h₀
  · cases h₀
  simp only at h₀
  split at h₀
  · cases h₀
  rename_i e he
  cases h₀
  have hsame : e.lastAvail i = d.lastAvail i := remapRings_lastAvail he
  exact hsame

theorem vuHandleVringKick_lastAvail (hi : i ≠ m.stateIndex) (h₀ : vuHandleVringKick d m x = .ok h) :
    h.dev.lastAvail i = d.lastAvail i := by
  unfold vuHandleVringKick at h₀
  simp only at h₀
  split at h₀
  · cases h₀
  cases h₀
  generalize hs : (if (d.vq m.stateIndex).started then (d.vq m.stateIndex, [])
    else queueSetStarted m.stateIndex { d.vq m.stateIndex with started := true } true) = s
  simp only
  have hset : (d.setVq m.stateIndex s.1).lastAvail i = d.lastAvail i :=
    setVq_lastAvail fun hno => absurd hno hi
  split
  · rw [txKick_lastAvail hi, hset]
  · exact hset

theorem vuProcessMessage_lastAvail (hm : ¬ m.Moves i) (h₀ : vuProcessMessage d m x = .ok h) :
    h.dev.lastAvail i = d.lastAvail i := by
  unfold vuProcessMessage at h₀
  split at h₀
  case h_1 | h_23 | h_24 | h_25 | h_26 | h_27 | h_33 => cases h₀
  case h_2 | h_4 | h_16 | h_18 | h_21 | h_22 | h_29 | h_32 =>
    cases h₀
    rfl
  case h_3 => exact vuSetFeaturesExec_lastAvail h₀
  case h_5 =>
    cases h₀
    exact vuSetEnableAllRings_lastAvail d 0
  case h_6 => exact vuSetMemTableExec_lastAvail h₀
  case h_7 =>
    unfold vuSetLogBaseExec at h₀
    split at h₀
    · cases h₀
    · cases h₀
      rfl
  case h_8 =>
    unfold vuSetLogFdExec at h₀
    split at h₀
    · cases h₀
    · cases h₀
      rfl
  case h_9 =>
    cases (withQueue_cases h₀).2
    exact setVq_lastAvail fun _ => rfl
  case h_10 =>
    obtain ⟨_, _, hdev, _⟩ := vuSetVringAddrExec_spec h₀
    rw [hdev]
    exact setVq_lastAvail fun _ => rfl
  case h_11 hreq =>
    cases (withQueue_cases h₀).2
    exact setVq_lastAvail fun hi => absurd (.inl ⟨hreq, hi.symm⟩) hm
  case h_12 =>
    rw [(vuGetVringBaseExec_spec h₀).2.1]
    exact setVq_lastAvail fun _ => rfl
  case h_13 =>
    obtain ⟨_, _, hdev, _⟩ := vuSetVringKickExec_spec h₀
    rw [hdev]
    exact setVq_lastAvail fun _ => rfl
  case h_14 =>
    unfold vuSetVringCallExec at h₀
    split at h₀
    · cases h₀
    · cases h₀
      exact setVq_lastAvail fun _ => rfl
  case h_15 =>
    unfold vuSetVringErrExec at h₀
    split at h₀
    · cases h₀
    · cases h₀
      exact setVq_lastAvail fun _ => rfl
  case h_17 =>
    unfold vuSetProtocolFeaturesExec at h₀
    simp only at h₀
    split at h₀
    · cases h₀
    · cases h₀
      simp only [VuDev.lastAvail, Handling.quiet]
  case h_19 =>
    unfold vuSetVringEnableExec at h₀
    split at h₀
    · cases h₀
    · cases h₀
      exact setVq_lastAvail fun _ => rfl
  case h_20 =>
    unfold vuSetBackendReqFd at h₀
    split at h₀
    · cases h₀
    · cases h₀
      rfl
  case h_28 hreq =>
    exact vuHandleVringKick_lastAvail (fun hi => hm (.inr (.inr ⟨hreq, hi.symm⟩))) h₀
  case h_30 => exact vuAddMemReg_lastAvail h₀
  case h_31 =>
    unfold vuRemMemReg at h₀
    split at h₀
    · cases h₀
    simp only at h₀
    split at h₀
    · cases h₀
    · cases h₀
      rfl

theorem vuProcessMessage_stopped (hm : ¬ m.Moves i) (hstop : (d.vq i).started = false)
    (h₀ : vuProcessMessage d m x = .ok h) : (h.dev.vq i).started = false := by
  rcases (vuProcessMessage_cases h₀).kicks with ⟨hsame, _⟩ | ⟨_, h₁⟩ | ⟨hreq, h₁⟩ | ⟨hreq, h₁⟩
  · rw [hsame.started, hstop]
  · rw [(vuGetVringBaseExec_spec h₁).2.1]
    by_cases hi : i = m.stateIndex
    · rw [hi, setVq_self]
      rfl
    · rw [setVq_of_ne hi, hstop]
  · obtain ⟨_, _, hdev, _⟩ := vuSetVringKickExec_spec h₁
    rw [hdev, setVq_of_ne fun hi => hm (.inr (.inl ⟨hreq, hi.symm⟩)), hstop]
  · rw [(vuHandleVringKick_tied h₁).kicks.started, setVq_of_ne fun hi => hm (.inr (.inr ⟨hreq, hi.symm⟩)), hstop]

/-! ## Iterations -/

/-- The callbacks leave a queue alone that is stopped when their turn comes. -/
theorem Process.Inv.callbacks (hs : s.Inv s₀ es) (hst : s.Takes y fs s') {gs : List Effect}
    (hdispatch : s.backend.dispatch y = .ok (b, gs)) (hstop : (b.dev.vq i).started = false) :
    s'.backend.dev.lastAvail i = b.dev.lastAvail i ∧ (s'.backend.dev.vq i).started = false := by
  obtain ⟨b₁, gs₁, hs₁, hdispatch₁, hserve, _⟩ := iterate_cases hst.iterate
  cases hdispatch.symm.trans hdispatch₁
  have hwatched := hs.watched.dispatch hs.nodup hst.sound hdispatch
  have hturn := hs.watched.turn hwatched hserve
  split at hturn
  · rename_i hcalled
    have hne : i ≠ vqTx := by
      rintro rfl
      exact hcalled.1 (hcalled.2.2.symm.trans (hwatched.stopped vqTx hstop))
    rw [hturn.1]
    exact ⟨txKick_lastAvail hne, ((txKick_spec ..).1.kicks.started i).trans hstop⟩
  · rw [hturn.1]
    exact ⟨rfl, hstop⟩

theorem dispatch_got (hm : y.Got m) (h₀ : b.dispatch y = .ok (b', es)) :
    ∃ h, vuProcessMessage b.dev m y.answer = .ok h ∧ b'.dev = h.dev := by
  rcases dispatch_cases h₀ with ⟨hno, _⟩ | ⟨_, m', h, hread, hprocess, rfl, _⟩
  · exact absurd hm.1 hno
  · cases hm.2.symm.trans hread
    exact ⟨h, hprocess, rfl⟩

theorem Process.Inv.rest (hs : s.Inv s₀ es) (hst : s.RestStep i fs s')
    (hstop : (s.backend.dev.vq i).started = false) :
    s'.Inv s₀ (es ++ fs) ∧ s'.backend.dev.lastAvail i = s.backend.dev.lastAvail i ∧
      (s'.backend.dev.vq i).started = false := by
  obtain ⟨y, hy, hst⟩ := hst
  obtain ⟨b, gs, _, hdispatch, _⟩ := iterate_cases hst.iterate
  have hb : b.dev.lastAvail i = s.backend.dev.lastAvail i ∧ (b.dev.vq i).started = false := by
    rcases dispatch_cases hdispatch with ⟨_, rfl, _⟩ | ⟨hyes, m, h, hread, hprocess, rfl, _⟩
    · exact ⟨rfl, hstop⟩
    · have hm : ¬ m.Moves i := hy m ⟨hyes, hread⟩
      exact ⟨vuProcessMessage_lastAvail hm hprocess, vuProcessMessage_stopped hm hstop hprocess⟩
  obtain ⟨hlast, hstopped⟩ := hs.callbacks hst hdispatch hb.2
  exact ⟨hs.step hst, hlast.trans hb.1, hstopped⟩

theorem Process.Inv.rests (hs : s.Inv s₀ es) (hr : Run (Process.RestStep i) s fs s')
    (hstop : (s.backend.dev.vq i).started = false) :
    s'.Inv s₀ (es ++ fs) ∧ s'.backend.dev.lastAvail i = s.backend.dev.lastAvail i ∧
      (s'.backend.dev.vq i).started = false := by
  refine hr.invariant (I := fun fs s' => s'.Inv s₀ (es ++ fs) ∧
    s'.backend.dev.lastAvail i = s.backend.dev.lastAvail i ∧ (s'.backend.dev.vq i).started = false)
    ⟨by rwa [List.append_nil], rfl, hstop⟩ ?_
  intro fs t gs u _ ⟨ht, hlast, hstopped⟩ hst
  obtain ⟨hu, hlast', hstopped'⟩ := ht.rest hst hstopped
  rw [← List.append_assoc]
  exact ⟨hu, hlast'.trans hlast, hstopped'⟩

theorem Backend.Watched.isStopped (hb : b.Watched) (hstop : (b.dev.vq i).started = false) :
    (b.dev.vq i).Stopped where
  started := hstop
  kickFd := hb.stopped i hstop
  handler := by
    by_cases hi : i = vqTx
    · rw [hi] at hstop ⊢
      rw [hb.handlerTx, hstop]
    · exact hb.handler i hi

/-- The new kick is not in the snapshot of the iteration in which it arrives. -/
theorem Process.Inv.starts (hs : s.Inv s₀ es) (hst : s.Takes y fs s') (hm : y.Got m)
    (hreq : m.request.toInt = 12) (hstop : (s.backend.dev.vq m.vringIndex).started = false) :
    (s'.backend.dev.vq m.vringIndex).started = true ∧
      s'.backend.dev.lastAvail m.vringIndex = s.backend.dev.lastAvail m.vringIndex := by
  obtain ⟨b, gs, _, hdispatch, hserve, _⟩ := iterate_cases hst.iterate
  obtain ⟨h, hprocess, hdev⟩ := dispatch_got hm hdispatch
  have h₁ : vuSetVringKickExec s.backend.dev m y.answer = .ok h := by
    simpa only [vuProcessMessage, hreq] using hprocess
  obtain ⟨_, _, hkicked, _⟩ := vuSetVringKickExec_spec h₁
  rw [hkicked] at hdev
  have hstarted : (b.dev.vq m.vringIndex).started = true := by
    rw [hdev, setVq_self]
    rfl
  have hlast : b.dev.lastAvail m.vringIndex = s.backend.dev.lastAvail m.vringIndex := by
    rw [hdev]
    exact setVq_lastAvail fun _ => rfl
  have hwatched := hs.watched.dispatch hs.nodup hst.sound hdispatch
  have hturn := hs.watched.turn hwatched hserve
  split at hturn
  · rename_i hcalled
    have hne : m.vringIndex ≠ vqTx := fun hi => hcalled.1 (hs.watched.stopped vqTx (hi ▸ hstop))
    rw [hturn.1]
    exact ⟨((txKick_spec ..).1.kicks.started _).trans hstarted, (txKick_lastAvail hne).trans hlast⟩
  · rw [hturn.1]
    exact ⟨hstarted, hlast⟩

theorem Process.Inv.stoppedAt (hs : s.Inv s₀ es) (hstop : (s.backend.dev.vq i).started = false) :
    s.StoppedAt i (s.backend.dev.lastAvail i) := by
  intro fs t hr
  obtain ⟨ht, hlast, hstopped⟩ := hs.rests hr hstop
  refine ⟨ht.watched.isStopped hstopped, hlast, ?_⟩
  rintro y gs u m hst hm hreq rfl
  obtain ⟨hstarted, hlast'⟩ := ht.starts hst hm hreq hstopped
  exact ⟨hstarted, hlast'.trans hlast⟩

/-! ## The base -/

theorem Process.Inv.stop (hs : s.Inv s₀ es) (hst : s.Takes y fs s') (hm : y.Got m)
    (hreq : m.request.toInt = 11) :
    s'.backend.dev.lastAvail m.stateIndex = s.backend.dev.lastAvail m.stateIndex ∧
      (s'.backend.dev.vq m.stateIndex).started = false := by
  obtain ⟨b, gs, _, hdispatch, _⟩ := iterate_cases hst.iterate
  obtain ⟨h, hprocess, hdev⟩ := dispatch_got hm hdispatch
  have h₁ : vuGetVringBaseExec s.backend.dev m y.answer = .ok h := by
    simpa only [vuProcessMessage, hreq] using hprocess
  rw [(vuGetVringBaseExec_spec h₁).2.1] at hdev
  have hstop : (b.dev.vq m.stateIndex).started = false := by
    rw [hdev, setVq_self]
    rfl
  obtain ⟨hlast, hstopped⟩ := hs.callbacks hst hdispatch hstop
  refine ⟨hlast.trans ?_, hstopped⟩
  rw [hdev]
  exact setVq_lastAvail fun _ => rfl

theorem Process.Inv.restore (hs : s.Inv s₀ es) (hst : s.Takes y fs s') (hm : y.Got m)
    (hreq : m.request.toInt = 10) (hstop : (s.backend.dev.vq m.stateIndex).started = false) :
    s'.backend.dev.lastAvail m.stateIndex = m.stateNum.toUInt16 ∧
      (s'.backend.dev.vq m.stateIndex).started = false := by
  obtain ⟨b, gs, _, hdispatch, _⟩ := iterate_cases hst.iterate
  obtain ⟨h, hprocess, hdev⟩ := dispatch_got hm hdispatch
  have h₁ : vuSetVringBaseExec s.backend.dev m y.answer = .ok h := by
    simpa only [vuProcessMessage, hreq] using hprocess
  cases (withQueue_cases h₁).2
  simp only [Handling.quiet] at hdev
  have hstop' : (b.dev.vq m.stateIndex).started = false := by
    rw [hdev, setVq_self]
    exact hstop
  obtain ⟨hlast, hstopped⟩ := hs.callbacks hst hdispatch hstop'
  refine ⟨?_, hstopped⟩
  rw [hlast, hdev, VuDev.lastAvail, setVq_self]

theorem Process.Takes.exchange (hst : s.Takes y fs s') (hm : y.Got m) :
    ∃ h, vuProcessMessage s.backend.dev m y.answer = .ok h ∧ y.exchange s.backend.dev =
      [{ dev := s.backend.dev, msg := m, answer := y.answer
         sent := (h.sends m).map replyHeader }] := by
  obtain ⟨b, gs, _, hdispatch, _⟩ := iterate_cases hst.iterate
  rw [Backend.dispatch, if_pos hm.1] at hdispatch
  obtain ⟨t, ht, _⟩ := except_bind_ok.mp hdispatch
  obtain ⟨m', hread, hfinish⟩ := except_bind_ok.mp ht
  cases hm.2.symm.trans hread
  obtain ⟨h, hprocess, hfinish⟩ := except_bind_ok.mp hfinish
  refine ⟨h, hprocess, ?_⟩
  rw [Iteration.exchange, if_pos hm.1, hread, ht]
  simp only [finishDispatch_sent hfinish]

theorem slice_eight (m : Memory) : m.slice 0 8 = m.slice 0 4 ++ m.slice 4 4 := by
  simp [Memory.slice, List.range_succ]

/-- What a message says that has the payload of the reply. -/
theorem state_of_slice {k : VhostUserMsg} {n : UInt16}
    (hk : k.payload.slice 0 8 = m.payload.slice 0 4 ++ Memory.leBytes 4 n.toNat) :
    k.stateIndex = m.stateIndex ∧ k.stateNum.toUInt16 = n := by
  rw [slice_eight] at hk
  obtain ⟨hindex, hnum⟩ := List.append_inj hk (by simp)
  have hload : k.payload.load 4 4 = n.toNat := by
    have hlt := n.toNat_lt
    rw [Memory.load, hnum, Memory.ofLeBytes_leBytes, Nat.mod_eq_of_lt (by omega)]
  constructor
  · simp only [VhostUserMsg.stateIndex, VhostUserMsg.u32, Memory.load, hindex]
  · rw [VhostUserMsg.stateNum, VhostUserMsg.u32, hload]
    apply UInt16.toNat_inj.mp
    have hlt := n.toNat_lt
    rw [UInt32.toNat_toUInt16, UInt32.toNat_ofNat']
    omega

end Vlog.Vhost
