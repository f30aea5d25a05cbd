import Vlog.Vhost.Lemmas.Process
import Vlog.Vhost.Replies

/-!
# What a message is answered with

Each handler either leaves the message as it is and asks for no reply, or turns it into the reply.
-/

namespace Vlog.Vhost

open Vlog.Lib

variable {d d' : VuDev} {m r : VhostUserMsg} {x : Answer} {q : VuQueue} {h : Handling} {i n : Nat}
  {p : Packet} {s : Process} {bs : List UInt8}

/-! ## Handlers -/

/-- The message stays as it is and is not answered. -/
structure Handling.Silent (m : VhostUserMsg) (h : Handling) : Prop where
  msg : h.msg = m
  reply : h.reply = false

theorem silent_of_quiet (h₀ : .ok (Handling.quiet d m) = Except.ok (ε := Halt) h) : h.Silent m := by
  cases h₀
  exact ⟨rfl, rfl⟩

theorem vuSetFeaturesExec_silent (h₀ : vuSetFeaturesExec d m x = .ok h) : h.Silent m := by
  unfold vuSetFeaturesExec at h₀
  simp only at h₀
  split at h₀
  · exact silent_of_quiet h₀
  · cases h₀

theorem vuSetProtocolFeaturesExec_silent (h₀ : vuSetProtocolFeaturesExec d m x = .ok h) :
    h.Silent m := by
  unfold vuSetProtocolFeaturesExec at h₀
  simp only at h₀
  split at h₀
  · cases h₀
  · exact silent_of_quiet h₀

theorem vuSetMemTableExec_silent (h₀ : vuSetMemTableExec d m x = .ok h) : h.Silent m := by
  unfold vuSetMemTableExec at h₀
  split at h₀
  · cases h₀
  split at h₀
  · cases h₀
  split at h₀
  · cases h₀
  · cases h₀
    exact ⟨rfl, rfl⟩

theorem vuSetLogFdExec_silent (h₀ : vuSetLogFdExec d m x = .ok h) : h.Silent m := by
  unfold vuSetLogFdExec at h₀
  split at h₀
  · cases h₀
  · cases h₀
    exact ⟨rfl, rfl⟩

theorem vuSetVringAddrExec_silent (h₀ : vuSetVringAddrExec d m x = .ok h) : h.Silent m := by
  have h₁ := (withQueue_cases h₀).2
  simp only at h₁
  split at h₁
  · exact silent_of_quiet h₁
  · cases h₁

theorem vuSetVringKickExec_silent (h₀ : vuSetVringKickExec d m x = .ok h) : h.Silent m := by
  unfold vuSetVringKickExec at h₀
  split at h₀
  · cases h₀
  simp only at h₀
  split at h₀
  · cases h₀
  · cases h₀
    exact ⟨rfl, rfl⟩

theorem vuSetVringErrExec_silent (h₀ : vuSetVringErrExec d m x = .ok h) : h.Silent m := by
  unfold vuSetVringErrExec at h₀
  split at h₀
  · cases h₀
  · cases h₀
    exact ⟨rfl, rfl⟩

theorem vuSetVringEnableExec_silent (h₀ : vuSetVringEnableExec d m x = .ok h) : h.Silent m := by
  unfold vuSetVringEnableExec at h₀
  split at h₀
  · cases h₀
  · exact silent_of_quiet h₀

theorem vuSetBackendReqFd_silent (h₀ : vuSetBackendReqFd d m x = .ok h) : h.Silent m := by
  unfold vuSetBackendReqFd at h₀
  split at h₀
  · cases h₀
  · cases h₀
    exact ⟨rfl, rfl⟩

theorem vuHandleVringKick_silent (h₀ : vuHandleVringKick d m x = .ok h) : h.Silent m := by
  unfold vuHandleVringKick at h₀
  simp only at h₀
  split at h₀
  · cases h₀
  · cases h₀
    exact ⟨rfl, rfl⟩

theorem vuAddMemReg_silent (h₀ : vuAddMemReg d m x = .ok h) : h.Silent m := by
  unfold vuAddMemReg at h₀
  split at h₀
  · cases h₀
  split at h₀
  · cases h₀
  simp only at h₀
  split at h₀
  · cases h₀
  · cases h₀
    exact ⟨rfl, rfl⟩

theorem vuRemMemReg_silent (h₀ : vuRemMemReg d m x = .ok h) : h.Silent m := by
  unfold vuRemMemReg at h₀
  split at h₀
  · cases h₀
  simp only at h₀
  split at h₀
  · cases h₀
  · cases h₀
    exact ⟨rfl, rfl⟩

/-- The message that is turned into the reply. -/
structure Handling.Answers (d : VuDev) (m : VhostUserMsg) (x : Answer) (h : Handling) : Prop where
  reply : h.reply = m.replied x
  request : h.msg.request = m.request
  size : h.msg.size.toNat ≤ payloadSize
  fds : h.msg.fds.length ≤ m.fds.length
  body : h.reply = true → h.msg.payload.slice 0 h.msg.size.toNat = m.replyBody x d

theorem Handling.Silent.answers (hs : h.Silent m) (hm : m.size.toNat ≤ payloadSize)
    (hno : m.replied x = false) : h.Answers d m x where
  reply := hs.reply.trans hno.symm
  request := by rw [hs.msg]
  size := by rwa [hs.msg]
  fds := by rw [hs.msg]
  body hreply := by
    rw [hs.reply] at hreply
    cases hreply

theorem slice_setU64 (m : VhostUserMsg) (val : UInt64) :
    (m.setU64 val).payload.slice 0 8 = Memory.leBytes 8 val.toNat := by
  have hholds : (m.payload.store 0 (Memory.leBytes 8 val.toNat)).Holds 0
      (Memory.leBytes 8 val.toNat) := Memory.holds_store
  rwa [Memory.Holds, Memory.leBytes_length] at hholds

theorem slice_four (m : Memory) (n : Nat) :
    (m.store 4 (Memory.leBytes 4 n)).slice 0 8 = m.slice 0 4 ++ Memory.leBytes 4 n := by
  have hfront : (m.store 4 (Memory.leBytes 4 n)).Holds 0 (m.slice 0 4) := by
    rw [Memory.Holds, Memory.slice_length, Memory.slice_store (by simp)]
  have hback : (m.store 4 (Memory.leBytes 4 n)).Holds 4 (Memory.leBytes 4 n) := Memory.holds_store
  have hholds := Memory.holds_append.mpr ⟨hfront, by simpa using hback⟩
  simpa [Memory.Holds] using hholds

/-- A reply that says a number. -/
theorem answers_u64 {val : UInt64} (hyes : m.replied x = true)
    (hbody : m.replyBody x d = Memory.leBytes 8 val.toNat)
    (h₀ : .ok (Handling.answered d (vmsgSetReplyU64 m val)) = Except.ok (ε := Halt) h) :
    h.Answers d m x := by
  cases h₀
  refine ⟨hyes.symm, rfl, ?_, Nat.zero_le _, fun _ => ?_⟩
  · change 8 ≤ payloadSize
    decide
  · rw [hbody]
    exact slice_setU64 m val

theorem vuGetFeaturesExec_answers (hreq : m.request.toInt = 1) (h₀ : vuGetFeaturesExec d m x = .ok h) :
    h.Answers d m x := by
  cases h₀
  have hyes : m.replied x = true := by simp [VhostUserMsg.replied, hreq]
  refine ⟨hyes.symm, rfl, ?_, Nat.zero_le _, fun _ => ?_⟩
  · change 8 ≤ payloadSize
    decide
  · rw [VhostUserMsg.replyBody, if_pos hyes]
    simp only [hreq]
    exact slice_setU64 m offered

theorem vuGetVringBaseExec_msg (h₀ : vuGetVringBaseExec d m x = .ok h) : h.reply = true ∧
    h.msg =
      { m with
        payload := m.payload.store 4 (Memory.leBytes 4 (d.vq m.stateIndex).vuq.lastAvailIdx.toNat)
        size := 8 } := by
  cases (withQueue_cases h₀).2
  exact ⟨rfl, rfl⟩

theorem vuGetVringBaseExec_answers (hreq : m.request.toInt = 11)
    (h₀ : vuGetVringBaseExec d m x = .ok h) : h.Answers d m x := by
  obtain ⟨hreply, hmsg⟩ := vuGetVringBaseExec_msg h₀
  have hyes : m.replied x = true := by simp [VhostUserMsg.replied, hreq]
  refine ⟨hreply.trans hyes.symm, ?_, ?_, ?_, fun _ => ?_⟩
  · rw [hmsg]
  · rw [hmsg]
    change 8 ≤ payloadSize
    decide
  · rw [hmsg]
  · rw [hmsg, VhostUserMsg.replyBody, if_pos hyes]
    simp only [hreq]
    exact slice_four _ _

theorem vuSetLogBaseExec_answers (hreq : m.request.toInt = 6) (h₀ : vuSetLogBaseExec d m x = .ok h) :
    h.Answers d m x := by
  unfold vuSetLogBaseExec at h₀
  split at h₀
  · cases h₀
  cases h₀
  have hyes : m.replied x = true := by simp [VhostUserMsg.replied, hreq]
  refine ⟨hyes.symm, rfl, ?_, Nat.zero_le _, fun _ => ?_⟩
  · change 8 ≤ payloadSize
    decide
  · rw [VhostUserMsg.replyBody, if_pos hyes]
    simp only [hreq]
    rfl

theorem vuSetVringCallExec_answers (hm : m.size.toNat ≤ payloadSize) (hreq : m.request.toInt = 13)
    (h₀ : vuSetVringCallExec d m x = .ok h) : h.Answers d m x := by
  unfold vuSetVringCallExec at h₀
  split at h₀
  · cases h₀
  cases h₀
  have hreplied : m.replied x = decide (m.newFd ≠ -1 ∧ x.signal = false) := by
    simp [VhostUserMsg.replied, hreq]
  refine ⟨hreplied.symm, rfl, hm, le_rfl, fun hyes => ?_⟩
  rw [VhostUserMsg.replyBody, if_pos (hreplied.trans hyes)]
  simp only [hreq]

/-- Every handler answers, or leaves the message as it is. -/
theorem vuProcessMessage_answers (hd : d.maxQueues = 2) (hm : m.size.toNat ≤ payloadSize)
    (h₀ : vuProcessMessage d m x = .ok h) : h.Answers d m x := by
  unfold vuProcessMessage at h₀
  split at h₀
  case h_1 | h_23 | h_24 | h_25 | h_26 | h_27 | h_33 => cases h₀
  case h_7 hreq => exact vuSetLogBaseExec_answers hreq h₀
  case h_12 hreq => exact vuGetVringBaseExec_answers hreq h₀
  case h_14 hreq => exact vuSetVringCallExec_answers hm hreq h₀
  case h_2 hreq => exact vuGetFeaturesExec_answers hreq h₀
  case h_16 hreq =>
    have hyes : m.replied x = true := by simp [VhostUserMsg.replied, hreq]
    refine answers_u64 hyes ?_ h₀
    rw [VhostUserMsg.replyBody, if_pos hyes]
    simp only [hreq, offeredProtocol]
    cases x.userfault with
    | false => rfl
    | true => rfl
  case h_18 hreq =>
    have hyes : m.replied x = true := by simp [VhostUserMsg.replied, hreq]
    refine answers_u64 hyes ?_ h₀
    rw [VhostUserMsg.replyBody, if_pos hyes]
    simp only [hreq, hd]
    rfl
  case h_29 hreq =>
    have hyes : m.replied x = true := by simp [VhostUserMsg.replied, hreq]
    refine answers_u64 hyes ?_ h₀
    rw [VhostUserMsg.replyBody, if_pos hyes]
    simp only [hreq]
    rfl
  case h_21 hreq =>
    have hyes : m.replied x = true := by simp [VhostUserMsg.replied, hreq]
    cases h₀
    refine ⟨hyes.symm, rfl, Nat.zero_le _, le_rfl, fun _ => ?_⟩
    rw [VhostUserMsg.replyBody, if_pos hyes]
    simp only [hreq]
    rfl
  case h_32 hreq =>
    have hyes : m.replied x = true := by simp [VhostUserMsg.replied, hreq]
    cases h₀
    refine ⟨hyes.symm, rfl, hm, by simp [Handling.answered], fun _ => ?_⟩
    rw [VhostUserMsg.replyBody, if_pos hyes]
    simp only [hreq]
    rfl
  all_goals
    rename_i hreq
    refine Handling.Silent.answers ?_ hm (by simp [VhostUserMsg.replied, hreq])
  case h_3 => exact vuSetFeaturesExec_silent h₀
  case h_4 => exact silent_of_quiet h₀
  case h_5 => exact silent_of_quiet h₀
  case h_6 => exact vuSetMemTableExec_silent h₀
  case h_8 => exact vuSetLogFdExec_silent h₀
  case h_9 => exact silent_of_quiet (withQueue_cases h₀).2
  case h_10 => exact vuSetVringAddrExec_silent h₀
  case h_11 => exact silent_of_quiet (withQueue_cases h₀).2
  case h_13 => exact vuSetVringKickExec_silent h₀
  case h_15 => exact vuSetVringErrExec_silent h₀
  case h_17 => exact vuSetProtocolFeaturesExec_silent h₀
  case h_19 => exact vuSetVringEnableExec_silent h₀
  case h_20 => exact vuSetBackendReqFd_silent h₀
  case h_22 => exact silent_of_quiet h₀
  case h_28 => exact vuHandleVringKick_silent h₀
  case h_30 => exact vuAddMemReg_silent h₀
  case h_31 => exact vuRemMemReg_silent h₀

/-! ## The reply -/

theorem read_size (h₀ : vuMessageReadDefault p = .ok m) :
    m.size.toNat ≤ payloadSize ∧ m.fds.length ≤ 1 := by
  unfold vuMessageReadDefault at h₀
  split at h₀
  · cases h₀
  split at h₀
  · cases h₀
  split at h₀
  · cases h₀
  rename_i hfds hsize
  have hlen : p.fds.length ≤ 1 := by
    unfold vhostMemoryBaselineNregions at hfds
    omega
  split at h₀
  · cases h₀
    exact ⟨Nat.le_of_not_lt hsize, hlen⟩
  split at h₀
  · cases h₀
  · cases h₀
  split at h₀
  · cases h₀
    exact ⟨Nat.le_of_not_lt hsize, hlen⟩
  · cases h₀

theorem uint32_and_or (a b c : UInt32) : (a ||| b) &&& c = a &&& c ||| b &&& c :=
  UInt32.toBitVec_inj.mp BitVec.and_or_distrib_right

/-- The flags with the version cleared have none of its bits. -/
theorem replyHeader_version (m : VhostUserMsg) : (replyHeader m).flags &&& versionMask = userVersion := by
  have hversion : ~~~versionMask &&& versionMask = 0 := UInt32.not_and_self
  simp only [replyHeader, uint32_and_or]
  rw [UInt32.and_assoc, hversion, UInt32.and_zero]
  rfl

theorem replyHeader_reply (m : VhostUserMsg) : (replyHeader m).flags &&& replyMask ≠ 0 := by
  intro hzero
  simp only [replyHeader, uint32_and_or, UInt32.or_eq_zero_iff] at hzero
  exact absurd hzero.2 (by decide)

structure Exchange.Sound (e : Exchange) : Prop where
  asks : e.sent.isSome = e.asks
  replied : ∀ r ∈ e.sent, e.RepliedBy r
  size : ∀ r ∈ e.sent, r.size.toNat ≤ payloadSize
  fds : ∀ r ∈ e.sent, r.fds.length ≤ 1

/-- What `vu_dispatch` sends, before the header is completed. -/
def Handling.sends (h : Handling) (m : VhostUserMsg) : Option VhostUserMsg :=
  if h.reply then some h.msg
  else if m.flags &&& needReplyMask ≠ 0 then some (vmsgSetReplyU64 h.msg 0)
  else none

theorem finishDispatch_sent {t : Dispatched} (h₀ : finishDispatch m h x = .ok t) :
    t.sent = (h.sends m).map replyHeader := by
  unfold finishDispatch at h₀
  simp only at h₀
  split at h₀
  · rename_i hnone
    have hsends : h.sends m = none := hnone
    cases h₀
    rw [hsends]
    rfl
  · rename_i r hsome
    have hsends : h.sends m = some r := hsome
    split at h₀
    · cases h₀
      rw [hsends]
      rfl
    · cases h₀

theorem vuDispatch_sound {t : Dispatched} (hd : d.maxQueues = 2) (hread : vuMessageReadDefault p = .ok m)
    (h₀ : vuDispatch d p x = .ok t) :
    Exchange.Sound { dev := d, msg := m, answer := x, sent := t.sent } := by
  obtain ⟨m', hread', h₀⟩ := except_bind_ok.mp h₀
  cases hread.symm.trans hread'
  obtain ⟨h, hprocess, h₀⟩ := except_bind_ok.mp h₀
  obtain ⟨hsize, hfds⟩ := read_size hread
  have ha := vuProcessMessage_answers hd hsize hprocess
  rw [finishDispatch_sent h₀]
  by_cases hreply : h.reply = true
  · have hyes : m.replied x = true := ha.reply ▸ hreply
    rw [Handling.sends, if_pos hreply]
    refine ⟨by simp [Exchange.asks, VhostUserMsg.asks, hyes], ?_, ?_, ?_⟩
    · rintro _ ⟨⟩
      exact ⟨ha.request, replyHeader_version _, replyHeader_reply _, ha.body hreply⟩
    · rintro _ ⟨⟩
      exact ha.size
    · rintro _ ⟨⟩
      exact ha.fds.trans hfds
  · have hno : m.replied x = false := by
      rw [← ha.reply]
      simpa using hreply
    rw [Handling.sends, if_neg hreply]
    by_cases hneed : m.flags &&& needReplyMask ≠ 0
    · rw [if_pos hneed]
      refine ⟨by simp [Exchange.asks, VhostUserMsg.asks, hneed], ?_, ?_, ?_⟩
      · rintro _ ⟨⟩
        refine ⟨ha.request, replyHeader_version _, replyHeader_reply _, ?_⟩
        rw [VhostUserMsg.replyBody, hno]
        exact slice_setU64 h.msg 0
      · rintro _ ⟨⟩
        change 8 ≤ payloadSize
        decide
      · rintro _ ⟨⟩
        exact Nat.zero_le _
    · rw [if_neg hneed]
      refine ⟨?_, by simp, by simp, by simp⟩
      simp only [Exchange.asks, VhostUserMsg.asks, hno, hneed]
      rfl

theorem Iteration.exchange_sound {y : Iteration} (hd : d.maxQueues = 2) :
    ∀ e ∈ y.exchange d, e.Sound := by
  unfold Iteration.exchange
  split
  · split
    · rename_i m t hread hdispatch
      intro e he
      cases List.mem_singleton.mp he
      exact vuDispatch_sound hd hread hdispatch
    · exact fun _ he => nomatch he
  · exact fun _ he => nomatch he

/-! ## The stream -/

theorem headerWord_append {k : Nat} {front : List UInt8} (hk : front.length = k) (word : UInt32)
    (rest : List UInt8) : headerWord (front ++ (Memory.leBytes 4 word.toNat ++ rest)) k = word := by
  subst hk
  have htake : (Memory.leBytes 4 word.toNat ++ rest).take 4 = Memory.leBytes 4 word.toNat := by
    rw [List.take_append_of_le_length (by simp), List.take_of_length_le (by simp)]
  have hlt : word.toNat < 256 ^ 4 := word.toNat_lt
  rw [headerWord, List.drop_left, htake, Memory.ofLeBytes_leBytes, Nat.mod_eq_of_lt hlt]
  exact UInt32.ofNat_toNat

/-- A reader gets what was written, and the rest of the stream is behind it. -/
theorem nextPacket_write (r : VhostUserMsg) (rest : List UInt8) :
    nextPacket (vuMessageWrite r ++ rest) [] =
        { header := some (r.request, r.flags, r.size), fds := []
          body := some (r.payload.slice 0 r.size.toNat) } ∧
      (vuMessageWrite r ++ rest).drop (hdrSize + r.size.toNat) = rest := by
  have hrequest : headerWord (vuMessageWrite r ++ rest) 0 = r.request.toUInt32 := by
    simp only [vuMessageWrite, List.append_assoc]
    exact @headerWord_append 0 [] rfl _ _
  have hflags : headerWord (vuMessageWrite r ++ rest) 4 = r.flags := by
    simp only [vuMessageWrite, List.append_assoc]
    exact headerWord_append (Memory.leBytes_length _ _) _ _
  have hsize : headerWord (vuMessageWrite r ++ rest) 8 = r.size := by
    simp only [vuMessageWrite, List.append_assoc]
    rw [← List.append_assoc (Memory.leBytes 4 _)]
    exact headerWord_append (by simp) _ _
  have hbody : (vuMessageWrite r ++ rest).drop hdrSize = r.payload.slice 0 r.size.toNat ++ rest := by
    rw [vuMessageWrite, List.append_assoc]
    exact List.drop_left' (by simp [hdrSize])
  constructor
  · rw [nextPacket, hrequest, hflags, hsize, hbody, List.take_left' (Memory.slice_length _ _ _)]
    rfl
  · rw [← List.drop_drop, hbody, List.drop_left' (Memory.slice_length _ _ _)]

theorem read_write (hr : r.size.toNat ≤ payloadSize) (rest : List UInt8) :
    ∃ m, vuMessageReadDefault (nextPacket (vuMessageWrite r ++ rest) []) = .ok m ∧
      m.request = r.request ∧ m.flags = r.flags ∧ m.size = r.size ∧
      m.payload.slice 0 m.size.toNat = r.payload.slice 0 r.size.toNat := by
  rw [(nextPacket_write r rest).1]
  unfold vuMessageReadDefault
  simp only
  rw [if_neg (by decide), if_neg (by omega)]
  by_cases hzero : r.size = 0
  · rw [if_pos hzero]
    refine ⟨_, rfl, rfl, rfl, rfl, ?_⟩
    rw [hzero]
    rfl
  · rw [if_neg hzero]
    have hlen : (r.payload.slice 0 r.size.toNat).length = r.size.toNat := Memory.slice_length _ _ _
    generalize r.payload.slice 0 r.size.toNat = bytes at hlen ⊢
    cases bytes with
    | nil => exact absurd (UInt32.toNat_inj.mp hlen.symm) hzero
    | cons b bytes =>
        simp only [if_pos hlen]
        refine ⟨_, rfl, rfl, rfl, rfl, ?_⟩
        have hholds : Memory.Holds (fun i => (b :: bytes).getD i 0) 0 (b :: bytes) := by
          rw [Memory.holds_iff]
          intro i hi
          simp [List.getElem?_eq_getElem hi]
        rwa [Memory.Holds, hlen] at hholds

/-- QEMU reads one reply for each message it asks about, in order, and nothing is left in the socket. -/
theorem readMessages_written {xs : List Exchange} (hxs : ∀ e ∈ xs, e.Sound) :
    ∃ rs, readMessages (xs.filter Exchange.asks).length (xs.flatMap Exchange.written) = .ok (rs, []) ∧
      List.Forall₂ Exchange.RepliedBy (xs.filter Exchange.asks) rs := by
  induction xs with
  | nil => exact ⟨[], rfl, .nil⟩
  | cons e xs ih =>
      obtain ⟨rs, hrs, hreplied⟩ := ih fun e he => hxs e (List.mem_cons_of_mem _ he)
      have he : e.Sound := hxs e List.mem_cons_self
      rw [List.flatMap_cons]
      cases hsent : e.sent with
      | none =>
          have hno : e.asks = false := by rw [← he.asks, hsent, Option.isSome_none]
          rw [List.filter_cons_of_neg (by simp [hno]), Exchange.written, hsent]
          exact ⟨rs, hrs, hreplied⟩
      | some r =>
          have hyes : e.asks = true := by rw [← he.asks, hsent, Option.isSome_some]
          obtain ⟨m, hread, hrequest, hflags, hsize, hbody⟩ :=
            read_write (he.size r hsent) (xs.flatMap Exchange.written)
          have hr := he.replied r hsent
          rw [List.filter_cons_of_pos hyes, Exchange.written, hsent]
          refine ⟨m :: rs, ?_, .cons ⟨?_, ?_, ?_, ?_⟩ hreplied⟩
          · change readMessages (_ + 1) (vuMessageWrite r ++ _) = _
            rw [readMessages, hread]
            change (do let t ← readMessages _ _; return (m :: t.1, t.2)) = _
            rw [hsize, (nextPacket_write r _).2, hrs]
            rfl
          · rw [hrequest, hr.request]
          · rw [hflags, hr.version]
          · rw [hflags]
            exact hr.reply
          · rw [hbody, hr.body]

/-! ## Runs -/

theorem Process.talk_steps {xs : List Exchange} {s₀ : Finset Resource}
    (hr : Run Process.Talk (Process.start s₀) xs s) :
    (∃ es, Run Process.Step (Process.start s₀) es s) ∧ ∀ e ∈ xs, e.Sound := by
  refine hr.invariant (I := fun xs s => (∃ es, Run Process.Step (Process.start s₀) es s) ∧
    ∀ e ∈ xs, e.Sound) ⟨⟨[], .refl⟩, fun _ he => nomatch he⟩ ?_
  rintro xs s ys s' _ ⟨⟨es, hsteps⟩, hxs⟩ ⟨y, fs, hy, rfl⟩
  refine ⟨⟨es ++ fs, hsteps.snoc ⟨y, hy⟩⟩, ?_⟩
  intro e he
  rcases List.mem_append.mp he with he | he
  · exact hxs e he
  · exact Iteration.exchange_sound (Process.run_inv hsteps).watched.queues e he

end Vlog.Vhost
