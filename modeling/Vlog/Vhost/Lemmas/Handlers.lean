import Vlog.Vhost.Lemmas.Resources

/-!
# What a message can do

Most messages change no descriptor, no mapping and no address of a ring. For the others there is one case
each, and an invariant is proved of a message by these cases.
-/

namespace Vlog.Vhost

open Vlog.Lib

variable {d d' : VuDev} {m : VhostUserMsg} {x : Answer} {q q' : VuQueue} {h : Handling} {i : Nat}

/-! ## What stays -/

/-- The descriptors, the handler and the addresses of the rings are the same. -/
structure VuQueue.Tied (q q' : VuQueue) : Prop where
  callFd : q'.callFd = q.callFd
  kickFd : q'.kickFd = q.kickFd
  errFd : q'.errFd = q.errFd
  started : q'.started = q.started
  handler : q'.handler = q.handler
  vra : q'.vra = q.vra
  desc : q'.vuq.vring.desc = q.vuq.vring.desc
  avail : q'.vuq.vring.avail = q.vuq.vring.avail
  used : q'.vuq.vring.used = q.vuq.vring.used

structure VuDev.Tied (d d' : VuDev) : Prop where
  maxQueues : d'.maxQueues = d.maxQueues
  regions : d'.regions = d.regions
  logTable : d'.logTable = d.logTable
  logSize : d'.logSize = d.logSize
  logCallFd : d'.logCallFd = d.logCallFd
  backendFd : d'.backendFd = d.backendFd
  vq : ∀ i, (d.vq i).Tied (d'.vq i)

theorem VuQueue.Tied.refl (q : VuQueue) : q.Tied q := ⟨rfl, rfl, rfl, rfl, rfl, rfl, rfl, rfl, rfl⟩

theorem VuQueue.Tied.held (hq : q.Tied q') : q'.held = q.held := by
  rw [VuQueue.held, hq.callFd, hq.kickFd, hq.errFd, VuQueue.held]

theorem VuDev.Tied.refl (d : VuDev) : d.Tied d := ⟨rfl, rfl, rfl, rfl, rfl, rfl, fun _ => .refl _⟩

theorem VuQueue.Tied.trans {q'' : VuQueue} (hq : q.Tied q') (hq' : q'.Tied q'') : q.Tied q'' :=
  ⟨hq'.callFd.trans hq.callFd, hq'.kickFd.trans hq.kickFd, hq'.errFd.trans hq.errFd,
    hq'.started.trans hq.started, hq'.handler.trans hq.handler, hq'.vra.trans hq.vra,
    hq'.desc.trans hq.desc, hq'.avail.trans hq.avail, hq'.used.trans hq.used⟩

theorem VuDev.Tied.trans {d'' : VuDev} (hd : d.Tied d') (hd' : d'.Tied d'') : d.Tied d'' :=
  ⟨hd'.maxQueues.trans hd.maxQueues, hd'.regions.trans hd.regions, hd'.logTable.trans hd.logTable,
    hd'.logSize.trans hd.logSize, hd'.logCallFd.trans hd.logCallFd,
    hd'.backendFd.trans hd.backendFd, fun i => (hd.vq i).trans (hd'.vq i)⟩

/-- What negotiation sets is not among the fields. -/
theorem tied_features (d : VuDev) (f p g : UInt64) :
    d.Tied { d with features := f, protocolFeatures := p, gFeatures := g } :=
  ⟨rfl, rfl, rfl, rfl, rfl, rfl, fun _ => .refl _⟩

theorem VuDev.Tied.held (hd : d.Tied d') : d'.held = d.held := by
  have hqueues : d'.heldQueues = d.heldQueues := by
    rw [VuDev.heldQueues, hd.maxQueues, VuDev.heldQueues]
    exact Finset.sum_congr rfl fun i _ => (hd.vq i).held
  rw [VuDev.held, VuDev.held, hqueues, hd.regions, hd.logCallFd, hd.backendFd, VuDev.heldLog,
    hd.logTable, hd.logSize, VuDev.heldLog]

theorem VuDev.Tied.setVq (hq : (d.vq i).Tied q) : d.Tied (d.setVq i q) := by
  refine ⟨rfl, rfl, rfl, rfl, rfl, rfl, fun j => ?_⟩
  by_cases hj : j = i
  · subst hj
    rwa [setVq_self]
  · rw [setVq_of_ne hj]
    exact .refl _

theorem vuSetEnableAllRings_tied (d : VuDev) (enabled : UInt32) :
    d.Tied (vuSetEnableAllRings d enabled) := by
  refine ⟨rfl, rfl, rfl, rfl, rfl, rfl, fun i => ?_⟩
  unfold vuSetEnableAllRings
  simp only
  split
  · exact ⟨rfl, rfl, rfl, rfl, rfl, rfl, rfl, rfl, rfl⟩
  · exact .refl _

/-- `tx_kick` moves `last_avail_idx`, and at most raises the interrupt. -/
theorem txKick_spec (d : VuDev) (i : Nat) (x : Answer) :
    d.Tied (txKick d i x).1 ∧ ∃ es, (txKick d i x).2 = .txKick i :: es ∧
      (es = [] ∨ 0 ≤ (d.vq i).callFd ∧ es = [.signal (d.vq i).callFd]) := by
  unfold txKick
  split
  · exact ⟨.refl d, [], rfl, .inl rfl⟩
  · refine ⟨.setVq ⟨rfl, rfl, rfl, rfl, rfl, rfl, rfl, rfl, rfl⟩, _, rfl, ?_⟩
    split
    · rename_i hcall
      exact .inr ⟨hcall.2, rfl⟩
    · exact .inl rfl

/-- A message that changes nothing of this. -/
structure Handling.Quiet (d : VuDev) (h : Handling) : Prop where
  effects : h.effects = []
  dev : d.Tied h.dev

theorem withQueue_cases {k : VuQueue → Except Halt Handling} (h₀ : withQueue d i k = .ok h) :
    i < d.maxQueues ∧ k (d.vq i) = .ok h := by
  unfold withQueue at h₀
  split at h₀
  · rename_i hi
    exact ⟨hi, h₀⟩
  · cases h₀

theorem quiet_of_features (h₀ : vuSetFeaturesExec d m x = .ok h) : h.Quiet d := by
  unfold vuSetFeaturesExec at h₀
  simp only at h₀
  split at h₀
  · cases h₀
    refine ⟨rfl, ?_⟩
    simp only [Handling.quiet]
    refine VuDev.Tied.trans ?_ (tied_features _ _ _ _)
    have hset := tied_features d m.u64 d.protocolFeatures d.gFeatures
    split
    · exact hset.trans (vuSetEnableAllRings_tied _ 1)
    · exact hset
  · cases h₀

theorem quiet_of_protocolFeatures (h₀ : vuSetProtocolFeaturesExec d m x = .ok h) : h.Quiet d := by
  unfold vuSetProtocolFeaturesExec at h₀
  simp only at h₀
  split at h₀
  · cases h₀
  · cases h₀
    exact ⟨rfl, tied_features d _ _ _⟩

theorem quiet_of_answered {m' : VhostUserMsg}
    (h₀ : .ok (Handling.answered d m') = Except.ok (ε := Halt) h) : h.Quiet d := by
  cases h₀
  exact ⟨rfl, .refl d⟩

/-- A message that sets a field of one queue which is not among these. -/
theorem quiet_of_queue (h₀ : .ok (Handling.quiet (d.setVq i q) m) = Except.ok (ε := Halt) h)
    (hq : (d.vq i).Tied q) : h.Quiet d := by
  cases h₀
  exact ⟨rfl, .setVq hq⟩

/-! ## The cases -/

/-- What has been handled: each message that is not quiet, with its handler. -/
inductive Handled (d : VuDev) (m : VhostUserMsg) (x : Answer) (h : Handling) : Prop
  | memTable : m.request.toInt = 5 → vuSetMemTableExec d m x = .ok h → Handled d m x h
  | logBase : m.request.toInt = 6 → vuSetLogBaseExec d m x = .ok h → Handled d m x h
  | logFd : m.request.toInt = 7 → vuSetLogFdExec d m x = .ok h → Handled d m x h
  | vringAddr : m.request.toInt = 9 → vuSetVringAddrExec d m x = .ok h → Handled d m x h
  | vringBase : m.request.toInt = 11 → vuGetVringBaseExec d m x = .ok h → Handled d m x h
  | vringKick : m.request.toInt = 12 → vuSetVringKickExec d m x = .ok h → Handled d m x h
  | vringCall : m.request.toInt = 13 → vuSetVringCallExec d m x = .ok h → Handled d m x h
  | vringErr : m.request.toInt = 14 → vuSetVringErrExec d m x = .ok h → Handled d m x h
  | backendFd : m.request.toInt = 21 → vuSetBackendReqFd d m x = .ok h → Handled d m x h
  | kick : m.request.toInt = 35 → vuHandleVringKick d m x = .ok h → Handled d m x h
  | addMemReg : m.request.toInt = 37 → vuAddMemReg d m x = .ok h → Handled d m x h
  | remMemReg : m.request.toInt = 38 → vuRemMemReg d m x = .ok h → Handled d m x h
  | quiet : m.stray = m.fds → h.Quiet d → Handled d m x h

theorem vuProcessMessage_cases (h₀ : vuProcessMessage d m x = .ok h) : Handled d m x h := by
  unfold vuProcessMessage at h₀
  split at h₀
  case h_6 hreq => exact .memTable hreq h₀
  case h_7 hreq => exact .logBase hreq h₀
  case h_8 hreq => exact .logFd hreq h₀
  case h_10 hreq => exact .vringAddr hreq h₀
  case h_12 hreq => exact .vringBase hreq h₀
  case h_13 hreq => exact .vringKick hreq h₀
  case h_14 hreq => exact .vringCall hreq h₀
  case h_15 hreq => exact .vringErr hreq h₀
  case h_20 hreq => exact .backendFd hreq h₀
  case h_28 hreq => exact .kick hreq h₀
  case h_30 hreq => exact .addMemReg hreq h₀
  case h_31 hreq => exact .remMemReg hreq h₀
  case h_1 | h_23 | h_24 | h_25 | h_26 | h_27 | h_33 => cases h₀
  all_goals
    rename_i hreq
    refine .quiet (by simp [VhostUserMsg.stray, hreq]) ?_
  case h_2 => exact quiet_of_answered h₀
  case h_3 => exact quiet_of_features h₀
  case h_4 =>
    cases h₀
    exact ⟨rfl, .refl d⟩
  case h_5 =>
    cases h₀
    exact ⟨rfl, vuSetEnableAllRings_tied d 0⟩
  case h_9 =>
    exact quiet_of_queue (withQueue_cases h₀).2 ⟨rfl, rfl, rfl, rfl, rfl, rfl, rfl, rfl, rfl⟩
  case h_11 =>
    exact quiet_of_queue (withQueue_cases h₀).2 ⟨rfl, rfl, rfl, rfl, rfl, rfl, rfl, rfl, rfl⟩
  case h_16 => exact quiet_of_answered h₀
  case h_17 => exact quiet_of_protocolFeatures h₀
  case h_18 => exact quiet_of_answered h₀
  case h_19 =>
    unfold vuSetVringEnableExec at h₀
    split at h₀
    · cases h₀
    · exact quiet_of_queue h₀ ⟨rfl, rfl, rfl, rfl, rfl, rfl, rfl, rfl, rfl⟩
  case h_21 => exact quiet_of_answered h₀
  case h_22 =>
    cases h₀
    exact ⟨rfl, .refl d⟩
  case h_29 => exact quiet_of_answered h₀
  case h_32 => exact quiet_of_answered h₀

/-! ## Queues behind a message -/

theorem queueSetStarted_fst (i : Nat) (q : VuQueue) (started : Bool) :
    (queueSetStarted i q started).1 = { q with handler := if i = vqTx then started else q.handler } := by
  unfold queueSetStarted
  split
  · rfl
  · rfl

theorem dropKick_snd (q : VuQueue) : (dropKick q).2 =
    if q.kickFd ≠ -1 then [.watch (.remove q.kickFd), .close q.kickFd] else [] := by
  unfold dropKick
  split
  · rfl
  · rfl

theorem queueSetStarted_snd (i : Nat) (q : VuQueue) (started : Bool) : (queueSetStarted i q started).2 =
    if i = vqTx ∧ 0 ≤ q.kickFd then
      [.watch (if started then .set q.kickFd () i else .remove q.kickFd)] else [] := by
  unfold queueSetStarted
  by_cases hi : i = vqTx
  · simp [hi]
  · simp [hi]

/-- The queue behind `vu_set_vring_kick_exec` -/
def VuQueue.kicked (q : VuQueue) (i : Nat) (fd : Int) : VuQueue :=
  { q with kickFd := fd, started := true, handler := if i = vqTx then true else q.handler }

theorem vuSetVringKickExec_spec (h₀ : vuSetVringKickExec d m x = .ok h) :
    ∃ closed, vuCheckQueueMsgFile d m = some closed ∧
      h.dev = d.setVq m.vringIndex ((d.vq m.vringIndex).kicked m.vringIndex m.newFd) ∧
      h.effects = closed ++ (dropKick (d.vq m.vringIndex)).2 ++
        (if m.vringIndex = vqTx ∧ 0 ≤ m.newFd then [.watch (.set m.newFd () m.vringIndex)] else []) ++
        (if m.newFd ≠ -1 ∧ ((d.vq m.vringIndex).kicked m.vringIndex m.newFd).handler then
          [.watch (.set m.newFd () m.vringIndex)] else []) := by
  unfold vuSetVringKickExec at h₀
  split at h₀
  · cases h₀
  rename_i closed hclosed
  simp only [queueSetStarted_fst, queueSetStarted_snd, dropKick_fst, if_true] at h₀
  split at h₀
  · cases h₀
  cases h₀
  exact ⟨closed, hclosed, rfl, rfl⟩

/-- The queue behind `vu_get_vring_base_exec` -/
def VuQueue.stopped (q : VuQueue) (i : Nat) : VuQueue :=
  { q with
    callFd := -1, kickFd := -1, started := false, handler := if i = vqTx then false else q.handler }

theorem vuGetVringBaseExec_spec (h₀ : vuGetVringBaseExec d m x = .ok h) :
    m.stateIndex < d.maxQueues ∧
      h.dev = d.setVq m.stateIndex ((d.vq m.stateIndex).stopped m.stateIndex) ∧
      h.effects =
        (if m.stateIndex = vqTx ∧ 0 ≤ (d.vq m.stateIndex).kickFd then
          [.watch (.remove (d.vq m.stateIndex).kickFd)] else []) ++
        closeIf (d.vq m.stateIndex).callFd ++ (dropKick (d.vq m.stateIndex)).2 := by
  obtain ⟨hi, h₀⟩ := withQueue_cases h₀
  simp only [queueSetStarted_fst, queueSetStarted_snd, dropKick_fst, dropKick_snd] at h₀
  cases h₀
  refine ⟨hi, rfl, ?_⟩
  rw [dropKick_snd]
  rfl

/-- The queue behind `vu_handle_vring_kick`, before its handler is called -/
def VuQueue.resumed (q : VuQueue) (i : Nat) : VuQueue :=
  { q with started := true, handler := if q.started = false ∧ i = vqTx then true else q.handler }

theorem vuHandleVringKick_spec (h₀ : vuHandleVringKick d m x = .ok h) :
    let q := (d.vq m.stateIndex).resumed m.stateIndex
    let t := if q.handler then txKick (d.setVq m.stateIndex q) m.stateIndex x
      else (d.setVq m.stateIndex q, [])
    m.stateIndex < d.maxQueues ∧ h.dev = t.1 ∧
      h.effects =
        (if (d.vq m.stateIndex).started = false ∧ m.stateIndex = vqTx ∧
            0 ≤ (d.vq m.stateIndex).kickFd then
          [.watch (.set (d.vq m.stateIndex).kickFd () m.stateIndex)] else []) ++ t.2 := by
  unfold vuHandleVringKick at h₀
  simp only at h₀
  split at h₀
  · cases h₀
  rename_i hi
  cases h₀
  generalize hs : (if (d.vq m.stateIndex).started then (d.vq m.stateIndex, [])
    else queueSetStarted m.stateIndex { d.vq m.stateIndex with started := true } true) = s
  have hfst : s.1 = (d.vq m.stateIndex).resumed m.stateIndex := by
    rw [← hs, VuQueue.resumed]
    split
    · rename_i hstarted
      rw [if_neg (by simp [hstarted])]
      simp only [← hstarted]
    · rename_i hstarted
      rw [queueSetStarted_fst]
      simp [hstarted]
  have hsnd : s.2 = if (d.vq m.stateIndex).started = false ∧ m.stateIndex = vqTx ∧
      0 ≤ (d.vq m.stateIndex).kickFd then
        [.watch (.set (d.vq m.stateIndex).kickFd () m.stateIndex)] else [] := by
    rw [← hs]
    split
    · rename_i hstarted
      simp [hstarted]
    · rename_i hstarted
      rw [queueSetStarted_snd]
      simp [hstarted]
  simp only
  rw [← hfst, ← hsnd]
  exact ⟨by omega, rfl, rfl⟩

theorem vuHandleVringKick_tied (h₀ : vuHandleVringKick d m x = .ok h) :
    (d.setVq m.stateIndex ((d.vq m.stateIndex).resumed m.stateIndex)).Tied h.dev := by
  rw [(vuHandleVringKick_spec h₀).2.1]
  split
  · exact (txKick_spec ..).1
  · exact .refl _

theorem vuSetVringAddrExec_spec (h₀ : vuSetVringAddrExec d m x = .ok h) :
    let r := mapRing d.regions { d.vq m.stateIndex with vra := m.vringAddr }
    m.stateIndex < d.maxQueues ∧ r.2 = true ∧ h.dev = d.setVq m.stateIndex r.1 ∧ h.effects = [] := by
  obtain ⟨hi, h₀⟩ := withQueue_cases h₀
  simp only at h₀
  split at h₀
  · rename_i hmapped
    cases h₀
    exact ⟨hi, hmapped, rfl, rfl⟩
  · cases h₀

/-! ## Rings and kicks -/

/-- The table and the addresses of the rings are the same. -/
structure VuDev.SameRings (d d' : VuDev) : Prop where
  maxQueues : d'.maxQueues = d.maxQueues
  regions : d'.regions = d.regions
  vra : ∀ i, (d'.vq i).vra = (d.vq i).vra
  desc : ∀ i, (d'.vq i).vuq.vring.desc = (d.vq i).vuq.vring.desc
  avail : ∀ i, (d'.vq i).vuq.vring.avail = (d.vq i).vuq.vring.avail
  used : ∀ i, (d'.vq i).vuq.vring.used = (d.vq i).vuq.vring.used

/-- What belongs to the kicks is the same. -/
structure VuDev.SameKicks (d d' : VuDev) : Prop where
  maxQueues : d'.maxQueues = d.maxQueues
  kickFd : ∀ i, (d'.vq i).kickFd = (d.vq i).kickFd
  started : ∀ i, (d'.vq i).started = (d.vq i).started
  handler : ∀ i, (d'.vq i).handler = (d.vq i).handler

theorem VuDev.Tied.rings (hd : d.Tied d') : d.SameRings d' :=
  ⟨hd.maxQueues, hd.regions, fun i => (hd.vq i).vra, fun i => (hd.vq i).desc,
    fun i => (hd.vq i).avail, fun i => (hd.vq i).used⟩

theorem VuDev.Tied.kicks (hd : d.Tied d') : d.SameKicks d' :=
  ⟨hd.maxQueues, fun i => (hd.vq i).kickFd, fun i => (hd.vq i).started, fun i => (hd.vq i).handler⟩

theorem VuDev.SameRings.refl (d : VuDev) : d.SameRings d := (VuDev.Tied.refl d).rings

theorem VuDev.SameKicks.refl (d : VuDev) : d.SameKicks d := (VuDev.Tied.refl d).kicks

theorem VuDev.SameRings.trans {d'' : VuDev} (hd : d.SameRings d') (hd' : d'.SameRings d'') :
    d.SameRings d'' :=
  ⟨hd'.maxQueues.trans hd.maxQueues, hd'.regions.trans hd.regions,
    fun i => (hd'.vra i).trans (hd.vra i), fun i => (hd'.desc i).trans (hd.desc i),
    fun i => (hd'.avail i).trans (hd.avail i), fun i => (hd'.used i).trans (hd.used i)⟩

theorem setVq_field {γ : Type*} (f : VuQueue → γ) (hq : f q = f (d.vq i)) (j : Nat) :
    f ((d.setVq i q).vq j) = f (d.vq j) := by
  by_cases hj : j = i
  · subst hj
    rw [setVq_self, hq]
  · rw [setVq_of_ne hj]

theorem sameRings_setVq (hvra : q.vra = (d.vq i).vra) (hring : q.vuq.vring = (d.vq i).vuq.vring) :
    d.SameRings (d.setVq i q) :=
  ⟨rfl, rfl, setVq_field VuQueue.vra hvra, setVq_field (·.vuq.vring.desc) (by rw [hring]),
    setVq_field (·.vuq.vring.avail) (by rw [hring]), setVq_field (·.vuq.vring.used) (by rw [hring])⟩

theorem sameKicks_setVq (hkick : q.kickFd = (d.vq i).kickFd) (hstarted : q.started = (d.vq i).started)
    (hhandler : q.handler = (d.vq i).handler) : d.SameKicks (d.setVq i q) :=
  ⟨rfl, setVq_field VuQueue.kickFd hkick, setVq_field VuQueue.started hstarted,
    setVq_field VuQueue.handler hhandler⟩

theorem remapRings_sameKicks {rs : List VuDevRegion} {n : Nat} (h₀ : remapRings rs d n = some d') :
    d.SameKicks d' := by
  obtain ⟨rfl, _⟩ := remapRings_spec h₀
  have hfield : ∀ {γ : Type} (f : VuQueue → γ) (_ : ∀ q, f (mapRing rs q).1 = f q) (i : Nat),
      f (if i < n ∧ (d.vq i).vuq.vring.desc ≠ 0 then (mapRing rs (d.vq i)).1 else d.vq i) =
        f (d.vq i) := by
    intro γ f hf i
    split
    · exact hf _
    · rfl
  exact ⟨rfl, hfield VuQueue.kickFd fun _ => rfl, hfield VuQueue.started fun _ => rfl,
    hfield VuQueue.handler fun _ => rfl⟩

@[simp] theorem watchOps_nil : watchOps [] = [] := rfl

@[simp] theorem watchOps_append (es fs : List Effect) :
    watchOps (es ++ fs) = watchOps es ++ watchOps fs := List.filterMap_append

@[simp] theorem watchOps_watch (op : WatchOp Unit Nat) (es : List Effect) :
    watchOps (.watch op :: es) = op :: watchOps es := rfl

@[simp] theorem kicksOf_append (es fs : List Effect) : kicksOf (es ++ fs) = kicksOf es ++ kicksOf fs :=
  List.filter_append ..

/-- Neither the table of watches nor a kick is touched. -/
structure Inert (es : List Effect) : Prop where
  watches : watchOps es = []
  kicks : kicksOf es = []

theorem inert_nil : Inert [] := ⟨rfl, rfl⟩

theorem Inert.append {es fs : List Effect} (he : Inert es) (hf : Inert fs) : Inert (es ++ fs) := by
  constructor
  · rw [watchOps_append, he.watches, hf.watches, List.append_nil]
  · rw [kicksOf_append, he.kicks, hf.kicks, List.append_nil]

theorem inert_if {es : List Effect} (p : Prop) [Decidable p] (he : Inert es) : Inert (if p then es else []) := by
  split
  · exact he
  · exact inert_nil

theorem inert_closeIf (fd : Int) : Inert (closeIf fd) := inert_if _ ⟨rfl, rfl⟩

theorem inert_closeFds (m : VhostUserMsg) : Inert (vmsgCloseFds m) := by
  unfold vmsgCloseFds
  induction m.fds with
  | nil => exact inert_nil
  | cons fd fds ih => exact ⟨ih.watches, ih.kicks⟩

theorem inert_received (fds : List Int) : Inert (fds.map .received) := by
  induction fds with
  | nil => exact inert_nil
  | cons fd fds ih => exact ⟨ih.watches, ih.kicks⟩

theorem inert_unmap (r : VuDevRegion) : Inert r.unmap := inert_if _ ⟨rfl, rfl⟩

theorem inert_unmapAll (rs : List VuDevRegion) : Inert (rs.flatMap VuDevRegion.unmap) := by
  induction rs with
  | nil => exact inert_nil
  | cons r rs ih =>
      rw [List.flatMap_cons]
      exact (inert_unmap r).append ih

theorem inert_mapRegions {k : Nat} {t : List VuDevRegion × List Effect}
    (hm : mapRegions m x i k = some t) : Inert t.2 := by
  induction k generalizing i t with
  | zero =>
      cases hm
      exact inert_nil
  | succ k ih =>
      simp only [mapRegions, Option.bind_eq_bind, Option.bind_eq_some_iff] at hm
      obtain ⟨addr, _, u, hu, ht⟩ := hm
      cases ht
      exact ⟨(ih hu).watches, (ih hu).kicks⟩

theorem inert_removeRegions (r : VhostUserMemoryRegion) (i : Nat) (rs : List VuDevRegion) :
    Inert (removeRegions r i rs).2 := by
  fun_induction removeRegions r i rs with
  | case1 i rs hi hequal t ih => exact (inert_unmap _).append ih
  | case2 i rs hi hequal ih => exact ih
  | case3 i rs hi => exact inert_nil

theorem inert_check {closed : List Effect} (h : vuCheckQueueMsgFile d m = some closed) : Inert closed := by
  unfold vuCheckQueueMsgFile at h
  split at h
  · cases h
  split at h
  · cases h
    exact inert_closeFds m
  split at h
  · cases h
  · cases h
    exact inert_nil

theorem kicksOf_watch (p : Prop) [Decidable p] (op : WatchOp Unit Nat) :
    kicksOf (if p then [.watch op] else []) = [] := by
  split
  · rfl
  · rfl

theorem kicksOf_dropKick (q : VuQueue) : kicksOf (dropKick q).2 = [] := by
  rw [dropKick_snd]
  split
  · rfl
  · rfl

/-- `tx_kick` is called once, and reads no kick itself. -/
theorem kicksOf_txKick (d : VuDev) (i : Nat) (x : Answer) : kicksOf (txKick d i x).2 = [.txKick i] := by
  obtain ⟨_, es, heffects, rfl | ⟨_, rfl⟩⟩ := txKick_spec d i x
  · rw [heffects]
    rfl
  · rw [heffects]
    rfl

theorem watchOps_txKick (d : VuDev) (i : Nat) (x : Answer) : watchOps (txKick d i x).2 = [] := by
  obtain ⟨_, es, heffects, rfl | ⟨_, rfl⟩⟩ := txKick_spec d i x
  · rw [heffects]
    rfl
  · rw [heffects]
    rfl

/-- Three messages touch the kicks and the table of watches. -/
theorem Handled.kicks (hh : Handled d m x h) :
    d.SameKicks h.dev ∧ Inert h.effects ∨
      m.request.toInt = 11 ∧ vuGetVringBaseExec d m x = .ok h ∨
      m.request.toInt = 12 ∧ vuSetVringKickExec d m x = .ok h ∨
      m.request.toInt = 35 ∧ vuHandleVringKick d m x = .ok h := by
  cases hh with
  | memTable _ h₁ =>
      unfold vuSetMemTableExec at h₁
      split at h₁
      · cases h₁
      split at h₁
      · cases h₁
      rename_i t ht
      split at h₁
      · cases h₁
      rename_i e he
      cases h₁
      refine .inl ⟨?_, ?_⟩
      · obtain ⟨hmax, hkick, hstarted, hhandler⟩ := remapRings_sameKicks he
        exact ⟨hmax, hkick, hstarted, hhandler⟩
      · exact (inert_unmapAll _).append (inert_mapRegions ht)
  | logBase _ h₁ =>
      unfold vuSetLogBaseExec at h₁
      split at h₁
      · cases h₁
      cases h₁
      have hunmap : Inert (if d.logTable ≠ 0 then [.munmap d.logTable d.logSize] else []) :=
        inert_if _ ⟨rfl, rfl⟩
      refine .inl ⟨⟨rfl, fun _ => rfl, fun _ => rfl, fun _ => rfl⟩, ?_⟩
      exact (inert_if _ ⟨rfl, rfl⟩).append ⟨hunmap.watches, hunmap.kicks⟩
  | logFd _ h₁ =>
      unfold vuSetLogFdExec at h₁
      split at h₁
      · cases h₁
      cases h₁
      exact .inl ⟨⟨rfl, fun _ => rfl, fun _ => rfl, fun _ => rfl⟩, inert_closeIf _⟩
  | vringAddr _ h₁ =>
      obtain ⟨_, _, hdev, heffects⟩ := vuSetVringAddrExec_spec h₁
      rw [hdev, heffects]
      exact .inl ⟨sameKicks_setVq rfl rfl rfl, inert_nil⟩
  | vringBase hreq h₁ => exact .inr (.inl ⟨hreq, h₁⟩)
  | vringKick hreq h₁ => exact .inr (.inr (.inl ⟨hreq, h₁⟩))
  | vringCall _ h₁ =>
      unfold vuSetVringCallExec at h₁
      split at h₁
      · cases h₁
      rename_i closed hclosed
      cases h₁
      exact .inl ⟨sameKicks_setVq rfl rfl rfl,
        ((inert_check hclosed).append (inert_closeIf _)).append (inert_if _ ⟨rfl, rfl⟩)⟩
  | vringErr _ h₁ =>
      unfold vuSetVringErrExec at h₁
      split at h₁
      · cases h₁
      rename_i closed hclosed
      cases h₁
      exact .inl ⟨sameKicks_setVq rfl rfl rfl, (inert_check hclosed).append (inert_closeIf _)⟩
  | backendFd _ h₁ =>
      unfold vuSetBackendReqFd at h₁
      split at h₁
      · cases h₁
      cases h₁
      exact .inl ⟨⟨rfl, fun _ => rfl, fun _ => rfl, fun _ => rfl⟩, inert_closeIf _⟩
  | kick hreq h₁ => exact .inr (.inr (.inr ⟨hreq, h₁⟩))
  | addMemReg _ h₁ =>
      unfold vuAddMemReg at h₁
      split at h₁
      · cases h₁
      split at h₁
      · cases h₁
      simp only at h₁
      split at h₁
      · cases h₁
      rename_i e he
      cases h₁
      obtain ⟨hmax, hkick, hstarted, hhandler⟩ := remapRings_sameKicks he
      exact .inl ⟨⟨hmax, hkick, hstarted, hhandler⟩, ⟨rfl, rfl⟩⟩
  | remMemReg _ h₁ =>
      unfold vuRemMemReg at h₁
      split at h₁
      · cases h₁
      simp only at h₁
      split at h₁
      · cases h₁
      cases h₁
      exact .inl ⟨⟨rfl, fun _ => rfl, fun _ => rfl, fun _ => rfl⟩,
        (inert_removeRegions _ _ _).append (inert_closeFds m)⟩
  | quiet _ hq =>
      rw [hq.effects]
      exact .inl ⟨hq.dev.kicks, inert_nil⟩

/-- Four messages touch the table of regions and the addresses of the rings. -/
theorem Handled.rings (hh : Handled d m x h) :
    d.SameRings h.dev ∨
      m.request.toInt = 5 ∧ vuSetMemTableExec d m x = .ok h ∨
      m.request.toInt = 9 ∧ vuSetVringAddrExec d m x = .ok h ∨
      m.request.toInt = 37 ∧ vuAddMemReg d m x = .ok h ∨
      m.request.toInt = 38 ∧ vuRemMemReg d m x = .ok h := by
  cases hh with
  | memTable hreq h₁ => exact .inr (.inl ⟨hreq, h₁⟩)
  | logBase _ h₁ =>
      unfold vuSetLogBaseExec at h₁
      split at h₁
      · cases h₁
      cases h₁
      exact .inl ⟨rfl, rfl, fun _ => rfl, fun _ => rfl, fun _ => rfl, fun _ => rfl⟩
  | logFd _ h₁ =>
      unfold vuSetLogFdExec at h₁
      split at h₁
      · cases h₁
      cases h₁
      exact .inl ⟨rfl, rfl, fun _ => rfl, fun _ => rfl, fun _ => rfl, fun _ => rfl⟩
  | vringAddr hreq h₁ => exact .inr (.inr (.inl ⟨hreq, h₁⟩))
  | vringBase _ h₁ =>
      rw [(vuGetVringBaseExec_spec h₁).2.1]
      exact .inl (sameRings_setVq rfl rfl)
  | vringKick _ h₁ =>
      obtain ⟨_, _, hdev, _⟩ := vuSetVringKickExec_spec h₁
      rw [hdev]
      exact .inl (sameRings_setVq rfl rfl)
  | vringCall _ h₁ =>
      unfold vuSetVringCallExec at h₁
      split at h₁
      · cases h₁
      cases h₁
      exact .inl (sameRings_setVq rfl rfl)
  | vringErr _ h₁ =>
      unfold vuSetVringErrExec at h₁
      split at h₁
      · cases h₁
      cases h₁
      exact .inl (sameRings_setVq rfl rfl)
  | backendFd _ h₁ =>
      unfold vuSetBackendReqFd at h₁
      split at h₁
      · cases h₁
      cases h₁
      exact .inl ⟨rfl, rfl, fun _ => rfl, fun _ => rfl, fun _ => rfl, fun _ => rfl⟩
  | kick _ h₁ =>
      have htied := vuHandleVringKick_tied h₁
      have hset : d.SameRings (d.setVq m.stateIndex ((d.vq m.stateIndex).resumed m.stateIndex)) :=
        sameRings_setVq rfl rfl
      exact .inl (hset.trans htied.rings)
  | addMemReg hreq h₁ => exact .inr (.inr (.inr (.inl ⟨hreq, h₁⟩)))
  | remMemReg hreq h₁ => exact .inr (.inr (.inr (.inr ⟨hreq, h₁⟩)))
  | quiet _ hq => exact .inl hq.dev.rings

/-! ## Descriptors and mappings -/

/-- The interrupt is raised on a descriptor that the queue holds. -/
theorem owns_txKick (hi : i < d.maxQueues) (x : Answer) :
    Owns d.held (acts (txKick d i x).2) (txKick d i x).1.held := by
  obtain ⟨htied, es, heffects, hes⟩ := txKick_spec d i x
  rw [heffects, acts_txKick, htied.held]
  rcases hes with rfl | ⟨hcall, rfl⟩
  · exact .nil
  · have hsome : heldFd (d.vq i).callFd = {.fd (d.vq i).callFd} := heldFd_some (by omega)
    rw [acts_signal]
    refine .use _ (mem_held_queue hi ?_) .nil
    rw [VuQueue.held, hsome]
    simp

theorem vuGetVringBaseExec_owns (h₀ : vuGetVringBaseExec d m x = .ok h) :
    Owns d.held (acts h.effects) h.dev.held := by
  obtain ⟨hi, h₀⟩ := withQueue_cases h₀
  cases h₀
  simp only [queueSetStarted_fst]
  set q := d.vq m.stateIndex
  set q₁ : VuQueue :=
    { q with callFd := -1, started := false, handler := if m.stateIndex = vqTx then false else q.handler }
  have hheld : q.held = heldFd q.callFd + q₁.held := by
    simp only [VuQueue.held, q₁, heldFd_none, zero_add, add_assoc]
  have hclose := (owns_closeIf q.callFd).frame q₁.held
  rw [← hheld, zero_add] at hclose
  have hqueue : Owns (q.held + 0) (acts (closeIf q.callFd) ++ acts (dropKick q₁).2)
      ((dropKick q₁).1.held + 0) := by
    rw [add_zero, add_zero]
    exact hclose.append (owns_dropKick q₁)
  have hdev := owns_setVq hi hqueue
  rw [add_zero, add_zero] at hdev
  simpa using hdev

theorem vuHandleVringKick_owns (h₀ : vuHandleVringKick d m x = .ok h) :
    Owns d.held (acts h.effects) h.dev.held := by
  obtain ⟨hi, hdev, heffects⟩ := vuHandleVringKick_spec h₀
  have hheld : (d.setVq m.stateIndex ((d.vq m.stateIndex).resumed m.stateIndex)).held = d.held :=
    held_setVq_same hi rfl
  have hwatch : ∀ (p : Prop) [Decidable p] (op : WatchOp Unit Nat),
      acts (if p then [.watch op] else []) = [] := by
    intro p _ op
    split <;> simp
  rw [heffects, acts_append, hwatch, List.nil_append, hdev, ← hheld]
  split
  · exact owns_txKick (d := d.setVq _ _) hi x
  · exact .nil

/-- Every descriptor of a proper message is stored, closed or left over. -/
theorem vuProcessMessage_owns (hx : x.MapsSomewhere) (hm : Proper m) (hfds : ∀ fd ∈ m.fds, 0 ≤ fd)
    (hd : MappedRegions d.regions) (h₀ : vuProcessMessage d m x = .ok h) :
    Owns (d.held + heldFds m.fds) (acts h.effects) (h.dev.held + heldFds m.stray) := by
  have hnone : heldFds [] = 0 := rfl
  cases vuProcessMessage_cases h₀ with
  | memTable hreq h₁ =>
      have hstray : m.stray = m.fds.drop m.nregions := by simp [VhostUserMsg.stray, hreq]
      rw [hstray]
      exact (vuSetMemTableExec_owns hx hd (hm.regions hreq) h₁).1
  | logBase hreq h₁ =>
      have hstray : m.stray = [] := by simp [VhostUserMsg.stray, hreq]
      rw [hstray, hnone, add_zero]
      exact vuSetLogBaseExec_owns hx h₁
  | logFd hreq h₁ =>
      have hstray : m.stray = [] := by simp [VhostUserMsg.stray, hreq]
      rw [hstray, hnone, add_zero]
      exact vuSetLogFdExec_owns hfds h₁
  | vringAddr hreq h₁ =>
      have hstray : m.stray = m.fds := by simp [VhostUserMsg.stray, hreq]
      obtain ⟨hi, _, hdev, heffects⟩ := vuSetVringAddrExec_spec h₁
      have hheld : h.dev.held = d.held := by
        rw [hdev]
        exact held_setVq_same hi rfl
      rw [hstray, heffects, hheld]
      exact .nil
  | vringBase hreq h₁ =>
      have hstray : m.stray = m.fds := by simp [VhostUserMsg.stray, hreq]
      rw [hstray]
      exact (vuGetVringBaseExec_owns h₁).frame _
  | vringKick hreq h₁ =>
      have hstray : m.stray = [] := by simp [VhostUserMsg.stray, hreq]
      rw [hstray, hnone, add_zero]
      exact vuSetVringKickExec_owns hfds h₁
  | vringCall hreq h₁ =>
      have hstray : m.stray = [] := by simp [VhostUserMsg.stray, hreq]
      rw [hstray, hnone, add_zero]
      exact vuSetVringCallExec_owns hfds h₁
  | vringErr hreq h₁ =>
      have hstray : m.stray = [] := by simp [VhostUserMsg.stray, hreq]
      rw [hstray, hnone, add_zero]
      exact vuSetVringErrExec_owns hfds h₁
  | backendFd hreq h₁ =>
      have hstray : m.stray = [] := by simp [VhostUserMsg.stray, hreq]
      rw [hstray, hnone, add_zero]
      exact vuSetBackendReqFd_owns hfds h₁
  | kick hreq h₁ =>
      have hstray : m.stray = m.fds := by simp [VhostUserMsg.stray, hreq]
      rw [hstray]
      exact (vuHandleVringKick_owns h₁).frame _
  | addMemReg hreq h₁ =>
      have hstray : m.stray = [] := by simp [VhostUserMsg.stray, hreq]
      rw [hstray, hnone, add_zero]
      exact (vuAddMemReg_owns hx hd h₁).1
  | remMemReg hreq h₁ =>
      have hstray : m.stray = [] := by simp [VhostUserMsg.stray, hreq]
      rw [hstray, hnone, add_zero]
      exact (vuRemMemReg_owns hd h₁).1
  | quiet hstray hq =>
      rw [hstray, hq.effects, hq.dev.held]
      exact .nil

end Vlog.Vhost
