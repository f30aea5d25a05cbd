import Vlog.Vhost.Lemmas.Handlers
import Vlog.Vhost.Lemmas.Watch
import Vlog.Vhost.Process

/-!
# The loop of the backend keeps what it holds

The table of watches has the kick of the transmit queue and nothing else. A message keeps it that way, as two
queues never hold the same descriptor, and a callback changes nothing of it.
-/

namespace Vlog.Vhost

open Vlog.Lib
open Vlog.Emulator (Pollfd pollin pollhup)

variable {d d' : VuDev} {m : VhostUserMsg} {x : Answer} {h : Handling} {b b' : Backend} {es : List Effect}
  {p : Packet} {i : Nat} {w : Watches Unit Nat} {fd : Int}

theorem except_bind_ok {ε α β : Type} {e : Except ε α} {k : α → Except ε β} {r : β} :
    e >>= k = .ok r ↔ ∃ a, e = .ok a ∧ k a = .ok r := by
  cases e with
  | error _ => simp [bind, Except.bind]
  | ok a => simp [bind, Except.bind]

/-! ## Messages -/

theorem read_fds (h₀ : vuMessageReadDefault p = .ok m) : m.fds = p.fds := by
  unfold vuMessageReadDefault at h₀
  split at h₀
  · cases h₀
  split at h₀
  · cases h₀
  split at h₀
  · cases h₀
  split at h₀
  · cases h₀
    rfl
  split at h₀
  · cases h₀
  · cases h₀
  split at h₀
  · cases h₀
    rfl
  · cases h₀

theorem read_request (h₀ : vuMessageReadDefault p = .ok m) :
    ∃ flags size, p.header = some (m.request, flags, size) := by
  unfold vuMessageReadDefault at h₀
  split at h₀
  · cases h₀
  rename_i request flags size hheader
  have hrequest : m.request = request := by
    split at h₀
    · cases h₀
    split at h₀
    · cases h₀
    split at h₀
    · cases h₀
      rfl
    split at h₀
    · cases h₀
    · cases h₀
    split at h₀
    · cases h₀
      rfl
    · cases h₀
  exact ⟨flags, size, by rw [hheader, hrequest]⟩

/-- A message is proper by its request, unless it brings a table. -/
theorem proper_of_header {request : Int32} {flags size : UInt32} (hp : p.header = some (request, flags, size))
    (hrequest : request.toInt ∉ [5, 28, 29, 30, 31, 32]) (h₀ : vuMessageReadDefault p = .ok m) : Proper m := by
  obtain ⟨_, _, hheader⟩ := read_request h₀
  cases hp.symm.trans hheader
  simp only [List.mem_cons, not_or] at hrequest
  exact ⟨fun hno => absurd hno hrequest.1, by simpa [VhostUserMsg.Extended] using hrequest.2⟩

theorem finishDispatch_spec {r : Dispatched} (h₀ : finishDispatch m h x = .ok r) :
    r.dev = h.dev ∧ r.effects = m.fds.map .received ++ h.effects := by
  unfold finishDispatch at h₀
  simp only at h₀
  split at h₀
  · cases h₀
    exact ⟨rfl, rfl⟩
  split at h₀
  · cases h₀
    exact ⟨rfl, rfl⟩
  · cases h₀

theorem vuDispatch_spec {r : Dispatched} (h₀ : vuDispatch d p x = .ok r) :
    ∃ m h, vuMessageReadDefault p = .ok m ∧ vuProcessMessage d m x = .ok h ∧ r.dev = h.dev ∧
      r.effects = m.fds.map .received ++ h.effects := by
  obtain ⟨m, hread, h₀⟩ := except_bind_ok.mp h₀
  obtain ⟨h, hprocess, h₀⟩ := except_bind_ok.mp h₀
  exact ⟨m, h, hread, hprocess, finishDispatch_spec h₀⟩

/-! ## The table of watches -/

@[simp] theorem applyAll_nil (w : Watches Unit Nat) : w.applyAll [] = w := rfl

@[simp] theorem applyAll_cons (w : Watches Unit Nat) (o : WatchOp Unit Nat) (ops : List (WatchOp Unit Nat)) :
    w.applyAll (o :: ops) = (w.apply o).applyAll ops := rfl

theorem removeWatch_single {r : Watch Unit Nat} (hw : w.rows = [r]) : (removeWatch w r.fd).rows = [] := by
  simp [removeWatch, hw, swapRemove]

theorem setWatch_empty (hw : w.rows = []) :
    (setWatch w fd () i).rows = [{ fd := fd, cb := (), data := i }] := by
  simp [setWatch, hw, maxw]

theorem setWatch_single (hw : w.rows = [{ fd := fd, cb := (), data := i }]) :
    (setWatch w fd () i).rows = [{ fd := fd, cb := (), data := i }] := by
  simp [setWatch, hw]

theorem removeWatch_other (hw : ∀ r ∈ w.rows, r.fd ≠ fd) : removeWatch w fd = w := by
  apply removeWatch_absent
  rw [List.findIdx?_eq_none_iff]
  intro r hr
  simpa using hw r hr

theorem removeWatch_empty (hw : w.rows = []) : removeWatch w fd = w :=
  removeWatch_other (by simp [hw])

/-- Two queues hold no descriptor in common. -/
theorem held_distinct {j : Nat} {r : Resource} (hd : d.held.Nodup) (hi : i < d.maxQueues)
    (hj : j < d.maxQueues) (hne : i ≠ j) (hr : r ∈ (d.vq i).held) : r ∉ (d.vq j).held := by
  have hqueues : d.heldQueues.Nodup := by
    have hle : d.heldQueues ≤ d.held := by
      simp only [VuDev.held, add_assoc]
      exact Multiset.le_add_right _ _
    exact Multiset.nodup_of_le hle hd
  rw [VuDev.heldQueues, ← Finset.add_sum_erase _ _ (Finset.mem_range.mpr hi), Multiset.nodup_add]
    at hqueues
  have hmem : j ∈ (Finset.range d.maxQueues).erase i :=
    Finset.mem_erase.mpr ⟨hne.symm, Finset.mem_range.mpr hj⟩
  have hle : (d.vq j).held ≤ ∑ k ∈ (Finset.range d.maxQueues).erase i, (d.vq k).held :=
    Finset.single_le_sum (f := fun k => (d.vq k).held) (fun _ _ => Multiset.zero_le _) hmem
  intro hr'
  exact Multiset.disjoint_left.mp hqueues.2.2 hr (Multiset.mem_of_le hle hr')

structure Backend.Watched (b : Backend) : Prop where
  queues : b.dev.maxQueues = 2
  rows : b.w.rows = b.dev.txWatch
  stopped : ∀ i, (b.dev.vq i).started = false → (b.dev.vq i).kickFd = -1
  handler : ∀ i ≠ vqTx, (b.dev.vq i).handler = false
  handlerTx : (b.dev.vq vqTx).handler = (b.dev.vq vqTx).started
  kickFd : ∀ i, (b.dev.vq i).kickFd = -1 ∨ 0 ≤ (b.dev.vq i).kickFd

theorem Backend.Watched.kicked (hb : b.Watched) (hne : (b.dev.vq vqTx).kickFd ≠ -1) :
    (b.dev.vq vqTx).handler = true := by
  rw [hb.handlerTx]
  by_contra hstopped
  exact hne (hb.stopped vqTx (by simpa using hstopped))

theorem mem_held_kickFd (h : (d.vq i).kickFd ≠ -1) : .fd (d.vq i).kickFd ∈ (d.vq i).held := by
  have hsome : heldFd (d.vq i).kickFd = {.fd (d.vq i).kickFd} := heldFd_some h
  rw [VuQueue.held, hsome]
  simp

/-- The kick of another queue is not in the table. -/
theorem Backend.Watched.other (hb : b.Watched) (hheld : b.dev.held.Nodup) (hi : i < b.dev.maxQueues)
    (hne : i ≠ vqTx) : removeWatch b.w (b.dev.vq i).kickFd = b.w ∨ (b.dev.vq i).kickFd = -1 := by
  by_cases hnone : (b.dev.vq i).kickFd = -1
  · exact .inr hnone
  refine .inl (removeWatch_other ?_)
  intro r hr heq
  rw [hb.rows, VuDev.txWatch] at hr
  split at hr
  · cases hr
  rename_i htx
  cases List.mem_singleton.mp hr
  have hlt : vqTx < b.dev.maxQueues := by
    rw [hb.queues]
    decide
  have hmem := mem_held_kickFd hnone
  rw [← heq] at hmem
  exact held_distinct hheld hi hlt hne hmem (mem_held_kickFd htx)

theorem VuDev.SameKicks.txWatch (hd : d.SameKicks d') : d'.txWatch = d.txWatch := by
  rw [VuDev.txWatch, hd.kickFd, VuDev.txWatch]

theorem Backend.Watched.same (hb : b.Watched) (hd : b.dev.SameKicks d') :
    Backend.Watched { dev := d', w := b.w } where
  queues := hd.maxQueues.trans hb.queues
  rows := hb.rows.trans hd.txWatch.symm
  stopped i hi := (hd.kickFd i).trans (hb.stopped i ((hd.started i).symm.trans hi))
  handler i hi := (hd.handler i).trans (hb.handler i hi)
  handlerTx := by rw [hd.handler, hd.started, hb.handlerTx]
  kickFd i := by
    rw [hd.kickFd]
    exact hb.kickFd i

/-- The operations of `vu_get_vring_base_exec` and `vu_set_vring_kick_exec` that take the old kick out. -/
theorem Backend.Watched.drop (hb : b.Watched) (hheld : b.dev.held.Nodup) (hi : i < b.dev.maxQueues) :
    (b.w.applyAll (watchOps (dropKick (b.dev.vq i)).2)).rows =
      if i = vqTx then [] else b.dev.txWatch := by
  rw [dropKick_snd]
  by_cases hnone : (b.dev.vq i).kickFd = -1
  · rw [if_neg (by simpa using hnone), watchOps_nil, applyAll_nil, hb.rows]
    split
    · rename_i htx
      rw [VuDev.txWatch, ← htx, if_pos hnone]
    · rfl
  · rw [if_pos hnone, watchOps_watch]
    change (removeWatch b.w (b.dev.vq i).kickFd).rows = _
    split
    · rename_i htx
      rw [htx] at hnone ⊢
      have hrows : b.w.rows = [{ fd := (b.dev.vq vqTx).kickFd, cb := (), data := vqTx }] := by
        rw [hb.rows, VuDev.txWatch, if_neg hnone]
      exact removeWatch_single hrows
    · rename_i htx
      rw [(hb.other hheld hi htx).resolve_right hnone, hb.rows]

theorem drop_empty (hw : w.rows = []) (q : VuQueue) :
    (w.applyAll (watchOps (dropKick q).2)).rows = [] := by
  rw [dropKick_snd]
  split
  · change (removeWatch w q.kickFd).rows = []
    rw [removeWatch_empty hw, hw]
  · exact hw

theorem txWatch_setVq_self (d : VuDev) (q : VuQueue) : (d.setVq vqTx q).txWatch =
    if q.kickFd = -1 then [] else [{ fd := q.kickFd, cb := (), data := vqTx }] := by
  rw [VuDev.txWatch, setVq_self]

theorem txWatch_setVq_of_ne (hi : i ≠ vqTx) (d : VuDev) (q : VuQueue) :
    (d.setVq i q).txWatch = d.txWatch := by
  rw [VuDev.txWatch, setVq_of_ne hi.symm, VuDev.txWatch]

theorem Backend.Watched.setVq {q : VuQueue} (hb : b.Watched) (hrows : w.rows = (b.dev.setVq i q).txWatch)
    (hstopped : q.started = false → q.kickFd = -1) (hhandler : i ≠ vqTx → q.handler = false)
    (htx : i = vqTx → q.handler = q.started) (hkick : q.kickFd = -1 ∨ 0 ≤ q.kickFd) :
    Backend.Watched { dev := b.dev.setVq i q, w := w } := by
  have hvq : ∀ j, j = i ∧ (b.dev.setVq i q).vq j = q ∨ (b.dev.setVq i q).vq j = b.dev.vq j := by
    intro j
    by_cases hj : j = i
    · subst hj
      exact .inl ⟨rfl, setVq_self ..⟩
    · exact .inr (setVq_of_ne hj ..)
  constructor
  case queues => exact hb.queues
  case rows => exact hrows
  case stopped =>
    intro j hj
    rcases hvq j with ⟨_, heq⟩ | heq
    · rw [heq] at hj ⊢
      exact hstopped hj
    · rw [heq] at hj ⊢
      exact hb.stopped j hj
  case handler =>
    intro j hj
    rcases hvq j with ⟨rfl, heq⟩ | heq
    · rw [heq]
      exact hhandler hj
    · rw [heq]
      exact hb.handler j hj
  case handlerTx =>
    rcases hvq vqTx with ⟨hi, heq⟩ | heq
    · rw [heq]
      exact htx hi.symm
    · rw [heq]
      exact hb.handlerTx
  case kickFd =>
    intro j
    rcases hvq j with ⟨_, heq⟩ | heq
    · rw [heq]
      exact hkick
    · rw [heq]
      exact hb.kickFd j

theorem Backend.Watched.base (hb : b.Watched) (hheld : b.dev.held.Nodup)
    (h₀ : vuGetVringBaseExec b.dev m x = .ok h) :
    Backend.Watched { dev := h.dev, w := b.w.applyAll (watchOps h.effects) } := by
  obtain ⟨hi, hdev, heffects⟩ := vuGetVringBaseExec_spec h₀
  rw [hdev, heffects]
  refine hb.setVq ?_ (fun _ => rfl) ?_ (fun htx => if_pos htx) (.inl rfl)
  · simp only [watchOps_append, (inert_closeIf _).watches, List.append_nil, applyAll_append]
    by_cases htx : m.stateIndex = vqTx
    · rw [htx, txWatch_setVq_self]
      -- The handler has taken the kick out already, and there is nothing left to remove.
      have hnone : (b.w.applyAll (watchOps (if vqTx = vqTx ∧ 0 ≤ (b.dev.vq vqTx).kickFd then
          [.watch (.remove (b.dev.vq vqTx).kickFd)] else []))).rows = [] := by
        rcases hb.kickFd vqTx with hkick | hkick
        · rw [hkick]
          simp [hb.rows, VuDev.txWatch, hkick]
        · have hsome : (b.dev.vq vqTx).kickFd ≠ -1 := by omega
          have hrows : b.w.rows = [{ fd := (b.dev.vq vqTx).kickFd, cb := (), data := vqTx }] := by
            rw [hb.rows, VuDev.txWatch, if_neg hsome]
          rw [if_pos ⟨rfl, hkick⟩]
          exact removeWatch_single hrows
      exact drop_empty hnone _
    · rw [txWatch_setVq_of_ne htx, if_neg fun hne => htx hne.1, watchOps_nil, applyAll_nil,
        hb.drop hheld hi, if_neg htx]
  · intro hne
    simp only [VuQueue.stopped, if_neg hne]
    exact hb.handler _ hne

theorem newFd_mem {closed : List Effect} (hclosed : vuCheckQueueMsgFile d m = some closed) :
    m.newFd = -1 ∨ m.newFd ∈ m.fds := by
  unfold vuCheckQueueMsgFile at hclosed
  split at hclosed
  · cases hclosed
  split at hclosed
  · rename_i hnofd
    exact .inl (if_pos hnofd)
  · rename_i hnofd
    split at hclosed
    · cases hclosed
    rename_i hlen
    obtain ⟨fd, hfd⟩ := List.length_eq_one_iff.mp (by simpa using hlen)
    exact .inr (by simp [VhostUserMsg.newFd, hnofd, VhostUserMsg.fd, hfd])

theorem Backend.Watched.kick (hb : b.Watched) (hheld : b.dev.held.Nodup) (hfds : ∀ fd ∈ m.fds, 0 ≤ fd)
    (h₀ : vuSetVringKickExec b.dev m x = .ok h) :
    Backend.Watched { dev := h.dev, w := b.w.applyAll (watchOps h.effects) } := by
  obtain ⟨closed, hclosed, hdev, heffects⟩ := vuSetVringKickExec_spec h₀
  obtain ⟨hi, _⟩ := check_owns hfds hclosed
  have hnew : m.newFd = -1 ∨ 0 ≤ m.newFd := (newFd_mem hclosed).imp_right (hfds _)
  rw [hdev, heffects]
  refine hb.setVq ?_ (fun hno => nomatch hno) ?_ (fun htx => if_pos htx) hnew
  · simp only [watchOps_append, (inert_check hclosed).watches, List.nil_append, applyAll_append]
    have hdrop := hb.drop hheld hi
    by_cases htx : m.vringIndex = vqTx
    · rw [htx] at hdrop ⊢
      rw [if_pos rfl] at hdrop
      rw [txWatch_setVq_self]
      rcases hnew with hnone | hsome
      · simp only [hnone, VuQueue.kicked]
        exact hdrop
      · have hne : m.newFd ≠ -1 := by omega
        have hboth : m.newFd ≠ -1 ∧ ((b.dev.vq vqTx).kicked vqTx m.newFd).handler := ⟨hne, rfl⟩
        rw [if_pos ⟨rfl, hsome⟩, if_pos hboth]
        simp only [VuQueue.kicked, if_neg hne]
        exact setWatch_single (setWatch_empty hdrop)
    · have hno : ((b.dev.vq m.vringIndex).kicked m.vringIndex m.newFd).handler = false := by
        simp only [VuQueue.kicked, if_neg htx]
        exact hb.handler _ htx
      rw [if_neg fun hne => htx hne.1, if_neg (by simp [hno]), txWatch_setVq_of_ne htx]
      simpa [htx] using hdrop
  · intro hne
    simp only [VuQueue.kicked, if_neg hne]
    exact hb.handler _ hne

/-- Once it is started, the transmit queue has its handler. -/
theorem Backend.Watched.resumed (hb : b.Watched) : ((b.dev.vq vqTx).resumed vqTx).handler = true := by
  unfold VuQueue.resumed
  simp only
  split
  · rfl
  · rename_i hstarted
    rw [hb.handlerTx]
    simpa using hstarted

/-- A queue that is not started has no kick, so there is nothing to watch for it. -/
theorem Backend.Watched.inband (hb : b.Watched) (h₀ : vuHandleVringKick b.dev m x = .ok h) :
    Backend.Watched { dev := h.dev, w := b.w.applyAll (watchOps h.effects) } := by
  obtain ⟨_, _, heffects⟩ := vuHandleVringKick_spec h₀
  have hops : watchOps h.effects = [] := by
    rw [heffects, if_neg ?_, List.nil_append]
    · split
      · exact watchOps_txKick ..
      · rfl
    · rintro ⟨hstarted, _, hkick⟩
      have hnone := hb.stopped _ hstarted
      omega
  rw [hops, applyAll_nil]
  refine Backend.Watched.same (b := { dev := b.dev.setVq m.stateIndex _, w := b.w }) ?_
    (vuHandleVringKick_tied h₀).kicks
  refine hb.setVq ?_ (fun hno => nomatch hno) ?_ ?_ (hb.kickFd _)
  · rw [hb.rows]
    by_cases htx : m.stateIndex = vqTx
    · rw [htx, txWatch_setVq_self]
      rfl
    · rw [txWatch_setVq_of_ne htx]
  · intro hne
    simp only [VuQueue.resumed, hne, and_false, if_false]
    exact hb.handler _ hne
  · rintro htx
    rw [htx]
    exact hb.resumed

theorem Backend.Watched.message (hb : b.Watched) (hheld : b.dev.held.Nodup)
    (hfds : ∀ fd ∈ m.fds, 0 ≤ fd) (h₀ : vuProcessMessage b.dev m x = .ok h) :
    Backend.Watched { dev := h.dev, w := b.w.applyAll (watchOps h.effects) } := by
  rcases (vuProcessMessage_cases h₀).kicks with ⟨hsame, hinert⟩ | ⟨_, h₁⟩ | ⟨_, h₁⟩ | ⟨_, h₁⟩
  · rw [hinert.watches, applyAll_nil]
    exact hb.same hsame
  · exact hb.base hheld h₁
  · exact hb.kick hheld hfds h₁
  · exact hb.inband h₁

/-! ## Callbacks -/

theorem VuDev.Tied.txWatch (hd : d.Tied d') : d'.txWatch = d.txWatch := hd.kicks.txWatch

/-- What the turn of an entry of the snapshot does. -/
theorem Backend.Watched.serve {kick : Nat → Answer} {k : Nat} {p : Pollfd} (hb : b.Watched)
    (hp : p.fd ≠ -1) (h₀ : b.serve kick k [p] = .ok (b', es)) :
    if p.revents &&& pollin ≠ 0 ∧ (b.dev.vq vqTx).kickFd = p.fd then
      b' = { dev := (txKick b.dev vqTx (kick k)).1, w := b.w } ∧
        es = .drain p.fd :: (txKick b.dev vqTx (kick k)).2
    else b' = b ∧ es = [] := by
  rw [Backend.serve] at h₀
  by_cases hin : p.revents &&& pollin = 0
  · rw [if_pos hin] at h₀
    rw [if_neg fun hno => hno.1 hin]
    cases h₀
    exact ⟨rfl, rfl⟩
  rw [if_neg hin, hb.rows, VuDev.txWatch] at h₀
  by_cases hfd : (b.dev.vq vqTx).kickFd = p.fd
  · rw [if_pos ⟨hin, hfd⟩]
    rw [if_neg (hfd ▸ hp)] at h₀
    simp only [hfd, List.find?_cons, decide_true] at h₀
    obtain ⟨t, ht, h₀⟩ := except_bind_ok.mp h₀
    unfold vuKickCb at ht
    split at ht
    · rw [if_pos (hb.kicked (hfd ▸ hp)), hfd] at ht
      cases ht
      obtain ⟨u, hu, h₀⟩ := except_bind_ok.mp h₀
      cases hu
      cases h₀
      have hops : watchOps (.drain p.fd :: (txKick b.dev vqTx (kick k)).2) = [] := watchOps_txKick ..
      refine ⟨?_, List.append_nil _⟩
      rw [hops]
      rfl
    · cases ht
  · rw [if_neg fun hno => hfd hno.2]
    have hnone : (if (b.dev.vq vqTx).kickFd = -1 then [] else
        [({ fd := (b.dev.vq vqTx).kickFd, cb := (), data := vqTx } : Watch Unit Nat)]).find?
        (Watch.fd · = p.fd) = none := by
      split
      · rfl
      · simp [hfd]
    rw [hnone] at h₀
    cases h₀
    exact ⟨rfl, rfl⟩

theorem Backend.Watched.polled_cases (hb : b.Watched) (y : Iteration) :
    (b.dev.vq vqTx).kickFd = -1 ∧ b.polled y = [] ∨
      (b.dev.vq vqTx).kickFd ≠ -1 ∧
        b.polled y = [{ fd := (b.dev.vq vqTx).kickFd, revents := y.revents 1 }] := by
  rw [Backend.polled, hb.rows, VuDev.txWatch]
  split
  · rename_i hnone
    exact .inl ⟨hnone, rfl⟩
  · rename_i hne
    exact .inr ⟨hne, rfl⟩

/-! ## One iteration -/

variable {y : Iteration}

theorem dispatch_cases (h₀ : b.dispatch y = .ok (b', es)) :
    ¬ y.dispatches ∧ b' = b ∧ es = [] ∨
      y.dispatches ∧ ∃ m h, vuMessageReadDefault y.packet = .ok m ∧
        vuProcessMessage b.dev m y.answer = .ok h ∧
        b' = { dev := h.dev, w := b.w.applyAll (watchOps h.effects) } ∧
        es = m.fds.map .received ++ h.effects := by
  unfold Backend.dispatch at h₀
  by_cases hy : y.dispatches
  · rw [if_pos hy] at h₀
    obtain ⟨r, hr, h₀⟩ := except_bind_ok.mp h₀
    obtain ⟨m, h, hread, hprocess, hdev, heffects⟩ := vuDispatch_spec hr
    have hops : watchOps r.effects = watchOps h.effects := by
      rw [heffects, watchOps_append, (inert_received _).watches, List.nil_append]
    cases h₀
    exact .inr ⟨hy, m, h, hread, hprocess, by rw [hops, hdev], heffects⟩
  · rw [if_neg hy] at h₀
    cases h₀
    exact .inl ⟨hy, rfl, rfl⟩

theorem iterate_cases (h₀ : b.iterate y = .ok (b', es)) :
    ∃ b₁ fs gs, b.dispatch y = .ok (b₁, fs) ∧ b₁.serve y.kick 1 (b.polled y) = .ok (b', gs) ∧
      es = fs ++ gs := by
  obtain ⟨r, hr, h₀⟩ := except_bind_ok.mp h₀
  obtain ⟨t, ht, h₀⟩ := except_bind_ok.mp h₀
  cases h₀
  exact ⟨r.1, r.2, t.2, hr, ht, rfl⟩

theorem vuProcessMessage_mapped (hx : x.MapsSomewhere) (hm : Proper m)
    (hd : MappedRegions d.regions) (h₀ : vuProcessMessage d m x = .ok h) :
    MappedRegions h.dev.regions := by
  rcases (vuProcessMessage_cases h₀).rings with hsame | ⟨hreq, h₁⟩ | ⟨_, h₁⟩ | ⟨_, h₁⟩ | ⟨_, h₁⟩
  · rwa [hsame.regions]
  · exact (vuSetMemTableExec_owns hx hd (hm.regions hreq) h₁).2
  · obtain ⟨_, _, hdev, _⟩ := vuSetVringAddrExec_spec h₁
    rw [hdev]
    exact hd
  · exact (vuAddMemReg_owns hx hd h₁).2
  · exact (vuRemMemReg_owns hd h₁).2

theorem dispatch_owns (hy : y.Sound) (hd : MappedRegions b.dev.regions)
    (h₀ : b.dispatch y = .ok (b', es)) :
    Owns b.dev.held (acts es) (b'.dev.held + heldFds y.stray) ∧ MappedRegions b'.dev.regions := by
  rcases dispatch_cases h₀ with ⟨hno, rfl, rfl⟩ | ⟨hyes, m, h, hread, hprocess, rfl, rfl⟩
  · have hnone : heldFds [] = 0 := rfl
    rw [Iteration.stray, if_neg hno, hnone, add_zero]
    exact ⟨.nil, hd⟩
  · have hfds : ∀ fd ∈ m.fds, 0 ≤ fd := by
      rw [read_fds hread]
      exact hy.fds
    have hm := hy.proper m hread
    have hstray : y.stray = m.stray := by rw [Iteration.stray, if_pos hyes, hread]
    have hreceived := (owns_received m.fds).frame b.dev.held
    rw [zero_add, add_comm (heldFds _)] at hreceived
    rw [hstray, acts_append]
    exact ⟨hreceived.append (vuProcessMessage_owns hy.maps hm hfds hd hprocess),
      vuProcessMessage_mapped hy.maps hm hd hprocess⟩

theorem Backend.Watched.dispatch (hb : b.Watched) (hheld : b.dev.held.Nodup) (hy : y.Sound)
    (h₀ : b.dispatch y = .ok (b', es)) : b'.Watched := by
  rcases dispatch_cases h₀ with ⟨_, rfl, _⟩ | ⟨_, m, h, hread, hprocess, rfl, _⟩
  · exact hb
  · refine hb.message hheld ?_ hprocess
    rw [read_fds hread]
    exact hy.fds

end Vlog.Vhost
