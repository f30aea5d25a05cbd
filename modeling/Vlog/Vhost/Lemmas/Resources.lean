import Vlog.Vhost.Resources

/-!
# What the handlers do with descriptors and mappings

Each handler keeps or releases what the state held and what came with the message. The lemmas of one
queue and of one table are lifted to the device by the frame rule.
-/

namespace Vlog.Vhost

open Vlog.Lib

variable {d d' : VuDev} {m : VhostUserMsg} {x : Answer} {q q' : VuQueue} {h : Handling} {i : Nat}
  {es fs : List Effect} {H H' K : Multiset Resource}

/-! ## Acts -/

@[simp] theorem acts_nil : acts [] = [] := rfl

@[simp] theorem acts_append (es fs : List Effect) : acts (es ++ fs) = acts es ++ acts fs := by
  simp [acts]

@[simp] theorem acts_watch (op : WatchOp Unit Nat) (es : List Effect) :
    acts (.watch op :: es) = acts es := by simp [acts, Effect.acts]

@[simp] theorem acts_signal (fd : Int) (es : List Effect) :
    acts (.signal fd :: es) = .use (.fd fd) :: acts es := by simp [acts, Effect.acts]

@[simp] theorem acts_drain (fd : Int) (es : List Effect) :
    acts (.drain fd :: es) = .use (.fd fd) :: acts es := by simp [acts, Effect.acts]

@[simp] theorem acts_close (fd : Int) (es : List Effect) :
    acts (.close fd :: es) = .release (.fd fd) :: acts es := by simp [acts, Effect.acts]

@[simp] theorem acts_mmap (addr len : UInt64) (es : List Effect) :
    acts (.mmap addr len :: es) = .acquire (.map addr len) :: acts es := by simp [acts, Effect.acts]

theorem acts_munmap {addr : UInt64} (h : addr ≠ mapFailed) (len : UInt64) (es : List Effect) :
    acts (.munmap addr len :: es) = .release (.map addr len) :: acts es := by
  simp [acts, Effect.acts, h]

@[simp] theorem acts_munmap_failed (len : UInt64) (es : List Effect) :
    acts (.munmap mapFailed len :: es) = acts es := by simp [acts, Effect.acts]

@[simp] theorem acts_txKick (i : Nat) (es : List Effect) : acts (.txKick i :: es) = acts es := by
  simp [acts, Effect.acts]

@[simp] theorem acts_received (fd : Int) (es : List Effect) :
    acts (.received fd :: es) = .acquire (.fd fd) :: acts es := by simp [acts, Effect.acts]

/-! ## Single resources -/

@[simp] theorem heldFd_none : heldFd (-1) = 0 := rfl

theorem heldFd_some {fd : Int} (h : fd ≠ -1) : heldFd fd = {.fd fd} := if_neg h

theorem owns_closeIf (fd : Int) : Owns (heldFd fd) (acts (closeIf fd)) 0 := by
  unfold closeIf
  by_cases h : fd = -1
  · rw [if_neg (by simpa using h), h]
    exact .nil
  · rw [if_pos h, heldFd_some h, acts_close]
    exact .release _ .nil

theorem owns_closeFds (m : VhostUserMsg) : Owns (heldFds m.fds) (acts (vmsgCloseFds m)) 0 := by
  have hacts : acts (vmsgCloseFds m) = (m.fds.map Resource.fd).map .release := by
    unfold vmsgCloseFds
    induction m.fds with
    | nil => rfl
    | cons fd fds ih => simp [ih]
  rw [hacts]
  exact Owns.releases _

theorem owns_received (fds : List Int) : Owns 0 (acts (fds.map .received)) (heldFds fds) := by
  have hacts : acts (fds.map .received) = (fds.map Resource.fd).map .acquire := by
    induction fds with
    | nil => rfl
    | cons fd fds ih => simp [ih]
  rw [hacts]
  exact Owns.acquires _

theorem owns_unmap {r : VuDevRegion} (h : r.mmapAddr ≠ 0 ∧ r.mmapAddr ≠ mapFailed) :
    Owns {.map r.mmapAddr r.mmapLen} (acts r.unmap) 0 := by
  rw [VuDevRegion.unmap, if_pos h.1, acts_munmap h.2]
  exact .release _ .nil

/-- `if (dev->log_table) munmap(dev->log_table, dev->log_size);` -/
theorem owns_unmapLog (d : VuDev) :
    Owns d.heldLog (acts (if d.logTable ≠ 0 then [.munmap d.logTable d.logSize] else [])) 0 := by
  unfold VuDev.heldLog
  by_cases hzero : d.logTable = 0
  · rw [if_pos (.inl hzero), if_neg (by simpa using hzero)]
    exact .nil
  rw [if_pos hzero]
  by_cases hfailed : d.logTable = mapFailed
  · rw [if_pos (.inr hfailed), hfailed, acts_munmap_failed]
    exact .nil
  · rw [if_neg (by simp [hzero, hfailed]), acts_munmap hfailed]
    exact .release _ .nil

theorem heldFds_single (h : m.fds.length = 1) : heldFds m.fds = {.fd (m.fd 0)} := by
  obtain ⟨fd, hfds⟩ := List.length_eq_one_iff.mp h
  simp [heldFds, VhostUserMsg.fd, hfds]

/-! ## Tables of regions -/

@[simp] theorem heldRegions_nil : heldRegions [] = 0 := rfl

@[simp] theorem heldRegions_cons (r : VuDevRegion) (rs : List VuDevRegion) :
    heldRegions (r :: rs) = .map r.mmapAddr r.mmapLen ::ₘ heldRegions rs := by
  simp [heldRegions]

@[simp] theorem heldRegions_append (rs ss : List VuDevRegion) :
    heldRegions (rs ++ ss) = heldRegions rs + heldRegions ss := by
  simp [heldRegions, ← Multiset.coe_add]

def MappedRegions (rs : List VuDevRegion) : Prop := ∀ r ∈ rs, r.mmapAddr ≠ 0 ∧ r.mmapAddr ≠ mapFailed

theorem owns_unmapAll {rs : List VuDevRegion} (h : MappedRegions rs) :
    Owns (heldRegions rs) (acts (rs.flatMap VuDevRegion.unmap)) 0 := by
  induction rs with
  | nil => exact .nil
  | cons r rs ih =>
      have hone := (owns_unmap (h r List.mem_cons_self)).frame (heldRegions rs)
      rw [zero_add, Multiset.singleton_add] at hone
      rw [heldRegions_cons, List.flatMap_cons, acts_append]
      exact hone.append (ih fun r' hr' => h r' (List.mem_cons_of_mem _ hr'))

theorem mapRegions_owns {k : Nat} {t : List VuDevRegion × List Effect} (hx : x.MapsSomewhere)
    (hm : mapRegions m x i k = some t) (hk : i + k ≤ m.fds.length) :
    Owns (heldFds ((m.fds.drop i).take k)) (acts t.2) (heldRegions t.1) ∧ MappedRegions t.1 ∧
      t.1.length = k := by
  induction k generalizing i t with
  | zero =>
      cases hm
      exact ⟨by simpa [heldFds] using .nil, by simp [MappedRegions], rfl⟩
  | succ k ih =>
      simp only [mapRegions, Option.bind_eq_bind, Option.bind_eq_some_iff] at hm
      obtain ⟨addr, haddr, u, hu, ht⟩ := hm
      cases ht
      obtain ⟨howns, hmapped, hlen⟩ := ih hu (by omega)
      have hi : i < m.fds.length := by omega
      have hfd : m.fd i = m.fds[i] := by simp [VhostUserMsg.fd, List.getD_eq_getElem?_getD, hi]
      have hfds : heldFds ((m.fds.drop i).take (k + 1)) =
          .fd (m.fd i) ::ₘ heldFds ((m.fds.drop (i + 1)).take k) := by
        rw [List.drop_eq_getElem_cons hi, List.take_succ_cons, hfd]
        simp [heldFds]
      refine ⟨?_, ?_, by simp [hlen]⟩
      · rw [acts_mmap, acts_close, heldRegions_cons, hfds]
        refine .acquire _ ?_
        rw [Multiset.cons_swap]
        exact .release _ (howns.cons _)
      · intro r hr
        rcases List.mem_cons.mp hr with rfl | hr
        · exact hx i addr haddr
        · exact hmapped r hr

theorem removeRegions_owns (r : VhostUserMemoryRegion) (i : Nat) (rs : List VuDevRegion)
    (hrs : MappedRegions rs) :
    Owns (heldRegions rs) (acts (removeRegions r i rs).2) (heldRegions (removeRegions r i rs).1) ∧
      (removeRegions r i rs).1.Sublist rs := by
  fun_induction removeRegions r i rs with
  | case1 i rs hi hequal t ih =>
      have hsplit : rs = rs.take i ++ rs[i] :: rs.drop (i + 1) := by
        rw [List.getElem_cons_drop, List.take_append_drop]
      have herase : rs.eraseIdx i = rs.take i ++ rs.drop (i + 1) := List.eraseIdx_eq_take_drop_succ ..
      obtain ⟨howns, hsub⟩ := ih fun r' hr' => hrs r' (List.mem_of_mem_eraseIdx hr')
      refine ⟨?_, hsub.trans (List.eraseIdx_sublist rs i)⟩
      have hone := (owns_unmap (hrs _ (List.getElem_mem hi))).frame (heldRegions (rs.eraseIdx i))
      have hheld : heldRegions rs =
          {.map rs[i].mmapAddr rs[i].mmapLen} + heldRegions (rs.eraseIdx i) := by
        conv_lhs => rw [hsplit]
        rw [herase, heldRegions_append, heldRegions_append, heldRegions_cons, Multiset.singleton_add,
          Multiset.add_cons]
      rw [hheld, acts_append]
      rw [zero_add] at hone
      exact hone.append howns
  | case2 i rs hi hequal ih => exact ih hrs
  | case3 i rs hi => exact ⟨.nil, List.Sublist.refl _⟩

/-! ## Queues -/

@[simp] theorem setVq_self (d : VuDev) (i : Nat) (q : VuQueue) : (d.setVq i q).vq i = q :=
  Function.update_self ..

theorem setVq_of_ne {j : Nat} (h : j ≠ i) (d : VuDev) (q : VuQueue) : (d.setVq i q).vq j = d.vq j :=
  Function.update_of_ne h ..

@[simp] theorem setVq_maxQueues (d : VuDev) (i : Nat) (q : VuQueue) :
    (d.setVq i q).maxQueues = d.maxQueues := rfl

@[simp] theorem setVq_regions (d : VuDev) (i : Nat) (q : VuQueue) :
    (d.setVq i q).regions = d.regions := rfl

theorem held_setVq (hi : i < d.maxQueues) :
    ∃ K, d.held = (d.vq i).held + K ∧ ∀ q, (d.setVq i q).held = q.held + K := by
  have hmem : i ∈ Finset.range d.maxQueues := Finset.mem_range.mpr hi
  refine ⟨∑ j ∈ (Finset.range d.maxQueues).erase i, (d.vq j).held + heldRegions d.regions +
    heldFd d.logCallFd + heldFd d.backendFd + d.heldLog, ?_, ?_⟩
  · rw [VuDev.held, VuDev.heldQueues, ← Finset.add_sum_erase _ _ hmem]
    simp only [add_assoc]
  · intro q
    have hothers : ∑ j ∈ (Finset.range d.maxQueues).erase i, (Function.update d.vq i q j).held =
        ∑ j ∈ (Finset.range d.maxQueues).erase i, (d.vq j).held := by
      apply Finset.sum_congr rfl
      intro j hj
      rw [Function.update_of_ne (Finset.ne_of_mem_erase hj)]
    have hlog : (d.setVq i q).heldLog = d.heldLog := rfl
    rw [VuDev.held, VuDev.heldQueues, hlog]
    simp only [VuDev.setVq]
    rw [← Finset.add_sum_erase _ _ hmem, hothers, Function.update_self]
    simp only [add_assoc]

/-- What a handler does with one queue, it does with the device. -/
theorem owns_setVq {as : List (Act Resource)} (hi : i < d.maxQueues)
    (hq : Owns ((d.vq i).held + H) as (q.held + H')) :
    Owns (d.held + H) as ((d.setVq i q).held + H') := by
  obtain ⟨K, hd, hset⟩ := held_setVq hi
  have hframe := hq.frame K
  rwa [add_right_comm, ← hd, add_right_comm, ← hset] at hframe

/-- The same where the queue's descriptors stay as they are. -/
theorem held_setVq_same (hi : i < d.maxQueues) (hq : q.held = (d.vq i).held) :
    (d.setVq i q).held = d.held := by
  obtain ⟨K, hd, hset⟩ := held_setVq hi
  rw [hset, hq, hd]

theorem mem_held_queue {r : Resource} (hi : i < d.maxQueues) (hr : r ∈ (d.vq i).held) :
    r ∈ d.held := by
  obtain ⟨K, hd, _⟩ := held_setVq hi
  rw [hd]
  exact Multiset.mem_add.mpr (.inl hr)

theorem dropKick_fst (q : VuQueue) : (dropKick q).1 = { q with kickFd := -1 } := by
  unfold dropKick
  split
  · rfl
  · rename_i hnone
    have hkick : q.kickFd = -1 := by simpa using hnone
    simp only [← hkick]

theorem owns_dropKick (q : VuQueue) : Owns q.held (acts (dropKick q).2) (dropKick q).1.held := by
  unfold dropKick
  split
  · rename_i h
    have hheld : q.held = .fd q.kickFd ::ₘ VuQueue.held { q with kickFd := -1 } := by
      simp only [VuQueue.held, heldFd_some h, heldFd_none, add_zero, ← Multiset.singleton_add]
      abel
    rw [hheld, acts_watch, acts_close]
    exact .release _ .nil
  · exact .nil

@[simp] theorem queueSetStarted_acts (i : Nat) (q : VuQueue) (started : Bool) :
    acts (queueSetStarted i q started).2 = [] := by
  unfold queueSetStarted
  split
  · split <;> simp
  · rfl

@[simp] theorem queueSetStarted_held (i : Nat) (q : VuQueue) (started : Bool) :
    (queueSetStarted i q started).1.held = q.held := by
  unfold queueSetStarted
  split
  · rfl
  · rfl

/-- What the check leaves of the message's descriptors is the one to be stored. -/
theorem check_owns {closed : List Effect} (hfds : ∀ fd ∈ m.fds, 0 ≤ fd)
    (h : vuCheckQueueMsgFile d m = some closed) :
    m.vringIndex < d.maxQueues ∧ Owns (heldFds m.fds) (acts closed) (heldFd m.newFd) := by
  unfold vuCheckQueueMsgFile at h
  split at h
  · cases h
  · rename_i hi
    refine ⟨by omega, ?_⟩
    split at h
    · rename_i hnofd
      cases h
      simpa [VhostUserMsg.newFd, hnofd] using owns_closeFds m
    · rename_i hnofd
      split at h
      · cases h
      · rename_i hlen
        cases h
        have hone : m.fds.length = 1 := by simpa using hlen
        obtain ⟨fd, hfd⟩ := List.length_eq_one_iff.mp hone
        have hpos := hfds fd (by simp [hfd])
        have hnew : m.newFd = fd := by simp [VhostUserMsg.newFd, hnofd, VhostUserMsg.fd, hfd]
        rw [hnew, heldFd_some (by omega), hfd]
        exact .nil

/-! ## The handlers that take the descriptors over -/

theorem vuSetVringKickExec_owns (hfds : ∀ fd ∈ m.fds, 0 ≤ fd)
    (h₀ : vuSetVringKickExec d m x = .ok h) :
    Owns (d.held + heldFds m.fds) (acts h.effects) h.dev.held := by
  unfold vuSetVringKickExec at h₀
  split at h₀
  · cases h₀
  · rename_i closed hclosed
    obtain ⟨hi, hcheck⟩ := check_owns hfds hclosed
    simp only at h₀
    split at h₀
    · cases h₀
    · cases h₀
      have hdrop : (dropKick (d.vq m.vringIndex)).1.kickFd = -1 := by rw [dropKick_fst]
      have howns := owns_dropKick (d.vq m.vringIndex)
      have hheld : VuQueue.held { (dropKick (d.vq m.vringIndex)).1 with
          kickFd := m.newFd, started := true } =
          (dropKick (d.vq m.vringIndex)).1.held + heldFd m.newFd := by
        simp only [VuQueue.held, hdrop, heldFd_none]
        abel
      have hqueue : Owns ((d.vq m.vringIndex).held + heldFds m.fds)
          (acts closed ++ acts (dropKick (d.vq m.vringIndex)).2)
          ((queueSetStarted m.vringIndex { (dropKick (d.vq m.vringIndex)).1 with
            kickFd := m.newFd, started := true } true).1.held + 0) := by
        rw [queueSetStarted_held, hheld, add_zero, add_comm]
        refine (hcheck.frame _).append ?_
        rw [add_comm]
        exact howns.frame _
      have hdev := owns_setVq hi hqueue
      rw [add_zero] at hdev
      have hwatch : ∀ (p : Prop) [Decidable p] (op : WatchOp Unit Nat),
          acts (if p then [.watch op] else []) = [] := by
        intro p _ op
        split <;> simp
      simpa [hwatch] using hdev

/-- A handler that puts the message's descriptor in the place of `old` in its queue. -/
theorem owns_newFd {closed : List Effect} {old : Int} {rest : Multiset Resource}
    (hfds : ∀ fd ∈ m.fds, 0 ≤ fd) (hclosed : vuCheckQueueMsgFile d m = some closed)
    (hq : (d.vq m.vringIndex).held = heldFd old + rest) (hq' : q'.held = heldFd m.newFd + rest) :
    Owns (d.held + heldFds m.fds) (acts (closed ++ closeIf old))
      (d.setVq m.vringIndex q').held := by
  obtain ⟨hi, hcheck⟩ := check_owns hfds hclosed
  have hclose := (owns_closeIf old).frame (rest + heldFd m.newFd)
  have hqueue : Owns ((d.vq m.vringIndex).held + heldFds m.fds) (acts (closed ++ closeIf old))
      (q'.held + 0) := by
    rw [acts_append, add_comm, hq, hq', add_zero]
    refine (hcheck.frame _).append ?_
    convert hclose using 1
    · abel
    · abel
  simpa using owns_setVq hi hqueue

theorem vuSetVringCallExec_owns (hfds : ∀ fd ∈ m.fds, 0 ≤ fd)
    (h₀ : vuSetVringCallExec d m x = .ok h) :
    Owns (d.held + heldFds m.fds) (acts h.effects) h.dev.held := by
  unfold vuSetVringCallExec at h₀
  split at h₀
  · cases h₀
  · rename_i closed hclosed
    cases h₀
    obtain ⟨hi, _⟩ := check_owns hfds hclosed
    have hnew : Owns (d.held + heldFds m.fds) (acts (closed ++ closeIf (d.vq m.vringIndex).callFd))
        (d.setVq m.vringIndex { d.vq m.vringIndex with callFd := m.newFd }).held :=
      owns_newFd hfds hclosed (add_assoc _ _ _) (add_assoc _ _ _)
    rw [acts_append]
    refine hnew.append ?_
    split
    · rename_i hfd
      have hsame : m.newFd = m.fd 0 := by
        unfold VhostUserMsg.newFd at hfd ⊢
        split at hfd
        · exact absurd rfl hfd
        · rename_i hno
          rw [if_neg hno]
      rw [acts_signal]
      refine .use _ ?_ .nil
      refine mem_held_queue hi ?_
      rw [← hsame, setVq_self, VuQueue.held, heldFd_some hfd]
      simp
    · exact .nil

theorem vuSetVringErrExec_owns (hfds : ∀ fd ∈ m.fds, 0 ≤ fd)
    (h₀ : vuSetVringErrExec d m x = .ok h) :
    Owns (d.held + heldFds m.fds) (acts h.effects) h.dev.held := by
  unfold vuSetVringErrExec at h₀
  split at h₀
  · cases h₀
  · rename_i closed hclosed
    cases h₀
    exact owns_newFd hfds hclosed (add_comm _ _) (add_comm _ _)

/-- A message that brings one descriptor for a field of the device. -/
theorem owns_replace (hone : m.fds.length = 1) (hfds : ∀ fd ∈ m.fds, 0 ≤ fd) (old : Int) :
    Owns (heldFd old + heldFds m.fds) (acts (closeIf old)) (heldFd (m.fd 0)) := by
  have hpos : 0 ≤ m.fd 0 := by
    obtain ⟨fd, hfd⟩ := List.length_eq_one_iff.mp hone
    have hpos := hfds fd (by simp [hfd])
    simpa [VhostUserMsg.fd, hfd] using hpos
  have hsingle : heldFds m.fds = heldFd (m.fd 0) := by
    rw [heldFds_single hone, heldFd_some (by omega)]
  have hclose := (owns_closeIf old).frame (heldFd (m.fd 0))
  rw [zero_add] at hclose
  rwa [hsingle]

theorem vuSetLogFdExec_owns (hfds : ∀ fd ∈ m.fds, 0 ≤ fd) (h₀ : vuSetLogFdExec d m x = .ok h) :
    Owns (d.held + heldFds m.fds) (acts h.effects) h.dev.held := by
  unfold vuSetLogFdExec at h₀
  split at h₀
  · cases h₀
  · rename_i hlen
    cases h₀
    have howns := (owns_replace (by simpa using hlen) hfds d.logCallFd).frame
      (d.heldQueues + heldRegions d.regions + heldFd d.backendFd + d.heldLog)
    convert howns using 1
    · simp only [VuDev.held]
      abel
    · simp only [VuDev.held, VuDev.heldQueues, VuDev.heldLog]
      abel

theorem vuSetBackendReqFd_owns (hfds : ∀ fd ∈ m.fds, 0 ≤ fd)
    (h₀ : vuSetBackendReqFd d m x = .ok h) :
    Owns (d.held + heldFds m.fds) (acts h.effects) h.dev.held := by
  unfold vuSetBackendReqFd at h₀
  split at h₀
  · cases h₀
  · rename_i hlen
    cases h₀
    have howns := (owns_replace (by simpa using hlen) hfds d.backendFd).frame
      (d.heldQueues + heldRegions d.regions + heldFd d.logCallFd + d.heldLog)
    convert howns using 1
    · simp only [VuDev.held]
      abel
    · simp only [VuDev.held, VuDev.heldQueues, VuDev.heldLog]
      abel

/-! ## Memory -/

/-- The rings that are set up are mapped anew, and nothing else changes. -/
theorem remapRings_spec {rs : List VuDevRegion} {n : Nat} (h₀ : remapRings rs d n = some d') :
    d' = { d with vq := fun i =>
      if i < n ∧ (d.vq i).vuq.vring.desc ≠ 0 then (mapRing rs (d.vq i)).1 else d.vq i } ∧
    ∀ i < n, (d.vq i).vuq.vring.desc ≠ 0 → (mapRing rs (d.vq i)).2 = true := by
  induction n generalizing d' with
  | zero =>
      cases h₀
      exact ⟨by simp, by simp⟩
  | succ n ih =>
      simp only [remapRings, Option.bind_eq_bind, Option.bind_eq_some_iff] at h₀
      obtain ⟨e, he, h₀⟩ := h₀
      obtain ⟨rfl, hall⟩ := ih he
      simp only [Nat.lt_irrefl, false_and, if_false] at h₀
      split at h₀
      · rename_i hdesc
        split at h₀
        · rename_i hmapped
          cases h₀
          refine ⟨?_, ?_⟩
          · simp only [VuDev.setVq]
            congr 1
            funext i
            by_cases hi : i = n
            · subst hi
              simp [hdesc]
            · have hlt : i < n ↔ i < n + 1 := by omega
              simp [Function.update_of_ne hi, hlt]
          · intro i hi hne
            rcases Nat.lt_succ_iff_lt_or_eq.mp hi with hi | rfl
            · exact hall i hi hne
            · exact hmapped
        · cases h₀
      · rename_i hdesc
        cases h₀
        refine ⟨?_, ?_⟩
        · congr 1
          funext i
          by_cases hi : i = n
          · subst hi
            simp [hdesc]
          · have hlt : i < n ↔ i < n + 1 := by omega
            simp [hlt]
        · intro i hi hne
          rcases Nat.lt_succ_iff_lt_or_eq.mp hi with hi | rfl
          · exact hall i hi hne
          · exact absurd hne hdesc

theorem remapRings_held {rs : List VuDevRegion} {n : Nat} (h₀ : remapRings rs d n = some d') :
    d'.held = d.held ∧ d'.regions = d.regions := by
  obtain ⟨rfl, _⟩ := remapRings_spec h₀
  have hqueue : ∀ i, VuQueue.held (if i < n ∧ (d.vq i).vuq.vring.desc ≠ 0 then
      (mapRing rs (d.vq i)).1 else d.vq i) = (d.vq i).held := by
    intro i
    split
    · rfl
    · rfl
  refine ⟨?_, rfl⟩
  simp only [VuDev.held, VuDev.heldQueues, VuDev.heldLog, hqueue]

theorem held_regions (d : VuDev) (rs : List VuDevRegion) :
    ∃ K, d.held = heldRegions d.regions + K ∧
      VuDev.held { d with regions := rs } = heldRegions rs + K := by
  refine ⟨d.heldQueues + heldFd d.logCallFd + heldFd d.backendFd + d.heldLog, ?_, ?_⟩
  · rw [VuDev.held]
    abel
  · simp only [VuDev.held, VuDev.heldQueues, VuDev.heldLog]
    abel

theorem vuSetMemTableExec_owns (hx : x.MapsSomewhere) (hd : MappedRegions d.regions)
    (hn : m.nregions ≤ m.fds.length) (h₀ : vuSetMemTableExec d m x = .ok h) :
    Owns (d.held + heldFds m.fds) (acts h.effects) (h.dev.held + heldFds (m.fds.drop m.nregions)) ∧
      MappedRegions h.dev.regions := by
  unfold vuSetMemTableExec at h₀
  split at h₀
  · cases h₀
  split at h₀
  · cases h₀
  rename_i t ht
  split at h₀
  · cases h₀
  rename_i e he
  cases h₀
  obtain ⟨hmap, hmapped, _⟩ := mapRegions_owns hx ht (by omega)
  obtain ⟨hheld, hregions⟩ := remapRings_held he
  obtain ⟨K, hK, hK'⟩ := held_regions d t.1
  have hfds : heldFds m.fds =
      heldFds ((m.fds.drop 0).take m.nregions) + heldFds (m.fds.drop m.nregions) := by
    rw [List.drop_zero, heldFds, heldFds, heldFds, Multiset.coe_add, ← List.map_append,
      List.take_append_drop]
  have hunmap := (owns_unmapAll hd).frame (K + heldFds m.fds)
  have hmap' := hmap.frame (K + heldFds (m.fds.drop m.nregions))
  refine ⟨?_, ?_⟩
  · rw [acts_append, hheld, hK', hK, add_assoc]
    refine hunmap.append ?_
    convert hmap' using 1
    · rw [hfds]
      abel
    · abel
  · rw [hregions]
    exact hmapped

theorem vuAddMemReg_owns (hx : x.MapsSomewhere) (hd : MappedRegions d.regions)
    (h₀ : vuAddMemReg d m x = .ok h) :
    Owns (d.held + heldFds m.fds) (acts h.effects) h.dev.held ∧ MappedRegions h.dev.regions := by
  unfold vuAddMemReg at h₀
  split at h₀
  · cases h₀
  rename_i hcheck
  split at h₀
  · cases h₀
  rename_i addr haddr
  simp only at h₀
  split at h₀
  · cases h₀
  rename_i e he
  cases h₀
  have hone : m.fds.length = 1 := by
    by_contra hne
    exact hcheck (.inl hne)
  obtain ⟨hheld, hregions⟩ := remapRings_held he
  obtain ⟨K, hK, hK'⟩ := held_regions e (d.regions ++ [mappedRegion m.memregRegion addr])
  refine ⟨?_, ?_⟩
  · rw [acts_mmap, acts_close, heldFds_single hone, ← hheld, hK', hK, hregions, heldRegions_append,
      heldRegions_cons, heldRegions_nil, Multiset.cons_zero]
    refine .acquire _ ?_
    rw [add_comm _ {Resource.fd (m.fd 0)}, Multiset.singleton_add, Multiset.cons_swap]
    refine .release _ ?_
    have hsame : .map (mappedRegion m.memregRegion addr).mmapAddr
          (mappedRegion m.memregRegion addr).mmapLen ::ₘ (heldRegions d.regions + K) =
        heldRegions d.regions + {.map (mappedRegion m.memregRegion addr).mmapAddr
          (mappedRegion m.memregRegion addr).mmapLen} + K := by
      rw [← Multiset.singleton_add]
      abel
    rw [hsame]
    exact .nil
  · intro r hr
    rcases List.mem_append.mp hr with hr | hr
    · exact hd r hr
    · cases List.mem_singleton.mp hr
      exact hx 0 addr haddr

theorem vuRemMemReg_owns (hd : MappedRegions d.regions) (h₀ : vuRemMemReg d m x = .ok h) :
    Owns (d.held + heldFds m.fds) (acts h.effects) h.dev.held ∧ MappedRegions h.dev.regions := by
  unfold vuRemMemReg at h₀
  split at h₀
  · cases h₀
  simp only at h₀
  split at h₀
  · cases h₀
  cases h₀
  obtain ⟨howns, hsub⟩ := removeRegions_owns m.memregRegion 0 d.regions hd
  obtain ⟨K, hK, hK'⟩ := held_regions d (removeRegions m.memregRegion 0 d.regions).1
  refine ⟨?_, fun r hr => hd r (hsub.subset hr)⟩
  have hrem := howns.frame (K + heldFds m.fds)
  have hclose := (owns_closeFds m).frame (heldRegions (removeRegions m.memregRegion 0 d.regions).1 + K)
  rw [acts_append, hK', hK, add_assoc]
  refine hrem.append ?_
  convert hclose using 1
  · abel
  · abel

/-- What `mmap` returns is in `log_table` in either case; where it has failed, nothing is mapped. -/
theorem vuSetLogBaseExec_owns (hx : x.MapsSomewhere) (h₀ : vuSetLogBaseExec d m x = .ok h) :
    Owns (d.held + heldFds m.fds) (acts h.effects) h.dev.held := by
  unfold vuSetLogBaseExec at h₀
  split at h₀
  · cases h₀
  rename_i hcheck
  have hone : m.fds.length = 1 := by
    by_contra hne
    exact hcheck (.inl hne)
  simp only at h₀
  cases h₀
  let K := d.heldQueues + heldRegions d.regions + heldFd d.logCallFd + heldFd d.backendFd
  have hd : d.held = d.heldLog + K := by
    rw [VuDev.held]
    simp only [K]
    abel
  have hold := (owns_unmapLog d).frame K
  rw [zero_add] at hold
  cases haddr : x.mmap 0 with
  | none =>
      have hnew : VuDev.held { d with logTable := mapFailed, logSize := m.u64At 0 } = K := by
        have hlog : VuDev.heldLog { d with logTable := mapFailed, logSize := m.u64At 0 } = 0 :=
          if_pos (.inr rfl)
        rw [VuDev.held, hlog, add_zero]
        rfl
      simp only [Option.getD_none, Option.isSome_none, Bool.false_eq_true, if_false, List.nil_append,
        acts_close, hnew]
      rw [heldFds_single hone, add_comm _ {Resource.fd (m.fd 0)}, Multiset.singleton_add, hd]
      exact .release _ hold
  | some addr =>
      have hnew : VuDev.held { d with logTable := addr, logSize := m.u64At 0 } =
          .map addr (m.u64At 0) ::ₘ K := by
        have hlog : VuDev.heldLog { d with logTable := addr, logSize := m.u64At 0 } =
            {.map addr (m.u64At 0)} := if_neg (by simp [hx 0 addr haddr])
        rw [← Multiset.singleton_add, add_comm, ← hlog]
        rfl
      simp only [Option.getD_some, Option.isSome_some, if_true, List.singleton_append, acts_mmap,
        acts_close, hnew]
      refine .acquire _ ?_
      rw [heldFds_single hone, add_comm _ {Resource.fd (m.fd 0)}, Multiset.singleton_add,
        Multiset.cons_swap, hd]
      exact .release _ (hold.cons _)

end Vlog.Vhost
