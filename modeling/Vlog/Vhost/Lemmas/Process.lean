import Vlog.Vhost.Lemmas.Loop

/-!
# Runs of the backend

What has been acquired and not released is what the state names and what is left over, after every
iteration. With that no two fields name the same descriptor, as the lemmas of the loop ask for.
-/

namespace Vlog.Vhost

open Vlog.Lib
open Vlog.Emulator (pollin)

variable {d : VuDev} {s s' : Process} {s₀ : Finset Resource} {es fs : List Effect} {y : Iteration}

/-! ## The end -/

theorem owns_deinitQueue (q : VuQueue) : Owns q.held (acts (deinitQueue q).2) 0 := by
  have hdrop := owns_dropKick { q with callFd := -1 }
  have hkick : (dropKick { q with callFd := -1 }).1.held = heldFd q.errFd := by
    rw [dropKick_fst]
    simp [VuQueue.held]
  rw [hkick] at hdrop
  have hcall := (owns_closeIf q.callFd).frame (VuQueue.held { q with callFd := -1 })
  have hheld : q.held = heldFd q.callFd + VuQueue.held { q with callFd := -1 } := by
    simp only [VuQueue.held, heldFd_none, zero_add, add_assoc]
  rw [← hheld, zero_add] at hcall
  unfold deinitQueue
  rw [acts_append, acts_append]
  exact (hcall.append hdrop).append (owns_closeIf q.errFd)

theorem owns_releaseAll {rs : List VuDevRegion} (hrs : MappedRegions rs) :
    Owns (heldRegions rs) (acts (rs.flatMap VuDevRegion.release)) 0 := by
  have hsame : rs.flatMap VuDevRegion.release = rs.flatMap VuDevRegion.unmap := by
    rw [List.flatMap_def, List.flatMap_def]
    congr 1
    apply List.map_congr_left
    intro r hr
    rw [VuDevRegion.release, if_pos (hrs r hr).2, VuDevRegion.unmap, if_pos (hrs r hr).1]
  rw [hsame]
  exact owns_unmapAll hrs

theorem owns_deinitQueues (vq : Nat → VuQueue) (n : Nat) :
    Owns (∑ i ∈ Finset.range n, (vq i).held)
      (acts ((List.range n).flatMap fun i => (deinitQueue (vq i)).2)) 0 := by
  induction n with
  | zero => exact .nil
  | succ n ih =>
      rw [Finset.sum_range_succ, List.range_succ, List.flatMap_append, acts_append]
      have hframe := ih.frame (vq n).held
      rw [zero_add] at hframe
      refine hframe.append ?_
      simpa using owns_deinitQueue (vq n)

/-- `vu_deinit` releases all that the state names. -/
theorem owns_vuDeinit (hd : MappedRegions d.regions) : Owns d.held (acts (vuDeinit d).2) 0 := by
  have hregions := (owns_releaseAll hd).frame
    (d.heldQueues + d.heldLog + heldFd d.logCallFd + heldFd d.backendFd)
  have hqueues := (owns_deinitQueues d.vq d.maxQueues).frame
    (d.heldLog + heldFd d.logCallFd + heldFd d.backendFd)
  have hlog := (owns_unmapLog d).frame (heldFd d.logCallFd + heldFd d.backendFd)
  have hcall := (owns_closeIf d.logCallFd).frame (heldFd d.backendFd)
  have hheld : d.held = heldRegions d.regions +
      (d.heldQueues + d.heldLog + heldFd d.logCallFd + heldFd d.backendFd) := by
    rw [VuDev.held]
    abel
  rw [zero_add] at hregions hqueues hlog hcall
  have hqueues' : Owns (d.heldQueues + d.heldLog + heldFd d.logCallFd + heldFd d.backendFd)
      (acts ((List.range d.maxQueues).flatMap fun i => (deinitQueue (d.vq i)).2))
      (d.heldLog + heldFd d.logCallFd + heldFd d.backendFd) := by
    simpa only [VuDev.heldQueues, add_assoc] using hqueues
  have hclosed := hlog.append hcall
  rw [← add_assoc] at hclosed
  unfold vuDeinit vuCloseLog
  simp only [acts_append]
  rw [hheld]
  exact ((hregions.append hqueues').append hclosed).append (owns_closeIf d.backendFd)

def Releases (es : List Effect) : Prop := ∀ a ∈ acts es, ∃ r, a = .release r

theorem Releases.append (he : Releases es) (hf : Releases fs) : Releases (es ++ fs) := by
  intro a ha
  rw [acts_append] at ha
  exact (List.mem_append.mp ha).elim (he a) (hf a)

theorem Releases.flatMap {α : Type*} {l : List α} {f : α → List Effect} (h : ∀ a ∈ l, Releases (f a)) :
    Releases (l.flatMap f) := by
  induction l with
  | nil => exact fun _ ha => nomatch ha
  | cons a l ih =>
      rw [List.flatMap_cons]
      exact (h a List.mem_cons_self).append (ih fun b hb => h b (List.mem_cons_of_mem _ hb))

theorem releases_munmap (p : Prop) [Decidable p] (addr len : UInt64) :
    Releases (if p then [.munmap addr len] else []) := by
  split
  · by_cases hfailed : addr = mapFailed
    · simp [Releases, hfailed]
    · simp [Releases, acts_munmap hfailed]
  · simp [Releases]

theorem releases_closeIf (fd : Int) : Releases (closeIf fd) := by
  unfold closeIf
  split
  · simp [Releases]
  · simp [Releases]

theorem releases_dropKick (q : VuQueue) : Releases (dropKick q).2 := by
  rw [dropKick_snd]
  split
  · simp [Releases]
  · simp [Releases]

theorem releases_vuDeinit (d : VuDev) : Releases (vuDeinit d).2 := by
  have hqueue : ∀ i ∈ List.range d.maxQueues, Releases (deinitQueue (d.vq i)).2 := fun i _ =>
    ((releases_closeIf _).append (releases_dropKick _)).append (releases_closeIf _)
  have hregions : Releases (d.regions.flatMap VuDevRegion.release) :=
    .flatMap fun r _ => releases_munmap _ _ _
  have hlog : Releases (vuCloseLog d).2 := (releases_munmap _ _ _).append (releases_closeIf _)
  exact ((hregions.append (.flatMap hqueue)).append hlog).append (releases_closeIf _)

/-! ## The invariant -/

structure Process.Inv (s₀ : Finset Resource) (es : List Effect) (s : Process) : Prop where
  owns : Owns 0 (acts es) (s.backend.dev.held + s.stray)
  granted : Granted s₀ (acts es)
  live : s.live = Lib.live s₀ (acts es)
  mapped : MappedRegions s.backend.dev.regions
  watched : s.backend.Watched

theorem Process.Inv.start (s₀ : Finset Resource) : (Process.start s₀).Inv s₀ [] where
  owns := by
    have hheld : (Process.start s₀).backend.dev.held = 0 := by
      simp [Process.start, Backend.start, vuInit, VuDev.held, VuDev.heldQueues, VuDev.heldLog,
        VuQueue.held, vqStart]
    rw [hheld]
    exact .nil
  granted := trivial
  live := rfl
  mapped := fun _ hr => nomatch hr
  watched :=
    { queues := rfl
      rows := rfl
      stopped := fun _ _ => rfl
      handler := fun _ _ => rfl
      handlerTx := rfl
      kickFd := fun _ => .inl rfl }

/-- Everything live is named by the state, left over or from before. -/
theorem Process.Inv.val (hs : s.Inv s₀ es) :
    s.live.val = s.backend.dev.held + s.stray + s₀.val ∧ Clean s₀ (acts es) := by
  obtain ⟨hlive, hclean⟩ := hs.owns.live (zero_add _).symm hs.granted
  exact ⟨hs.live ▸ hlive, hclean⟩

theorem Process.Inv.nodup (hs : s.Inv s₀ es) : s.backend.dev.held.Nodup := by
  have hnodup := s.live.nodup
  rw [hs.val.1, add_assoc] at hnodup
  exact (Multiset.nodup_add.mp hnodup).1

/-- What the callbacks of an iteration are. -/
theorem Backend.Watched.turn {b b₁ b' : Backend} {hs : List Effect} (hb : b.Watched) (hb₁ : b₁.Watched)
    (h₀ : b₁.serve y.kick 1 (b.polled y) = .ok (b', hs)) :
    if (b.dev.vq vqTx).kickFd ≠ -1 ∧ y.revents 1 &&& pollin ≠ 0 ∧
        (b₁.dev.vq vqTx).kickFd = (b.dev.vq vqTx).kickFd then
      b' = { dev := (txKick b₁.dev vqTx (y.kick 1)).1, w := b₁.w } ∧
        hs = .drain (b.dev.vq vqTx).kickFd :: (txKick b₁.dev vqTx (y.kick 1)).2
    else b' = b₁ ∧ hs = [] := by
  rcases hb.polled_cases y with ⟨hnone, hpolled⟩ | ⟨hne, hpolled⟩
  · rw [hpolled] at h₀
    rw [if_neg fun hno => hno.1 hnone]
    cases h₀
    exact ⟨rfl, rfl⟩
  · rw [hpolled] at h₀
    simpa only [hne, true_and, ne_eq, not_false_eq_true] using hb₁.serve hne h₀

theorem txKick_watched {b : Backend} (hb : b.Watched) (x : Answer) :
    Backend.Watched { dev := (txKick b.dev vqTx x).1, w := b.w } :=
  hb.same (txKick_spec ..).1.kicks

theorem Process.Inv.step (hs : s.Inv s₀ es) (hst : s.Takes y fs s') : s'.Inv s₀ (es ++ fs) := by
  obtain ⟨b, gs, hs', hdispatch, hserve, rfl⟩ := iterate_cases hst.iterate
  obtain ⟨howns, hmapped⟩ := dispatch_owns hst.sound hs.mapped hdispatch
  have hwatched := hs.watched.dispatch hs.nodup hst.sound hdispatch
  have hturn := hs.watched.turn hwatched hserve
  have hserved : Owns b.dev.held (acts hs') s'.backend.dev.held ∧
      s'.backend.dev.regions = b.dev.regions ∧ s'.backend.Watched := by
    split at hturn
    · rename_i hcalled
      obtain ⟨hback, heffects⟩ := hturn
      have hlt : vqTx < b.dev.maxQueues := by
        rw [hwatched.queues]
        decide
      have hheld : .fd (b.dev.vq vqTx).kickFd ∈ b.dev.held :=
        mem_held_queue hlt (mem_held_kickFd (hcalled.2.2 ▸ hcalled.1))
      rw [heffects, hback, acts_drain, ← hcalled.2.2]
      exact ⟨.use _ hheld (owns_txKick hlt _), (txKick_spec ..).1.regions, txKick_watched hwatched _⟩
    · rw [hturn.1, hturn.2]
      exact ⟨.nil, rfl, hwatched⟩
  obtain ⟨hown, hregions, hwatched'⟩ := hserved
  have hall := (howns.append (hown.frame (heldFds y.stray))).frame s.stray
  refine ⟨?_, ?_, ?_, ?_, hwatched'⟩
  · rw [acts_append, acts_append, hst.stray, add_comm s.stray, ← add_assoc]
    exact hs.owns.append hall
  · rw [acts_append, granted_append, ← hs.live]
    exact ⟨hs.granted, hst.granted⟩
  · rw [acts_append, live_append, ← hs.live, hst.live]
  · rw [hregions]
    exact hmapped

theorem Process.run_inv (hr : Run Process.Step (Process.start s₀) es s) : s.Inv s₀ es := by
  refine hr.invariant (Process.Inv.start s₀) ?_
  intro es s fs s' _ hs hst
  obtain ⟨y, hy⟩ := hst
  exact hs.step hy

/-! ## Whose kick it is -/

theorem granted_received {live : Finset Resource} {fds : List Int}
    (hg : Granted live (acts (fds.map .received ++ es))) : ∀ fd ∈ fds, .fd fd ∉ live := by
  induction fds generalizing live with
  | nil => exact fun _ hfd => nomatch hfd
  | cons fd fds ih =>
      rw [List.map_cons, List.cons_append, acts_received] at hg
      intro fd' hfd'
      rcases List.mem_cons.mp hfd' with rfl | hfd'
      · exact hg.1
      · exact fun hmem => ih hg.2 fd' hfd' (Finset.mem_insert_of_mem hmem)

/-- A new kick has another number than the old one, which is still open when it arrives. -/
theorem process_rekicks {m : VhostUserMsg} {x : Answer} {h : Handling}
    (hkick : (d.vq vqTx).kickFd ≠ -1) (hfresh : ∀ fd ∈ m.fds, fd ≠ (d.vq vqTx).kickFd)
    (h₀ : vuProcessMessage d m x = .ok h) :
    (h.dev.vq vqTx).kickFd = (d.vq vqTx).kickFd ↔ ¬ m.Rekicks := by
  constructor
  · rintro hsame (⟨hreq, hi⟩ | ⟨hreq, hi⟩)
    · have h₁ : vuGetVringBaseExec d m x = .ok h := by simpa only [vuProcessMessage, hreq] using h₀
      rw [(vuGetVringBaseExec_spec h₁).2.1, hi, setVq_self] at hsame
      exact hkick hsame.symm
    · have h₁ : vuSetVringKickExec d m x = .ok h := by simpa only [vuProcessMessage, hreq] using h₀
      obtain ⟨closed, hclosed, hdev, _⟩ := vuSetVringKickExec_spec h₁
      rw [hdev, hi, setVq_self] at hsame
      have hnew : m.newFd = (d.vq vqTx).kickFd := hsame
      rcases newFd_mem hclosed with hnone | hmem
      · exact hkick (hnew ▸ hnone)
      · exact hfresh _ hmem hnew
  · intro hno
    rcases (vuProcessMessage_cases h₀).kicks with ⟨hsame, _⟩ | ⟨hreq, h₁⟩ | ⟨hreq, h₁⟩ | ⟨_, h₁⟩
    · exact hsame.kickFd _
    · rw [(vuGetVringBaseExec_spec h₁).2.1, setVq_of_ne fun hi => hno (.inl ⟨hreq, hi.symm⟩)]
    · obtain ⟨_, _, hdev, _⟩ := vuSetVringKickExec_spec h₁
      rw [hdev, setVq_of_ne fun hi => hno (.inr ⟨hreq, hi.symm⟩)]
    · rw [(vuHandleVringKick_tied h₁).kicks.kickFd]
      refine setVq_field VuQueue.kickFd ?_ _
      rfl

theorem dispatch_rekicks {b b' : Backend} {live : Finset Resource}
    (hkick : (b.dev.vq vqTx).kickFd ≠ -1) (hlive : .fd (b.dev.vq vqTx).kickFd ∈ live)
    (hg : Granted live (acts es)) (h₀ : b.dispatch y = .ok (b', es)) :
    (b'.dev.vq vqTx).kickFd = (b.dev.vq vqTx).kickFd ↔ ¬ y.Rekicks := by
  rcases dispatch_cases h₀ with ⟨hno, rfl, _⟩ | ⟨hyes, m, h, hread, hprocess, rfl, rfl⟩
  · exact ⟨fun _ ⟨_, hm, _⟩ => hno hm.1, fun _ => rfl⟩
  · have hfresh : ∀ fd ∈ m.fds, fd ≠ (b.dev.vq vqTx).kickFd := by
      rintro fd hfd rfl
      exact granted_received hg _ hfd hlive
    rw [process_rekicks hkick hfresh hprocess, Iteration.Rekicks]
    simp [Iteration.Got, hyes, hread]

/-! ## Kicks that come as messages -/

/-- A message calls `tx_kick` only as the kick of the transmit queue, and reads no kick. -/
theorem process_inband {b : Backend} {m : VhostUserMsg} {x : Answer} {h : Handling} (hb : b.Watched)
    (hm : ¬ (m.request.toInt = 35 ∧ m.stateIndex = vqTx)) (h₀ : vuProcessMessage b.dev m x = .ok h) :
    kicksOf h.effects = [] := by
  rcases (vuProcessMessage_cases h₀).kicks with ⟨_, hinert⟩ | ⟨_, h₁⟩ | ⟨_, h₁⟩ | ⟨hreq, h₁⟩
  · exact hinert.kicks
  · rw [(vuGetVringBaseExec_spec h₁).2.2, kicksOf_append, kicksOf_append, kicksOf_watch, kicksOf_dropKick,
      (inert_closeIf _).kicks]
    rfl
  · obtain ⟨closed, hclosed, _, heffects⟩ := vuSetVringKickExec_spec h₁
    rw [heffects, kicksOf_append, kicksOf_append, kicksOf_append, kicksOf_watch, kicksOf_watch,
      kicksOf_dropKick, (inert_check hclosed).kicks]
    rfl
  · have hne : m.stateIndex ≠ vqTx := fun hi => hm ⟨hreq, hi⟩
    have hno : ((b.dev.vq m.stateIndex).resumed m.stateIndex).handler = false := by
      simp only [VuQueue.resumed, hne, and_false, if_false]
      exact hb.handler _ hne
    obtain ⟨_, _, heffects⟩ := vuHandleVringKick_spec h₁
    rw [heffects, kicksOf_append, kicksOf_watch, if_neg (by simp [hno])]
    rfl

theorem dispatch_inband {b b' : Backend} (hb : b.Watched) (h₀ : b.dispatch y = .ok (b', es)) :
    (y.Inband → kicksOf es = [.txKick vqTx] ∧
      b'.dev = (txKick (b.dev.setVq vqTx ((b.dev.vq vqTx).resumed vqTx)) vqTx y.answer).1) ∧
    (¬ y.Inband → kicksOf es = []) := by
  rcases dispatch_cases h₀ with ⟨hno, rfl, rfl⟩ | ⟨hyes, m, h, hread, hprocess, rfl, rfl⟩
  · exact ⟨fun ⟨_, hm, _⟩ => absurd hm.1 hno, fun _ => rfl⟩
  · rw [kicksOf_append, (inert_received _).kicks, List.nil_append]
    constructor
    · rintro ⟨m', hm, hreq, hi⟩
      cases hm.2.symm.trans hread
      have h₁ : vuHandleVringKick b.dev m y.answer = .ok h := by
        simpa only [vuProcessMessage, hreq] using hprocess
      obtain ⟨_, hdev, heffects⟩ := vuHandleVringKick_spec h₁
      rw [hi, if_pos hb.resumed] at hdev heffects
      rw [heffects, kicksOf_append, kicksOf_watch, kicksOf_txKick]
      exact ⟨rfl, hdev⟩
    · intro hnot
      exact process_inband hb (fun hm => hnot ⟨m, ⟨hyes, hread⟩, hm⟩) hprocess

end Vlog.Vhost
