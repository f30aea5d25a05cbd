import Vlog.Vhost.Lemmas.Process

/-!
# The table of regions and the rings

A ring is found by the first region of the table that covers its address. Appending regions does not change
that, and removing does not either, as long as no region that is found this way is removed.
-/

namespace Vlog.Vhost

open Vlog.Lib

variable {d d' : VuDev} {m : VhostUserMsg} {x : Answer} {q q' : VuQueue} {h : Handling} {i : Nat}
  {rs : List VuDevRegion} {r : VuDevRegion} {a va : UInt64}

/-! ## Translation -/

theorem qvaToVa_some (h : rs.find? (·.covers a) = some r) :
    qvaToVa rs a = a - r.qva + r.mmapAddr + r.mmapOffset := by
  rw [qvaToVa, h]

/-- The sum does not wrap where an address is covered. -/
theorem maps_of_covers (h : r.covers a = true) :
    r.Maps a (a - r.qva + r.mmapAddr + r.mmapOffset) := by
  obtain ⟨hle, hlt⟩ : r.qva ≤ a ∧ a < r.qva + r.size := by simpa [VuDevRegion.covers] using h
  rw [UInt64.le_iff_toNat_le] at hle
  rw [UInt64.lt_iff_toNat_lt, UInt64.toNat_add] at hlt
  have hq := r.qva.toNat_lt
  have hs := r.size.toNat_lt
  refine ⟨UInt64.le_iff_toNat_le.mpr hle, by omega, ?_⟩
  rw [add_assoc, add_comm, add_assoc]

/-- What a region maps lies in its mapping, if that is no longer than the addresses reach. -/
theorem VuDevRegion.Maps.within (h : r.Maps a va) (hwrap : r.size.toNat + r.mmapOffset.toNat < 2 ^ 64) :
    (va - r.mmapAddr).toNat < r.mmapLen.toNat := by
  obtain ⟨hle, hlt, rfl⟩ := h
  have hsub : (a - r.qva).toNat = a.toNat - r.qva.toNat := UInt64.toNat_sub_of_le _ _ hle
  have hle' := UInt64.le_iff_toNat_le.mp hle
  have hoff : r.mmapAddr + (r.mmapOffset + (a - r.qva)) - r.mmapAddr = r.mmapOffset + (a - r.qva) := by
    rw [add_sub_cancel_left]
  rw [hoff, UInt64.toNat_add, hsub, VuDevRegion.mmapLen, UInt64.toNat_add]
  omega

theorem qvaToVa_maps (h : qvaToVa rs a ≠ 0) :
    ∃ r, rs.find? (·.covers a) = some r ∧ r ∈ rs ∧ r.Maps a (qvaToVa rs a) := by
  cases hfind : rs.find? (·.covers a) with
  | none =>
      rw [qvaToVa, hfind] at h
      exact absurd rfl h
  | some r =>
      have hcovers : r.covers a = true := by simpa using List.find?_some hfind
      rw [qvaToVa_some hfind]
      exact ⟨r, rfl, List.mem_of_find?_eq_some hfind, maps_of_covers hcovers⟩

theorem qvaToVa_append (h : qvaToVa rs a ≠ 0) (ss : List VuDevRegion) :
    qvaToVa (rs ++ ss) a = qvaToVa rs a := by
  obtain ⟨r, hfind, _⟩ := qvaToVa_maps h
  have happend : (rs ++ ss).find? (·.covers a) = some r := by
    rw [List.find?_append, hfind]
    rfl
  rw [qvaToVa_some happend, qvaToVa_some hfind]

/-- The loop that deletes in place is a filter. -/
theorem removeRegions_filter (t : VhostUserMemoryRegion) (i : Nat) (rs : List VuDevRegion) :
    (removeRegions t i rs).1 = rs.take i ++ (rs.drop i).filter fun r => !regEqual r t := by
  fun_induction removeRegions t i rs with
  | case1 i rs hi hequal u ih =>
      have htake : (rs.eraseIdx i).take i = rs.take i := List.take_eraseIdx_eq_take_of_le _ _ _ le_rfl
      have hdrop : (rs.eraseIdx i).drop i = rs.drop (i + 1) := by
        rw [List.eraseIdx_eq_take_drop_succ, List.drop_append, List.length_take_of_le hi.le,
          List.drop_take_self, Nat.sub_self, List.nil_append, List.drop_zero]
      rw [ih, htake, hdrop, List.drop_eq_getElem_cons hi, List.filter_cons_of_neg (by simp [hequal])]
  | case2 i rs hi hequal ih =>
      rw [ih, List.drop_eq_getElem_cons hi, List.filter_cons_of_pos (by simp [hequal]),
        List.take_succ_eq_append_getElem hi, List.append_assoc, List.singleton_append]
  | case3 i rs hi => rw [List.drop_eq_nil_of_le (by omega), List.take_of_length_le (by omega)]; simp

/-- A region that stays is found behind a removal as before. -/
theorem qvaToVa_filter {p : VuDevRegion → Bool} (hfind : rs.find? (·.covers a) = some r) (hr : p r = true) :
    qvaToVa (rs.filter p) a = qvaToVa rs a := by
  have hfilter : (rs.filter p).find? (·.covers a) = some r := by
    obtain ⟨hcovers, front, back, rfl, hfront⟩ := List.find?_eq_some_iff_append.mp hfind
    rw [List.find?_eq_some_iff_append]
    refine ⟨hcovers, front.filter p, back.filter p, by simp [hr], ?_⟩
    intro s hs
    exact hfront s (List.mem_filter.mp hs).1
  rw [qvaToVa_some hfilter, qvaToVa_some hfind]

/-! ## Rings -/

/-- The queue has no ring, or all three, where the table has them. -/
def VuQueue.Bound (rs : List VuDevRegion) (q : VuQueue) : Prop :=
  (∀ p ∈ q.rings, p.2 = 0) ∨ ∀ p ∈ q.rings, p.2 ≠ 0 ∧ p.2 = qvaToVa rs p.1

theorem desc_mem_rings (q : VuQueue) : (q.vra.descUserAddr, q.vuq.vring.desc) ∈ q.rings :=
  List.mem_cons_self

theorem VuQueue.Bound.unset (hq : q.Bound rs) (hdesc : q.vuq.vring.desc = 0) : ∀ p ∈ q.rings, p.2 = 0 :=
  hq.resolve_right fun hset => (hset _ (desc_mem_rings q)).1 hdesc

theorem VuQueue.Bound.set (hq : q.Bound rs) (hdesc : q.vuq.vring.desc ≠ 0) :
    ∀ p ∈ q.rings, p.2 ≠ 0 ∧ p.2 = qvaToVa rs p.1 :=
  hq.resolve_left fun hunset => hdesc (hunset _ (desc_mem_rings q))

theorem mapRing_bound (h : (mapRing rs q).2 = true) : (mapRing rs q).1.Bound rs := by
  obtain ⟨hdesc, hused, havail⟩ : _ ∧ _ ∧ _ := of_decide_eq_true h
  refine .inr ?_
  intro p hp
  simp only [VuQueue.rings, List.mem_cons, List.not_mem_nil, or_false] at hp
  rcases hp with rfl | rfl | rfl
  · exact ⟨hdesc, rfl⟩
  · exact ⟨havail, rfl⟩
  · exact ⟨hused, rfl⟩

/-- A table that finds the rings where the old one does. -/
theorem VuQueue.Bound.congr {ss : List VuDevRegion} (hq : q.Bound rs)
    (h : q.vuq.vring.desc ≠ 0 → ∀ p ∈ q.rings, qvaToVa rs p.1 ≠ 0 → qvaToVa ss p.1 = qvaToVa rs p.1) :
    q.Bound ss := by
  by_cases hdesc : q.vuq.vring.desc = 0
  · exact .inl (hq.unset hdesc)
  · refine .inr ?_
    intro p hp
    obtain ⟨hne, heq⟩ := hq.set hdesc p hp
    rw [h hdesc p hp (heq ▸ hne)]
    exact ⟨hne, heq⟩

/-- Rings are mapped anew from whatever table they were found in. -/
theorem remapRings_bound {ss : List VuDevRegion} (hd : ∀ i < d.maxQueues, (d.vq i).Bound ss)
    (h : remapRings rs d d.maxQueues = some d') : ∀ i < d.maxQueues, (d'.vq i).Bound rs := by
  obtain ⟨rfl, hall⟩ := remapRings_spec h
  intro i hi
  simp only
  split
  · rename_i hset
    exact mapRing_bound (hall i hi hset.2)
  · rename_i hunset
    exact .inl ((hd i hi).unset (by_contra fun hdesc => hunset ⟨hi, hdesc⟩))

theorem VuDev.SameRings.rings (hd : d.SameRings d') (i : Nat) : (d'.vq i).rings = (d.vq i).rings := by
  rw [VuQueue.rings, hd.vra, hd.desc, hd.avail, hd.used, VuQueue.rings]

theorem VuDev.SameRings.bound (hd : d.SameRings d') (h : ∀ i < d.maxQueues, (d.vq i).Bound d.regions) :
    ∀ i < d'.maxQueues, (d'.vq i).Bound d'.regions := by
  intro i hi
  rw [hd.maxQueues] at hi
  rw [VuQueue.Bound, hd.rings, hd.regions]
  exact h i hi

theorem vuSetMemTableExec_bound (hd : ∀ i < d.maxQueues, (d.vq i).Bound d.regions)
    (h₀ : vuSetMemTableExec d m x = .ok h) : ∀ i < h.dev.maxQueues, (h.dev.vq i).Bound h.dev.regions := by
  unfold vuSetMemTableExec at h₀
  split at h₀
  · cases h₀
  split at h₀
  · cases h₀
  rename_i t ht
  split at h₀
  · cases h₀
  rename_i e he
  cases h₀
  have hmax : e.maxQueues = d.maxQueues := (remapRings_sameKicks he).maxQueues
  have hbound : ∀ i < d.maxQueues, (e.vq i).Bound t.1 :=
    remapRings_bound (d := { d with regions := t.1 }) hd he
  intro i hi
  rw [(remapRings_held he).2]
  exact hbound i (hmax ▸ hi)

theorem vuAddMemReg_bound (hd : ∀ i < d.maxQueues, (d.vq i).Bound d.regions)
    (h₀ : vuAddMemReg d m x = .ok h) : ∀ i < h.dev.maxQueues, (h.dev.vq i).Bound h.dev.regions := by
  unfold vuAddMemReg at h₀
  split at h₀
  · cases h₀
  split at h₀
  · cases h₀
  simp only at h₀
  split at h₀
  · cases h₀
  rename_i e he
  cases h₀
  have hmax : e.maxQueues = d.maxQueues := (remapRings_sameKicks he).maxQueues
  intro i hi
  refine (remapRings_bound hd he i (hmax ▸ hi)).congr ?_
  intro _ p _ hne
  exact qvaToVa_append hne _

theorem vuRemMemReg_bound (hd : ∀ i < d.maxQueues, (d.vq i).Bound d.regions)
    (hkeep : ∀ r ∈ d.regions, regEqual r m.memregRegion → ¬ d.Uses r)
    (h₀ : vuRemMemReg d m x = .ok h) : ∀ i < h.dev.maxQueues, (h.dev.vq i).Bound h.dev.regions := by
  unfold vuRemMemReg at h₀
  split at h₀
  · cases h₀
  simp only at h₀
  split at h₀
  · cases h₀
  cases h₀
  intro i hi
  refine (hd i hi).congr ?_
  intro hdesc p hp hne
  obtain ⟨r, hfind, hmem, _⟩ := qvaToVa_maps hne
  simp only [removeRegions_filter, List.take_zero, List.drop_zero, List.nil_append]
  refine qvaToVa_filter hfind ?_
  by_contra hequal
  exact hkeep r hmem (by simpa using hequal) ⟨i, hi, hdesc, p, hp, hfind⟩

theorem vuProcessMessage_bound (hd : ∀ i < d.maxQueues, (d.vq i).Bound d.regions)
    (hkeep : m.request.toInt = 38 → ∀ r ∈ d.regions, regEqual r m.memregRegion → ¬ d.Uses r)
    (h₀ : vuProcessMessage d m x = .ok h) :
    ∀ i < h.dev.maxQueues, (h.dev.vq i).Bound h.dev.regions := by
  rcases (vuProcessMessage_cases h₀).rings with hsame | ⟨_, h₁⟩ | ⟨_, h₁⟩ | ⟨_, h₁⟩ | ⟨hreq, h₁⟩
  · exact hsame.bound hd
  · exact vuSetMemTableExec_bound hd h₁
  · obtain ⟨_, hmapped, hdev, _⟩ := vuSetVringAddrExec_spec h₁
    rw [hdev]
    intro i hi
    by_cases hi' : i = m.stateIndex
    · subst hi'
      rw [setVq_self]
      exact mapRing_bound hmapped
    · rw [setVq_of_ne hi']
      exact hd i hi
  · exact vuAddMemReg_bound hd h₁
  · exact vuRemMemReg_bound hd (hkeep hreq) h₁

/-! ## Runs -/

variable {s s' : Process} {s₀ : Finset Resource} {es fs : List Effect} {y : Iteration} {b b' : Backend}

theorem CarefulStep.step {t t' : Process} (h : t.CarefulStep es t') : t.Step es t' := by
  obtain ⟨y, _, hy⟩ := h
  exact ⟨y, hy⟩

/-- The callback does nothing to the rings, nor to the table. -/
theorem Process.Inv.callback (hs : s.Inv s₀ es) (hst : s.Takes y fs s') :
    ∃ b gs, s.backend.dispatch y = .ok (b, gs) ∧ b.dev.SameRings s'.backend.dev := by
  obtain ⟨b, gs, hs', hdispatch, hserve, _⟩ := iterate_cases hst.iterate
  have hwatched := hs.watched.dispatch hs.nodup hst.sound hdispatch
  have hturn := hs.watched.turn hwatched hserve
  refine ⟨b, gs, hdispatch, ?_⟩
  split at hturn
  · rw [hturn.1]
    exact (txKick_spec ..).1.rings
  · rw [hturn.1]
    exact .refl _

theorem Process.run_bound (hr : Run Process.CarefulStep (Process.start s₀) es s) :
    ∀ i < s.backend.dev.maxQueues, (s.backend.dev.vq i).Bound s.backend.dev.regions := by
  refine hr.invariant
    (I := fun _ s => ∀ i < s.backend.dev.maxQueues, (s.backend.dev.vq i).Bound s.backend.dev.regions)
    ?_ ?_
  · intro i _
    refine .inl ?_
    simp [Process.start, Backend.start, vuInit, vqStart, VuQueue.rings]
  · intro es s fs s' hr hbound hst
    have hs := Process.run_inv (hr.mono fun _ _ _ h => CarefulStep.step h)
    obtain ⟨y, hkeep, hst⟩ := hst
    obtain ⟨b, gs, hdispatch, hsame⟩ := hs.callback hst
    refine hsame.bound ?_
    rcases dispatch_cases hdispatch with ⟨_, rfl, _⟩ | ⟨hyes, m, h, hread, hprocess, rfl, _⟩
    · exact hbound
    · exact vuProcessMessage_bound hbound (hkeep m ⟨hyes, hread⟩) hprocess

theorem mapRegions_fst {k : Nat} {t : List VuDevRegion × List Effect}
    (hm : mapRegions m x i k = some t) :
    t.1 = (List.range' i k).map fun j => mappedRegion (m.memoryRegion j) ((x.mmap j).getD 0) := by
  induction k generalizing i t with
  | zero =>
      cases hm
      rfl
  | succ k ih =>
      simp only [mapRegions, Option.bind_eq_bind, Option.bind_eq_some_iff] at hm
      obtain ⟨addr, haddr, u, hu, ht⟩ := hm
      cases ht
      rw [List.range'_succ, List.map_cons, ← ih hu, haddr]
      rfl

theorem vuSetMemTableExec_regions (h₀ : vuSetMemTableExec d m x = .ok h) :
    h.dev.regions = (List.range m.nregions).map (fun i =>
      mappedRegion (m.memoryRegion i) ((x.mmap i).getD 0)) ∧
    h.dev.regions.length ≤ vhostMemoryBaselineNregions := by
  unfold vuSetMemTableExec at h₀
  split at h₀
  · cases h₀
  rename_i hfew
  split at h₀
  · cases h₀
  rename_i t ht
  split at h₀
  · cases h₀
  rename_i e he
  cases h₀
  have hregions := mapRegions_fst ht
  rw [← List.range_eq_range'] at hregions
  rw [(remapRings_held he).2, ← hregions]
  refine ⟨rfl, ?_⟩
  rw [hregions, List.length_map, List.length_range]
  omega

theorem vuAddMemReg_regions (h₀ : vuAddMemReg d m x = .ok h) :
    h.dev.regions = d.regions ++ [mappedRegion m.memregRegion ((x.mmap 0).getD 0)] ∧
      d.regions.length ≠ vhostUserMaxRamSlots := by
  unfold vuAddMemReg at h₀
  split at h₀
  · cases h₀
  rename_i hchecks
  split at h₀
  · cases h₀
  rename_i addr haddr
  simp only at h₀
  split at h₀
  · cases h₀
  cases h₀
  rw [haddr]
  exact ⟨rfl, fun hfull => hchecks (.inr (.inr hfull))⟩

theorem vuRemMemReg_regions (h₀ : vuRemMemReg d m x = .ok h) :
    h.dev.regions = d.regions.filter fun r => !regEqual r m.memregRegion := by
  unfold vuRemMemReg at h₀
  split at h₀
  · cases h₀
  simp only at h₀
  split at h₀
  · cases h₀
  cases h₀
  simp only [removeRegions_filter, List.take_zero, List.drop_zero, List.nil_append]

theorem vuProcessMessage_regions (h₀ : vuProcessMessage d m x = .ok h) :
    h.dev.regions = tableAfter d.regions m x := by
  have hsame : m.request.toInt ≠ 5 → m.request.toInt ≠ 37 → m.request.toInt ≠ 38 →
      h.dev.regions = d.regions := by
    intro h5 h37 h38
    rcases (vuProcessMessage_cases h₀).rings with hsame | ⟨hreq, _⟩ | ⟨_, h₁⟩ | ⟨hreq, _⟩ | ⟨hreq, _⟩
    · exact hsame.regions
    · exact absurd hreq h5
    · rw [(vuSetVringAddrExec_spec h₁).2.2.1, setVq_regions]
    · exact absurd hreq h37
    · exact absurd hreq h38
  unfold tableAfter
  split
  · rename_i hreq
    exact (vuSetMemTableExec_regions (by simpa only [vuProcessMessage, hreq] using h₀)).1
  · rename_i hreq
    exact (vuAddMemReg_regions (by simpa only [vuProcessMessage, hreq] using h₀)).1
  · rename_i hreq
    exact vuRemMemReg_regions (by simpa only [vuProcessMessage, hreq] using h₀)
  · rename_i h5 h37 h38
    exact hsame h5 h37 h38

theorem Process.Inv.tableAfter (hs : s.Inv s₀ es) (hst : s.Takes y fs s') :
    s'.backend.dev.regions = y.tableAfter s.backend.dev.regions := by
  obtain ⟨b, gs, hdispatch, hsame⟩ := hs.callback hst
  rw [hsame.regions]
  rcases dispatch_cases hdispatch with ⟨hno, rfl, _⟩ | ⟨hyes, m, h, hread, hprocess, rfl, _⟩
  · rw [Iteration.tableAfter, if_neg hno]
  · rw [Iteration.tableAfter, if_pos hyes, hread]
    exact vuProcessMessage_regions hprocess

theorem Process.Inv.live_region (hs : s.Inv s₀ es) (hr : r ∈ s.backend.dev.regions) :
    .map r.mmapAddr r.mmapLen ∈ s.live := by
  have hheld : .map r.mmapAddr r.mmapLen ∈ heldRegions s.backend.dev.regions :=
    Multiset.mem_coe.mpr (List.mem_map_of_mem hr)
  rw [← Finset.mem_val, hs.val.1]
  simp only [VuDev.held, Multiset.mem_add]
  exact .inl (.inl (.inl (.inl (.inl (.inr hheld)))))

end Vlog.Vhost
