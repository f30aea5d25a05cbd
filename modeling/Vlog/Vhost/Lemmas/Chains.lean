import Vlog.Vhost.Lemmas.Layout
import Vlog.Vhost.Lemmas.Sink

/-!
# The virtqueue test agrees with the contract

Each stage lays chains that carry the payloads it expects, and the sink makes the expected lines of them.
-/

namespace Vlog.Vhost

open Vlog.Lib Vlog.Libc Vlog.Emulator

variable {g g' g₁ g₂ : TestGuest} {mem : Memory} {d e : VringDesc} {bs cs payload rest : List UInt8} {stage : Stage}
  {slot slot' tbl n i base nparts p : Nat} {piece : VringDesc → List UInt8 → Prop}

/-! ## One chain -/

theorem and_high (x : Nat) (h : x < 2 ^ 32) : x &&& 4294967280 = 16 * (x / 16) := by
  have hdiv : (x &&& 4294967280) / 2 ^ 4 = x / 16 := by
    rw [Nat.and_div_two_pow]
    have hmask : 4294967280 / 2 ^ 4 = 2 ^ 28 - 1 := rfl
    rw [hmask, Nat.and_two_pow_sub_one_eq_mod]
    omega
  have hmod : (x &&& 4294967280) % 2 ^ 4 = 0 := by
    rw [Nat.and_mod_two_pow]
    exact Nat.and_zero _
  omega

theorem allocPay_aligned {n : UInt32} (hroom : g.pay.toNat + n.toNat + 16 ≤ 0x8000) :
    ∃ start : UInt32, (allocPay n 16).run g = (start, { g with pay := start + n }) ∧
      g.pay.toNat ≤ start.toNat ∧ start.toNat ≤ g.pay.toNat + 15 := by
  let start := (g.pay + 16 - 1) &&& ~~~(16 - 1)
  have hstart : start.toNat = 16 * ((g.pay.toNat + 15) / 16) := by
    have hsum : (g.pay + 16 - 1).toNat = g.pay.toNat + 15 := by
      rw [UInt32.toNat_sub, UInt32.toNat_add]
      have h₁ : (1 : UInt32).toNat = 1 := rfl
      have h₂ : (16 : UInt32).toNat = 16 := rfl
      omega
    rw [UInt32.toNat_and, hsum]
    exact and_high _ (by omega)
  have hfits : ¬ start + n > gmemSize - 64 := by
    rw [gt_iff_lt, UInt32.lt_iff_toNat_lt, UInt32.toNat_add]
    have hsize : (gmemSize - 64).toNat = 65472 := rfl
    omega
  have hrun : (allocPay n 16).run g =
      if start + n > gmemSize - 64 then (offPay, { g with pay := offPay + n })
      else (start, { g with pay := start + n }) := rfl
  rw [if_neg hfits] at hrun
  exact ⟨start, hrun, by omega, by omega⟩

/-- A chain in the ring's table: its slots, what it takes of the arena, and that it carries the payload as long as
both stay as they are. -/
structure LaidOne (slot slot' : Nat) (payload : List UInt8) (g g' : TestGuest) : Prop where
  slots : slot < slot' ∧ slot' ≤ slot + 4
  pay : g.pay.toNat ≤ g'.pay.toNat ∧ g'.pay.toNat ≤ g.pay.toNat + payload.length + 64
  frame : ∀ x, x < descSize * slot ∨ descSize * slot' ≤ x → x < g.pay.toNat ∨ g'.pay.toNat ≤ x →
    g'.gmem x = g.gmem x
  carries : ∀ mem, (∀ x, descSize * slot ≤ x → x < descSize * slot' → mem x = g'.gmem x) →
    (∀ x, g.pay.toNat ≤ x → x < g'.pay.toNat → mem x = g'.gmem x) → Carries mem slot payload

/-- The arena is above the rings, and a chain fits into the first region. -/
structure Room (slot : Nat) (payload : List UInt8) (g : TestGuest) : Prop where
  slot_le : slot + 4 ≤ qnum
  arena : 0x3000 ≤ g.pay.toNat
  fits : g.pay.toNat + payload.length + 64 ≤ 0x8000
  size : 4 ≤ payload.length

theorem setDesc_run (tbl i : Nat) (d : VringDesc) (g : TestGuest) :
    (setDesc tbl i d).run g = ((), { g with gmem := g.gmem.store (tbl + descSize * i) d.bytes }) := rfl

theorem memcpy_run (a : Nat) (bs : List UInt8) (g : TestGuest) :
    (memcpy a bs).run g = ((), { g with gmem := g.gmem.store a bs }) := rfl

theorem layOne_single (h : Room slot payload g) :
    ∃ slot' g', (layOne .single slot payload).run g = (slot', g') ∧ LaidOne slot slot' payload g g' := by
  obtain ⟨hslot, harena, hfits, hsize⟩ := h
  have hn : (UInt32.ofNat payload.length).toNat = payload.length := by
    rw [UInt32.toNat_ofNat']
    omega
  have halloc : (allocPay (UInt32.ofNat payload.length) 1).run g =
      (g.pay, { g with pay := g.pay + UInt32.ofNat payload.length }) := allocPay_run (by omega)
  let d : VringDesc := { addr := gpaOf g.pay, len := UInt32.ofNat payload.length, flags := 0, next := 0 }
  have hrun : (layOne .single slot payload).run g =
      (slot + 1, { g with
        pay := g.pay + UInt32.ofNat payload.length
        gmem := (g.gmem.store g.pay.toNat payload).store (descSize * slot) d.bytes }) := by
    simp only [layOne, StateT.run_bind, halloc, setDesc_run, memcpy_run, offDesc, Nat.zero_add]
    rfl
  have hpay : (g.pay + UInt32.ofNat payload.length).toNat = g.pay.toNat + payload.length := by
    rw [UInt32.toNat_add]
    omega
  have hlen := bytes_length d
  simp only [descSize, qnum] at *
  refine ⟨slot + 1, _, hrun, ?_⟩
  constructor
  case slots => omega
  case pay => simp only; omega
  case frame =>
    intro x hx hx'
    simp only [descSize] at hx hx' ⊢
    rw [Memory.store_outside (by omega), Memory.store_outside (by omega)]
  case carries =>
    intro mem hdescs hbytes
    simp only [descSize] at hdescs hbytes
    have hdesc : mem.Holds (0 + 16 * slot) d.bytes := by
      apply holds_congr (Memory.holds_store (m := g.gmem.store g.pay.toNat payload) (a := 0 + 16 * slot))
      intro x hx hx'
      rw [hdescs x (by omega) (by omega), Nat.zero_add]
    have hdata : mem.Holds g.pay.toNat payload := by
      have hheld : ((g.gmem.store g.pay.toNat payload).store (16 * slot) d.bytes).Holds g.pay.toNat payload :=
        Memory.holds_store.store (by omega)
      apply holds_congr hheld
      intro x hx hx'
      exact hbytes x hx (by omega)
    apply chain_last (d := d) (by simp only [qnum]; omega) hdesc (by decide : (0 : UInt16) &&& descFNext = 0)
    apply Part.plain (by decide : (0 : UInt16) &&& descFIndirect = 0)
    exact piece_data (by decide : (0 : UInt16) &&& descFWrite = 0) rfl rfl (by omega) (by omega) hdata

theorem layChain_laid (hparts : 1 ≤ nparts) (hsize : nparts ≤ payload.length) (hn : base + nparts ≤ n)
    (hsmall : base + nparts < 2 ^ 16) (htbl : tbl + descSize * (base + nparts) ≤ g.pay.toNat)
    (hroom : g.pay.toNat + payload.length ≤ 0x8000) :
    ∃ g', (layChain tbl base base payload nparts).run g = (nparts, g') ∧
      Laid tbl n base nparts 0 payload g g' := by
  obtain ⟨left, rfl⟩ := Nat.exists_eq_add_of_le' hparts
  refine ⟨((layParts tbl base base (left + 1) payload (left + 1) 0 0).run g).2, rfl, ?_⟩
  have hlaid : Laid tbl n base (left + 1) 0 (payload.drop 0) g
      ((layParts tbl base base (left + 1) payload (left + 1) 0 0).run g).2 :=
    layParts_laid left (by omega) (by omega) (by omega) hn hsmall htbl (by omega)
  rwa [List.drop_zero] at hlaid

theorem rejected_gap (hwrite : e.flags &&& descFWrite = 0) (haddr : e.addr = 0x48000000) (hlen : e.len = 8) :
    Piece mem e [] := by
  apply Piece.rejected hwrite
  rintro hva ⟨v, hv, hlo, hhi, -⟩
  rw [haddr] at hlo hhi
  rw [hlen] at hhi
  rcases List.mem_cons.mp hv with rfl | hv
  · exact absurd hhi (by decide)
  · cases List.mem_singleton.mp hv
    exact absurd hlo (by decide)

/-- A chain with one descriptor more, which carries nothing -/
theorem laidOne_more (h : Laid offDesc qnum slot nparts 0 payload g g₂) (hslot : slot + nparts + 1 ≤ qnum)
    (hparts : 1 ≤ nparts ∧ nparts ≤ 3) (harena : 0x3000 ≤ g.pay.toNat) (hroom : g₂.pay.toNat ≤ 0x8000)
    (hpay : g₂.pay.toNat ≤ g'.pay.toNat ∧ g'.pay.toNat ≤ g₂.pay.toNat + 8)
    (hframe : ∀ x, x < descSize * (slot + nparts - 1) ∨ descSize * (slot + nparts + 1) ≤ x →
      x < g₂.pay.toNat ∨ g'.pay.toNat ≤ x → g'.gmem x = g₂.gmem x)
    (hlast : g'.gmem.Holds (descSize * (slot + nparts - 1))
      (VringDesc.bytes { loadDesc g₂.gmem (offDesc + descSize * (slot + nparts - 1)) with
        flags := (loadDesc g₂.gmem (offDesc + descSize * (slot + nparts - 1))).flags ||| descFNext
        next := UInt16.ofNat (slot + nparts) }))
    (hextra : g'.gmem.Holds (descSize * (slot + nparts)) e.bytes) (hend : e.flags &&& descFNext = 0)
    (hplain : e.flags &&& descFIndirect = 0) (hnone : ∀ mem, Piece mem e []) :
    LaidOne slot (slot + nparts + 1) payload g g' := by
  have hpay' := h.pay
  have hframe' := h.frame
  constructor
  case slots => omega
  case pay => omega
  case frame =>
    simp only [descSize, offDesc, qnum] at *
    intro x hx hx'
    rw [hframe x (by omega) (by omega), hframe' x (by omega) (by omega)]
  case carries =>
    intro mem hdescs hbytes
    have hmore : Chain mem (Part mem) offDesc qnum (slot + nparts) [] := by
      apply chain_last (d := e) (by omega)
      · apply holds_congr (by simpa [offDesc] using hextra)
        simp only [bytes_length, descSize, offDesc, qnum] at *
        intro x hx hx'
        exact hdescs x (by omega) (by omega)
      · exact hend
      · exact .plain hplain (hnone mem)
    apply h.chain_more (j := slot + nparts) hroom (by omega) (by omega) (fun d bs => Part.plain)
    · simp only [descSize, offDesc, qnum] at *
      intro x hx hx'
      rw [hdescs x (by omega) (by omega), hframe x (by omega) (by omega)]
    · simp only [descSize, offDesc, qnum] at *
      intro x hx hx'
      rw [hbytes x hx (by omega), hframe x (by omega) (by omega)]
    · apply holds_congr (by simpa [offDesc] using hlast)
      simp only [bytes_length, descSize, offDesc, qnum] at *
      intro x hx hx'
      exact hdescs x (by omega) (by omega)
    · simp only [qnum] at hslot
      omega
    · exact hmore

theorem laidOne_plain (h : Laid offDesc qnum slot nparts 0 payload g g') (hslot : slot + nparts ≤ qnum)
    (hparts : 1 ≤ nparts ∧ nparts ≤ 4) (hroom : g'.pay.toNat ≤ 0x8000) :
    LaidOne slot (slot + nparts) payload g g' := by
  have hpay := h.pay
  have hframe := h.frame
  constructor
  case slots => omega
  case pay => omega
  case frame =>
    simp only [descSize, offDesc] at *
    intro x hx hx'
    exact hframe x (by omega) hx'
  case carries =>
    intro mem hdescs hbytes
    apply h.chain hroom (by omega) hslot (fun d bs => Part.plain)
    · simp only [descSize, offDesc] at *
      intro x hx hx'
      exact hdescs x (by omega) (by omega)
    · exact hbytes

theorem Laid.seeded {s : UInt32} (s' : UInt32) (h : Laid tbl n base nparts p rest { g with seed := s } g') :
    Laid tbl n base nparts p rest g { g' with seed := s' } := ⟨h.pay, h.frame, h.parts⟩

theorem run_bind {α β : Type} {x : TestM α} {y : α} (h : x.run g = (y, g')) (k : α → TestM β) :
    (x >>= k).run g = (k y).run g' := by
  rw [StateT.run_bind, h]
  rfl

theorem layVoid_run (slot : Nat) (hslot : slot < qnum) (harena : 0x3000 ≤ g.pay.toNat)
    (hroom : g.pay.toNat + 8 ≤ 0x8000) :
    ∃ g' e, (layVoid slot).run g = ((), g') ∧
      (g.pay.toNat ≤ g'.pay.toNat ∧ g'.pay.toNat ≤ g.pay.toNat + 8) ∧
      (∀ x, x < descSize * slot ∨ descSize * (slot + 1) ≤ x → x < g.pay.toNat ∨ g'.pay.toNat ≤ x →
        g'.gmem x = g.gmem x) ∧
      g'.gmem.Holds (descSize * slot) (VringDesc.bytes e) ∧ e.flags &&& descFNext = 0 ∧
      e.flags &&& descFIndirect = 0 ∧ ∀ mem, Piece mem e [] := by
  obtain ⟨r, s, hr, -⟩ := rnd_run 2 g
  simp only [qnum] at hslot
  unfold layVoid
  rw [run_bind hr]
  by_cases hwritable : r = 0
  · rw [if_neg (not_not_intro hwritable)]
    have hlen := bytes_length { addr := 0x48000000, len := 8, flags := 0, next := 0 }
    refine ⟨_, { addr := 0x48000000, len := 8, flags := 0, next := 0 }, setDesc_run _ _ _ _,
      ⟨Nat.le_refl _, Nat.le_add_right _ _⟩, ?_, ?_, by decide, by decide, ?_⟩
    · simp only [descSize, offDesc] at hlen ⊢
      intro x hx _
      exact Memory.store_outside (by omega)
    · simp only [offDesc, Nat.zero_add]
      exact Memory.holds_store
    · intro mem
      exact rejected_gap (by decide) rfl rfl
  · rw [if_pos hwritable]
    have halloc : (allocPay 8 1).run { g with seed := s } = (g.pay, { g with seed := s, pay := g.pay + 8 }) :=
      allocPay_run hroom
    have hlen := bytes_length { addr := gpaOf g.pay, len := 8, flags := descFWrite, next := 0 }
    have hpay : (g.pay + 8).toNat = g.pay.toNat + 8 := by
      rw [UInt32.toNat_add]
      have h₈ : (8 : UInt32).toNat = 8 := rfl
      omega
    have hX : (lit "XXXXXXXX").length = 8 := rfl
    rw [run_bind halloc, run_bind (memcpy_run _ _ _)]
    refine ⟨_, { addr := gpaOf g.pay, len := 8, flags := descFWrite, next := 0 }, setDesc_run _ _ _ _, ?_, ?_, ?_,
      (by decide : descFWrite &&& descFNext = 0), (by decide : descFWrite &&& descFIndirect = 0),
      fun mem => .writable (by decide : descFWrite &&& descFWrite ≠ 0)⟩
    · simp only
      omega
    · simp only [descSize, offDesc] at hlen ⊢
      intro x hx hx'
      rw [Memory.store_outside (by omega), Memory.store_outside (by omega)]
    · simp only [offDesc, Nat.zero_add]
      exact Memory.holds_store

theorem layOne_chained (h : Room slot payload g) :
    ∃ slot' g', (layOne .chained slot payload).run g = (slot', g') ∧ LaidOne slot slot' payload g g' := by
  obtain ⟨hslot, harena, hfits, hsize⟩ := h
  obtain ⟨r, s, hr, hr2⟩ := rnd_lt (rfl : (2 : UInt32).toNat = 2) g
  simp only [qnum] at hslot
  obtain ⟨g₂, hlay, hlaid⟩ : ∃ g₂, (layChain offDesc slot slot payload (2 + r.toNat)).run { g with seed := s } =
      (2 + r.toNat, g₂) ∧ Laid offDesc qnum slot (2 + r.toNat) 0 payload { g with seed := s } g₂ :=
    layChain_laid (by omega) (by omega) (by simp only [qnum]; omega) (by omega)
      (by simp only [offDesc, descSize]; omega) (by simp only; omega)
  obtain ⟨r₂, s₂, hr₂, -⟩ := rnd_run 2 g₂
  have hpay₂ := hlaid.pay
  simp only at hpay₂
  unfold layOne
  simp only
  rw [run_bind hr, run_bind hlay, run_bind hr₂]
  by_cases hmore : r₂ = 0
  · rw [if_neg (not_not_intro hmore)]
    have hplain := laidOne_plain (hlaid.seeded s₂) (by simp only [qnum]; omega) (by omega)
      (by simp only; omega)
    exact ⟨_, _, rfl, hplain⟩
  · rw [if_pos hmore]
    -- What stands in front of the extra descriptor, with the last part leading on to it.
    let d : VringDesc := { loadDesc g₂.gmem (offDesc + descSize * (slot + (2 + r.toNat) - 1)) with
      flags := (loadDesc g₂.gmem (offDesc + descSize * (slot + (2 + r.toNat) - 1))).flags ||| descFNext
      next := UInt16.ofNat (slot + (2 + r.toNat)) }
    let g₃ : TestGuest := { g₂ with
      seed := s₂
      gmem := g₂.gmem.store (descSize * (slot + (2 + r.toNat) - 1)) d.bytes }
    have hset : (setDesc offDesc (slot + (2 + r.toNat) - 1) d).run { g₂ with seed := s₂ } = ((), g₃) := by
      rw [setDesc_run, offDesc, Nat.zero_add]
    have hget : (get : TestM TestGuest).run { g₂ with seed := s₂ } =
        ({ g₂ with seed := s₂ }, { g₂ with seed := s₂ }) := rfl
    rw [run_bind hget, run_bind hset]
    obtain ⟨g₄, e, hvoid, hpay, hframe, hextra, hend, hplain, hnone⟩ :=
      layVoid_run (g := g₃) (slot + (2 + r.toNat)) (by simp only [qnum]; omega) (by simp only [g₃]; omega)
        (by simp only [g₃]; omega)
    rw [run_bind hvoid]
    refine ⟨_, _, rfl, ?_⟩
    have hlen := bytes_length d
    simp only [g₃] at hpay hframe
    apply laidOne_more (hlaid.seeded s₂) (by simp only [qnum]; omega) (by omega) harena
      (by simp only; omega) hpay ?_ ?_ hextra hend hplain hnone
    · simp only [descSize] at hframe hlen ⊢
      intro x hx hx'
      rw [hframe x (by omega) hx', Memory.store_outside (by omega)]
    · have hheld : g₃.gmem.Holds (descSize * (slot + (2 + r.toNat) - 1)) d.bytes := Memory.holds_store
      apply holds_congr hheld
      simp only [descSize] at hframe hlen ⊢
      intro x hx hx'
      exact hframe x (by omega) (by omega)

theorem layOne_indirect (h : Room slot payload g) :
    ∃ slot' g', (layOne .indirect slot payload).run g = (slot', g') ∧ LaidOne slot slot' payload g g' := by
  obtain ⟨hslot, harena, hfits, hsize⟩ := h
  obtain ⟨r, s, hr, hr2⟩ := rnd_lt (rfl : (2 : UInt32).toNat = 2) g
  simp only [qnum] at hslot
  have hn : (UInt32.ofNat ((1 + r.toNat) * descSize)).toNat = 16 * (1 + r.toNat) := by
    rw [UInt32.toNat_ofNat', descSize]
    omega
  obtain ⟨tbl, halloc, hlo, hhi⟩ : ∃ start : UInt32,
      (allocPay (UInt32.ofNat ((1 + r.toNat) * descSize)) 16).run { g with seed := s } =
        (start, { g with seed := s, pay := start + UInt32.ofNat ((1 + r.toNat) * descSize) }) ∧
      g.pay.toNat ≤ start.toNat ∧ start.toNat ≤ g.pay.toNat + 15 :=
    allocPay_aligned (by rw [hn]; simp only; omega)
  have hpay₁ : (tbl + UInt32.ofNat ((1 + r.toNat) * descSize)).toNat = tbl.toNat + 16 * (1 + r.toNat) := by
    rw [UInt32.toNat_add, hn]
    omega
  let g₁ : TestGuest := { g with seed := s, pay := tbl + UInt32.ofNat ((1 + r.toNat) * descSize) }
  obtain ⟨g₂, hlay, hlaid⟩ : ∃ g₂, (layChain tbl.toNat 0 0 payload (1 + r.toNat)).run g₁ = (1 + r.toNat, g₂) ∧
      Laid tbl.toNat (1 + r.toNat) 0 (1 + r.toNat) 0 payload g₁ g₂ :=
    layChain_laid (by omega) (by omega) (by omega) (by omega)
      (by simp only [g₁, hpay₁]; simp only [descSize]; omega) (by simp only [g₁, hpay₁]; omega)
  have hpay₂ := hlaid.pay
  simp only [g₁, hpay₁] at hpay₂
  let d : VringDesc :=
    { addr := gpaOf tbl, len := UInt32.ofNat ((1 + r.toNat) * descSize), flags := descFIndirect, next := 0 }
  have hlen := bytes_length d
  let g₃ : TestGuest := { g₂ with gmem := g₂.gmem.store (descSize * slot) d.bytes }
  have hset : (setDesc offDesc slot d).run g₂ = ((), g₃) := by
    rw [setDesc_run, offDesc, Nat.zero_add]
  unfold layOne
  simp only
  rw [run_bind hr, run_bind halloc, run_bind hlay, run_bind hset]
  refine ⟨slot + 1, g₃, rfl, ?_⟩
  have hframe := hlaid.frame
  simp only [g₁, hpay₁] at hframe
  constructor
  case slots => omega
  case pay => simp only [g₃]; omega
  case frame =>
    simp only [descSize, g₃] at hframe hlen ⊢
    intro x hx hx'
    rw [Memory.store_outside (by omega), hframe x (by omega) (by omega)]
  case carries =>
    intro mem hdescs hbytes
    have hsame : ∀ x, g.pay.toNat ≤ x → x < g₂.pay.toNat → mem x = g₂.gmem x := by
      simp only [descSize, g₃] at hbytes hlen
      intro x hx hx'
      rw [hbytes x hx hx', Memory.store_outside (by omega)]
    have hdesc : mem.Holds (offDesc + descSize * slot) d.bytes := by
      have hheld : g₃.gmem.Holds (descSize * slot) d.bytes := Memory.holds_store
      rw [offDesc, Nat.zero_add]
      apply holds_congr hheld
      simp only [descSize] at hdescs hlen ⊢
      intro x hx hx'
      exact hdescs x hx (by omega)
    have htable : Chain mem (Piece mem) tbl.toNat (1 + r.toNat) 0 payload := by
      apply hlaid.chain (by omega) (by omega) (by omega) (fun d bs _ h => h)
      · simp only [descSize]
        intro x hx hx'
        exact hsame x (by omega) (by omega)
      · simp only [g₁, hpay₁]
        intro x hx hx'
        exact hsame x (by omega) hx'
    apply chain_last (d := d) (by simp only [qnum]; omega) hdesc (by decide : descFIndirect &&& descFNext = 0)
    have hd : d.len.toNat = 16 * (1 + r.toNat) := hn
    have hsize' : d.len.toNat / descSize = 1 + r.toNat := by
      rw [hd, descSize]
      omega
    have htranslates : Translates testRegions d.addr d.len.toUInt64 tbl.toUInt64 := by
      apply translates_gpaOf (by omega)
      rw [UInt32.toNat_toUInt64, hd]
      omega
    apply Part.table (by decide : descFIndirect &&& descFWrite = 0)
      (by decide : descFIndirect &&& descFIndirect ≠ 0) htranslates
    rw [hsize', UInt32.toNat_toUInt64]
    exact htable

/-! ## A chain carries one record -/

theorem translates_unique {gpa len hva hva' : UInt64} (h : Translates testRegions gpa len hva)
    (h' : Translates testRegions gpa len hva') : hva = hva' := by
  obtain ⟨v, hv, hlo, hhi, rfl⟩ := h
  obtain ⟨v', hv', hlo', hhi', rfl⟩ := h'
  have hsize : rsize.toUInt64.toNat = 0x8000 := rfl
  have h₀ : r0Base.toNat = 0x40000000 := rfl
  have h₁ : r1Base.toNat = 0x50000000 := rfl
  simp only [testRegions, List.mem_cons, List.not_mem_nil, or_false] at hv hv'
  rcases hv with rfl | rfl <;> rcases hv' with rfl | rfl <;> simp only at hlo hhi hlo' hhi'
  · rfl
  · omega
  · omega
  · rfl

theorem Piece.unique (h : Piece mem d bs) (h' : Piece mem d cs) : bs = cs := by
  cases h with
  | writable hw =>
      cases h' with
      | writable => rfl
      | data hr => exact absurd hr hw
      | rejected hr => exact absurd hr hw
  | data hr ht =>
      cases h' with
      | writable hw => exact absurd hr hw
      | data _ ht' => rw [translates_unique ht ht']
      | rejected _ hno => exact absurd ht (hno _)
  | rejected hr hno =>
      cases h' with
      | writable hw => exact absurd hr hw
      | data _ ht => exact absurd ht (hno _)
      | rejected => rfl

theorem Chain.unique (hpiece : ∀ d bs cs, piece d bs → piece d cs → bs = cs)
    (h : Chain mem piece tbl n i bs) (h' : Chain mem piece tbl n i cs) : bs = cs := by
  induction h generalizing cs with
  | last _ hend hp =>
      cases h' with
      | last _ _ hp' => exact hpiece _ _ _ hp hp'
      | next _ hnext => exact absurd hend hnext
  | next _ hnext hp _ ih =>
      cases h' with
      | last _ hend => exact absurd hend hnext
      | next _ _ hp' hc => rw [hpiece _ _ _ hp hp', ih hc]

theorem Part.unique (h : Part mem d bs) (h' : Part mem d cs) : bs = cs := by
  cases h with
  | plain hi hp =>
      cases h' with
      | plain _ hp' => exact hp.unique hp'
      | table _ hi' => exact absurd hi hi'
  | table _ hi ht hc =>
      cases h' with
      | plain hi' => exact absurd hi' hi
      | table _ _ ht' hc' =>
          cases translates_unique ht ht'
          exact hc.unique (by intro _ _ _ h h'; exact h.unique h') hc'

theorem carries_unique {head : Nat} (h : Carries mem head bs) (h' : Carries mem head cs) : bs = cs :=
  Chain.unique (by intro _ _ _ hp hp'; exact hp.unique hp') h h'

/-! ## Rounds -/

theorem layOne_laid (stage : Stage) (h : Room slot payload g) :
    ∃ slot' g', (layOne stage slot payload).run g = (slot', g') ∧ LaidOne slot slot' payload g g' := by
  cases stage with
  | single => exact layOne_single h
  | chained => exact layOne_chained h
  | indirect => exact layOne_indirect h

/-- A level with one digit, and a text of up to 24 small letters -/
structure Expected.Drawn (e : Expected) : Prop where
  level : e.level.toNat < 6
  text : 1 ≤ e.text.length ∧ e.text.length ≤ 24
  letters : ∀ c ∈ e.text, 97 ≤ c.toNat

theorem drawText_run (n : Nat) (g : TestGuest) :
    ∃ text s, (drawText n).run g = (text, { g with seed := s }) ∧ text.length = n ∧ ∀ c ∈ text, 97 ≤ c.toNat := by
  induction n generalizing g with
  | zero => exact ⟨[], g.seed, rfl, rfl, fun c hc => nomatch hc⟩
  | succ n ih =>
      obtain ⟨r, s, hr, hr26⟩ := rnd_lt (rfl : (26 : UInt32).toNat = 26) g
      obtain ⟨text, s', ht, hlen, hall⟩ := ih { g with seed := s }
      have hc : 97 ≤ (UInt8.ofNat 'a'.toNat + r.toUInt8).toNat := by
        have ha : (UInt8.ofNat 'a'.toNat).toNat = 97 := rfl
        rw [UInt8.toNat_add, UInt32.toNat_toUInt8, ha]
        omega
      refine ⟨(UInt8.ofNat 'a'.toNat + r.toUInt8) :: text, s', ?_, congrArg (· + 1) hlen, ?_⟩
      · unfold drawText
        rw [run_bind hr, run_bind ht]
        rfl
      · intro c hmem
        rcases List.mem_cons.mp hmem with rfl | hmem
        · exact hc
        · exact hall c hmem

theorem fmtU_level {level : UInt32} (h : level.toNat < 6) : fmtU level = [UInt8.ofNat (48 + level.toNat)] := by
  have hall : ∀ l < 6, decimal l = [UInt8.ofNat (48 + l)] := by decide
  exact hall _ h

theorem payloadOf_length {e : Expected} (h : e.Drawn) :
    4 ≤ (payloadOf e.level e.text).length ∧ (payloadOf e.level e.text).length ≤ 27 := by
  have hsp : (lit " ").length = 1 := rfl
  have htext := h.text
  rw [payloadOf, fmtU_level h.level]
  simp only [List.length_append, List.length_singleton, hsp]
  omega

/-- The chains of a round: what they take of the arena, and that each carries its payload in the end. -/
structure LaidRound (left slot : Nat) (es : List Expected) (g g' : TestGuest) : Prop where
  count : es.length ≤ left
  pay : g.pay.toNat ≤ g'.pay.toNat ∧ g'.pay.toNat ≤ g.pay.toNat + 91 * left
  frame : ∀ x, x < descSize * slot ∨ descSize * qnum ≤ x → x < g.pay.toNat ∨ g'.pay.toNat ≤ x →
    g'.gmem x = g.gmem x
  carries : ∀ e ∈ es, e.Drawn ∧ Carries g'.gmem e.head (payloadOf e.level e.text)
  some : 0 < left → slot + 4 ≤ qnum → es ≠ []

theorem layRound_laid (stage : Stage) (left slot : Nat) (harena : 0x3000 ≤ g.pay.toNat)
    (hroom : g.pay.toNat + 91 * left ≤ 0x8000) :
    ∃ es g', (layRound stage left slot).run g = (es, g') ∧ LaidRound left slot es g g' := by
  induction left generalizing slot g with
  | zero =>
      refine ⟨[], g, rfl, Nat.le_refl _, ⟨Nat.le_refl _, Nat.le_refl _⟩, fun _ _ _ => rfl, nofun, ?_⟩
      intro hleft
      exact absurd hleft (Nat.lt_irrefl 0)
  | succ left ih =>
      unfold layRound
      by_cases hslot : slot + 4 ≤ qnum
      case neg =>
        rw [if_neg hslot]
        exact ⟨[], g, rfl, Nat.zero_le _, ⟨Nat.le_refl _, Nat.le_add_right _ _⟩, fun _ _ _ => rfl, nofun,
          fun _ h => absurd h hslot⟩
      rw [if_pos hslot]
      obtain ⟨level, s₁, hlevel, h6⟩ := rnd_lt (rfl : (6 : UInt32).toNat = 6) g
      obtain ⟨t, s₂, ht, h24⟩ := rnd_lt (rfl : (24 : UInt32).toNat = 24) { g with seed := s₁ }
      obtain ⟨text, s₃, htext, hlen, hletters⟩ := drawText_run (1 + t.toNat) { g with seed := s₂ }
      have hdrawn : Expected.Drawn { head := slot, level := level, text := text } :=
        ⟨h6, by simp only; omega, hletters⟩
      obtain ⟨hmin, hmax⟩ := payloadOf_length hdrawn
      simp only at hmin hmax
      have hfits : Room slot (payloadOf level text) { g with seed := s₃ } :=
        ⟨hslot, harena, by simp only; omega, hmin⟩
      obtain ⟨slot', g₁, hone, hlaid⟩ := layOne_laid stage hfits
      obtain ⟨hslots, hpay, hframe, hcarries⟩ := hlaid
      simp only at hpay hframe hcarries
      obtain ⟨es, g₂, hrest, hround⟩ := ih (g := g₁) slot' (by omega) (by omega)
      obtain ⟨hcount, hpay', hframe', hall, -⟩ := hround
      rw [run_bind hlevel, run_bind ht, run_bind htext, run_bind hone, run_bind hrest]
      refine ⟨_, g₂, rfl, ?_⟩
      simp only [descSize, qnum] at hslot hframe hframe' hcarries
      constructor
      case count => exact Nat.succ_le_succ hcount
      case pay => omega
      case frame =>
        simp only [descSize, qnum]
        intro x hx hx'
        rw [hframe' x (by omega) (by omega), hframe x (by omega) (by omega)]
      case some => exact fun _ _ => List.cons_ne_nil _ _
      case carries =>
        intro e he
        rcases List.mem_cons.mp he with rfl | he
        · refine ⟨hdrawn, hcarries _ ?_ ?_⟩
          · intro x hx hx'
            exact hframe' x (by omega) (by omega)
          · intro x hx hx'
            exact hframe' x (by omega) (by omega)
        · exact hall e he

theorem testRound_laid (stage : Stage) (harena : 0x3000 ≤ g.pay.toNat) (hroom : g.pay.toNat + 182 ≤ 0x8000) :
    ∃ es g', (testRound stage).run g = (es, g') ∧ (1 ≤ es.length ∧ es.length ≤ 2) ∧
      (g.pay.toNat ≤ g'.pay.toNat ∧ g'.pay.toNat ≤ g.pay.toNat + 182) ∧
      ∀ e ∈ es, e.Drawn ∧ Carries g'.gmem e.head (payloadOf e.level e.text) := by
  obtain ⟨r, s, hr, hr2⟩ := rnd_lt (rfl : (2 : UInt32).toNat = 2) g
  obtain ⟨es, g', hrun, hcount, hpay, -, hall, hsome⟩ :=
    layRound_laid (g := { g with seed := s }) stage (1 + r.toNat) 0 harena (by simp only; omega)
  simp only at hpay
  unfold testRound
  rw [run_bind hr]
  have hne := hsome (by omega) (by decide)
  exact ⟨es, g', hrun, ⟨List.length_pos_iff.mpr hne, by omega⟩, ⟨hpay.1, by omega⟩, hall⟩

/-! ## The test -/

theorem Rounds.drawn {seed : UInt32} {k : Nat} {es : List (Expected × List Byte)} (hk : k ≤ 6)
    (hr : Rounds stage (testStart seed) k es g') :
    (0x3000 ≤ g'.pay.toNat ∧ g'.pay.toNat ≤ 0x3000 + 182 * k) ∧ (k ≤ es.length ∧ es.length ≤ 2 * k) ∧
      ∀ p ∈ es, p.1.Drawn ∧ p.2 = payloadOf p.1.level p.1.text := by
  induction hr with
  | none => exact ⟨⟨Nat.le_refl _, Nat.le_refl _⟩, ⟨Nat.le_refl _, Nat.le_refl _⟩, nofun⟩
  | @round k es fs g₁ g₂ _ hst ih =>
      obtain ⟨⟨hlo, hhi⟩, hcount, hall⟩ := ih (by omega)
      obtain ⟨g₃, hrun, hcarries, -, hpay⟩ := hst
      obtain ⟨xs, g₄, hrun', hcount', hpay', hdrawn⟩ := testRound_laid stage hlo (by omega)
      rw [hrun'] at hrun
      cases hrun
      rw [List.length_map] at hcount'
      rw [hpay, List.length_append]
      refine ⟨⟨by omega, by omega⟩, ⟨by omega, by omega⟩, ?_⟩
      intro p hp
      rcases List.mem_append.mp hp with hp | hp
      · exact hall p hp
      · obtain ⟨hd, hc⟩ := hdrawn p.1 (List.mem_map_of_mem hp)
        exact ⟨hd, carries_unique (hcarries p hp) hc⟩

/-- Wherever the test is, the next round leaves something for the handler to emit, and the handler may leave
any memory. -/
theorem Rounds.next {seed : UInt32} {k : Nat} {es : List (Expected × List Byte)} (hk : k < 6)
    (hr : Rounds stage (testStart seed) k es g') :
    ∃ fs, fs ≠ [] ∧ ∀ mem, ∃ g'', g''.gmem = mem ∧ RoundStep stage g' fs g'' := by
  obtain ⟨⟨hlo, hhi⟩, -, -⟩ := hr.drawn (by omega)
  obtain ⟨xs, g₂, hrun, hcount, -, hdrawn⟩ := testRound_laid stage hlo (by omega)
  refine ⟨xs.map fun e => (e, payloadOf e.level e.text), ?_, fun mem => ?_⟩
  · intro hnil
    rw [List.map_eq_nil_iff.mp hnil] at hcount
    exact absurd hcount.1 (by decide)
  · refine ⟨{ g₂ with gmem := mem }, rfl, g₂, ?_, ?_, rfl, rfl⟩
    · rw [hrun]
      simp [Function.comp_def]
    · intro p hp
      obtain ⟨e, he, rfl⟩ := List.mem_map.mp hp
      exact (hdrawn e he).2

theorem rounds_exist (stage : Stage) (seed : UInt32) (k : Nat) (hk : k ≤ 6) :
    ∃ es g', Rounds stage (testStart seed) k es g' := by
  induction k with
  | zero => exact ⟨[], _, .none⟩
  | succ k ih =>
      obtain ⟨es, g₁, hr⟩ := ih (by omega)
      obtain ⟨fs, -, hany⟩ := hr.next hk
      obtain ⟨g₂, -, hst⟩ := hany g₁.gmem
      exact ⟨_, g₂, hr.round hst⟩

/-! ## The log -/

theorem stripEnd_payloadOf {e : Expected} (h : e.Drawn) :
    stripEnd (payloadOf e.level e.text) = UInt8.ofNat (48 + e.level.toNat) :: space :: e.text := by
  obtain ⟨front, c, htext⟩ : ∃ front c, e.text = front ++ [c] := by
    rcases List.eq_nil_or_concat' e.text with hnil | ⟨front, c, hc⟩
    · have hlen := h.text.1
      rw [hnil] at hlen
      exact absurd hlen (by decide)
    · exact ⟨front, c, hc⟩
  have hc : 97 ≤ c.toNat := h.letters c (by rw [htext]; simp)
  have hkeep : ¬ ((c == newline || c == cr) = true) := by
    rw [Bool.or_eq_true, beq_iff_eq, beq_iff_eq]
    rintro (rfl | rfl)
    · exact absurd hc (by decide)
    · exact absurd hc (by decide)
  have hline : fmtU e.level ++ lit " " ++ e.text =
      (UInt8.ofNat (48 + e.level.toNat) :: space :: front) ++ [c] := by
    rw [fmtU_level h.level, htext]
    rfl
  have hstrip := List.rdropWhile_concat_neg (fun b : Byte => b == newline || b == cr)
    (UInt8.ofNat (48 + e.level.toNat) :: space :: front) c hkeep
  rw [payloadOf, stripEnd_newline, hline, stripEnd, hstrip, htext]
  rfl

theorem chainRecord_payloadOf {e : Expected} (h : e.Drawn) (n : Nat) :
    (chainRecord n (payloadOf e.level e.text)).text = expLog n e ++ [newline] := by
  have hlevel := h.level
  have hdigit : isDigit (UInt8.ofNat (48 + e.level.toNat)) = true := by
    have hall : ∀ l < 6, isDigit (UInt8.ofNat (48 + l)) = true := by decide
    exact hall _ hlevel
  have hvalue : UInt32.ofNat ((UInt8.ofNat (48 + e.level.toNat)).toNat - 48) = e.level := by
    have hd : (UInt8.ofNat (48 + e.level.toNat)).toNat = 48 + e.level.toNat := by
      rw [UInt8.toNat_ofNat']
      omega
    rw [hd, Nat.add_sub_cancel_left]
    exact UInt32.ofNat_toNat
  rw [chainRecord, stripEnd_payloadOf h, splitLevel_digit hdigit, hvalue]
  rfl

theorem kept_payloadOf {e : Expected} (h : e.Drawn) : Kept (payloadOf e.level e.text) := by
  by_contra hnot
  rw [← stripEnd_eq_nil_iff, stripEnd_payloadOf h] at hnot
  cases hnot

theorem chainRecords_payloads {es : List (Expected × List Byte)}
    (h : ∀ p ∈ es, p.1.Drawn ∧ p.2 = payloadOf p.1.level p.1.text) :
    (chainRecords (es.map Prod.snd)).flatMap Record.text =
      (es.mapIdx fun n p => expLog n p.1 ++ [newline]).flatten := by
  have hkept : (es.map Prod.snd).filter Kept = es.map Prod.snd := by
    rw [List.filter_eq_self]
    intro bytes hbytes
    obtain ⟨p, hp, rfl⟩ := List.mem_map.mp hbytes
    rw [(h p hp).2]
    exact decide_eq_true (kept_payloadOf (h p hp).1)
  rw [chainRecords, hkept, List.flatMap_def]
  congr 1
  apply List.ext_getElem
  · simp
  · intro n hn hn'
    have hn'' : n < es.length := by simpa using hn'
    obtain ⟨hdrawn, hpayload⟩ := h es[n] (List.getElem_mem hn'')
    simp only [List.getElem_map, List.getElem_mapIdx]
    rw [hpayload]
    exact chainRecord_payloadOf hdrawn n

end Vlog.Vhost
