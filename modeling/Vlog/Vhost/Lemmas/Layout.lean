import Vlog.Vhost.Chains

/-!
# `lay_chain` of the virtqueue test

The parts of a payload and the descriptors in front of them, and what a chain of them carries in every memory that
keeps both.
-/

namespace Vlog.Vhost

open Vlog.Lib Vlog.Libc

variable {g g' : TestGuest} {mem mem' : Memory} {a : Nat} {d : VringDesc} {bs : List UInt8} {b : UInt32}

/-! ## Memories that agree -/

theorem holds_congr (h : mem.Holds a bs) (hsame : ∀ x, a ≤ x → x < a + bs.length → mem' x = mem x) :
    mem'.Holds a bs := by
  rw [Memory.holds_iff] at h ⊢
  intro i hi
  rw [hsame (a + i) (by omega) (by omega)]
  exact h i hi

theorem bytes_length (d : VringDesc) : d.bytes.length = descSize := by
  simp [VringDesc.bytes, descSize]

theorem loadDesc_of_holds (h : mem.Holds a d.bytes) : loadDesc mem a = d := by
  simp only [VringDesc.bytes, Memory.holds_append, List.length_append, Memory.leBytes_length] at h
  obtain ⟨⟨⟨haddr, hlen⟩, hflags⟩, hnext⟩ := h
  have h₁ := haddr.load
  have h₂ := hlen.load
  have h₃ := hflags.load
  have h₄ := hnext.load
  have e₁ := d.addr.toNat_lt
  have e₂ := d.len.toNat_lt
  have e₃ := d.flags.toNat_lt
  have e₄ := d.next.toNat_lt
  rw [Nat.mod_eq_of_lt (by omega)] at h₁ h₂ h₃ h₄
  simp [loadDesc, h₁, h₂, h₃, h₄]

/-! ## The steps of the test -/

theorem rnd_run (n : UInt32) (g : TestGuest) :
    ∃ r s, (rnd n).run g = (r, { g with seed := s }) ∧ (r.toNat < n.toNat ∨ r = 0) := by
  refine ⟨_, _, rfl, ?_⟩
  split
  · rename_i hn
    left
    rw [UInt32.toNat_mod]
    apply Nat.mod_lt
    exact Nat.pos_of_ne_zero fun h => hn (UInt32.toNat_inj.mp h)
  · exact .inr rfl

theorem rnd_lt {n : UInt32} {k : Nat} (hn : n.toNat = k + 1) (g : TestGuest) :
    ∃ r s, (rnd n).run g = (r, { g with seed := s }) ∧ r.toNat < k + 1 := by
  obtain ⟨r, s, hr, hlt | rfl⟩ := rnd_run n g
  · exact ⟨r, s, hr, hn ▸ hlt⟩
  · exact ⟨0, s, hr, Nat.succ_pos k⟩

theorem allocPay_run {n : UInt32} (hroom : g.pay.toNat + n.toNat ≤ 0x8000) :
    (allocPay n 1).run g = (g.pay, { g with pay := g.pay + n }) := by
  have hstart : (g.pay + 1 - 1) &&& ~~~(1 - 1) = g.pay := by
    rw [UInt32.add_sub_cancel, UInt32.sub_self]
    exact UInt32.and_neg_one
  have hfits : ¬ g.pay + n > gmemSize - 64 := by
    rw [gt_iff_lt, UInt32.lt_iff_toNat_lt, UInt32.toNat_add]
    have hsize : (gmemSize - 64).toNat = 65472 := rfl
    omega
  have hrun : (allocPay n 1).run g =
      if ((g.pay + 1 - 1) &&& ~~~(1 - 1)) + n > gmemSize - 64 then (offPay, { g with pay := offPay + n })
      else ((g.pay + 1 - 1) &&& ~~~(1 - 1), { g with pay := ((g.pay + 1 - 1) &&& ~~~(1 - 1)) + n }) := rfl
  rw [hrun, hstart, if_neg hfits]

theorem takeLen_run {plen off nparts p left : Nat} (hp : p + left + 1 = nparts) (hoff : off + left + 1 ≤ plen)
    (hlen : plen < 2 ^ 16) (g : TestGuest) :
    ∃ take s, (takeLen plen off nparts p).run g = (take, { g with seed := s }) ∧ 1 ≤ take ∧
      take + left ≤ plen - off ∧ (left = 0 → take = plen - off) := by
  unfold takeLen
  by_cases hlast : p + 1 = nparts
  · rw [if_pos hlast]
    exact ⟨plen - off, g.seed, rfl, by omega, by omega, fun _ => rfl⟩
  · rw [if_neg hlast]
    have hint : ((plen : Int) - off - (nparts - p)) = ((plen - off - (left + 1) : Nat) : Int) := by omega
    obtain ⟨r, s, hrun, hr⟩ := rnd_run (UInt32.ofInt ((plen : Int) - off - (nparts - p))) g
    have hn : (UInt32.ofInt ((plen : Int) - off - (nparts - p))).toNat = plen - off - (left + 1) := by
      rw [hint, UInt32.ofInt, UInt32.toNat_ofNat']
      omega
    have hsmall : r.toNat ≤ plen - off - (left + 1) - 1 ∨ r.toNat = 0 := by
      rcases hr with hr | rfl
      · left
        omega
      · exact .inr rfl
    have hr32 : r.toInt32.toInt = r.toNat := by
      have hlt : 2 * r.toBitVec.toNat < 2 ^ 32 := by
        rw [UInt32.toNat_toBitVec]
        omega
      exact BitVec.toInt_eq_toNat_of_lt hlt
    refine ⟨(1 + r.toInt32.toInt).toNat, s, ?_, ?_, ?_, ?_⟩
    · simp only [StateT.run_bind, hrun]
      rfl
    all_goals rw [hr32]; omega

/-! ## Translation -/

theorem gpaOf_toNat (h : b.toNat < 0x8000) : (gpaOf b).toNat = 0x40000000 + b.toNat := by
  have hlt : b < rsize := UInt32.lt_iff_toNat_lt.mpr h
  have hbase : r0Base.toNat = 0x40000000 := rfl
  rw [gpaOf, if_pos hlt, UInt64.toNat_add, UInt32.toNat_toUInt64, hbase]
  omega

theorem translates_gpaOf {len : UInt64} (h : b.toNat < 0x8000) (hlen : b.toNat + len.toNat ≤ 0x8000) :
    Translates testRegions (gpaOf b) len b.toUInt64 := by
  have hlt : b < rsize := UInt32.lt_iff_toNat_lt.mpr h
  refine ⟨_, List.mem_cons_self, ?_, ?_, ?_⟩
  · rw [gpaOf_toNat h]
    exact Nat.le_add_right 0x40000000 _
  · rw [gpaOf_toNat h]
    have hbase : r0Base.toNat + rsize.toUInt64.toNat = 0x40000000 + 0x8000 := rfl
    simp only [hbase]
    omega
  · rw [gpaOf, if_pos hlt]
    simp only [UInt64.zero_add]
    rw [UInt64.add_comm, UInt64.add_sub_cancel]

theorem piece_data (hwrite : d.flags &&& descFWrite = 0) (haddr : d.addr = gpaOf b)
    (hlen : d.len = UInt32.ofNat bs.length) (hb : b.toNat < 0x8000) (hroom : b.toNat + bs.length ≤ 0x8000)
    (hbytes : mem.Holds b.toNat bs) : Piece mem d bs := by
  have hsize : d.len.toNat = bs.length := by
    rw [hlen, UInt32.toNat_ofNat']
    omega
  have hpiece : Piece mem d (mem.slice b.toUInt64.toNat d.len.toNat) := by
    apply Piece.data hwrite
    rw [haddr]
    apply translates_gpaOf hb
    rw [UInt32.toNat_toUInt64, hsize]
    exact hroom
  rwa [UInt32.toNat_toUInt64, hsize, hbytes] at hpiece

/-! ## Chains -/

/-- From descriptor `i`, the pieces in front of descriptor `j`. -/
inductive Linked (mem : Memory) (piece : VringDesc → List UInt8 → Prop) (tbl n : Nat) :
    Nat → List UInt8 → Nat → Prop
  | here {i} : Linked mem piece tbl n i [] i
  | next {i d bs cs j} : i < n → mem.Holds (tbl + descSize * i) (VringDesc.bytes d) →
      d.flags &&& descFNext ≠ 0 → piece d bs → Linked mem piece tbl n d.next.toNat cs j →
      Linked mem piece tbl n i (bs ++ cs) j

variable {piece : VringDesc → List UInt8 → Prop} {tbl n i j : Nat} {cs : List UInt8}

theorem Linked.chain (h : Linked mem piece tbl n i bs j) (hc : Chain mem piece tbl n j cs) :
    Chain mem piece tbl n i (bs ++ cs) := by
  induction h with
  | here => exact hc
  | next hi hd hnext hp _ ih =>
      rw [List.append_assoc]
      rw [← loadDesc_of_holds hd] at hnext hp ih
      exact .next hi hnext hp (ih hc)

theorem chain_last (hj : j < n) (hd : mem.Holds (tbl + descSize * j) d.bytes)
    (hend : d.flags &&& descFNext = 0) (hp : piece d bs) : Chain mem piece tbl n j bs := by
  rw [← loadDesc_of_holds hd] at hend hp
  exact .last hj hend hp

/-! ## `lay_chain` -/

def partDesc (base nparts p take : Nat) (b : UInt32) : VringDesc :=
  { addr := gpaOf b, len := UInt32.ofNat take, flags := if p + 1 = nparts then 0 else descFNext
    next := UInt16.ofNat (base + p + 1) }

variable {base nparts p take off left : Nat} {payload rest : List UInt8}

theorem layPart_run (htake : 1 ≤ take) (hroom : g.pay.toNat + take ≤ 0x8000) :
    (layPart tbl base base nparts p take bs).run g =
      ((), { seed := g.seed, pay := g.pay + UInt32.ofNat take
             gmem := (g.gmem.store g.pay.toNat bs).store (tbl + descSize * (base + p))
               (partDesc base nparts p take g.pay).bytes }) := by
  have hne : take ≠ 0 := by omega
  have hn : (UInt32.ofNat take).toNat = take := by
    rw [UInt32.toNat_ofNat']
    omega
  have halloc : (allocPay (UInt32.ofNat take) 1).run g = (g.pay, { g with pay := g.pay + UInt32.ofNat take }) :=
    allocPay_run (by omega)
  unfold layPart
  simp only [if_pos hne, StateT.run_bind, halloc]
  rfl

/-- What the parts from `p` on leave: the rest of the payload in the arena, and descriptors that lead through it
up to the last. -/
structure Laid (tbl n base nparts p : Nat) (rest : List UInt8) (g g' : TestGuest) : Prop where
  pay : g'.pay.toNat = g.pay.toNat + rest.length
  frame : ∀ x, x < tbl + descSize * (base + p) ∨ tbl + descSize * (base + nparts) ≤ x →
    x < g.pay.toNat ∨ g'.pay.toNat ≤ x → g'.gmem x = g.gmem x
  parts : ∃ front last b, rest = front ++ last ∧ last ≠ [] ∧
    g'.gmem.Holds (tbl + descSize * (base + nparts - 1)) (partDesc base nparts (nparts - 1) last.length b).bytes ∧
    g'.gmem.Holds b.toNat last ∧ g.pay.toNat ≤ b.toNat ∧ b.toNat + last.length = g'.pay.toNat ∧
    ∀ mem (piece : VringDesc → List UInt8 → Prop),
      (∀ d bs, d.flags &&& descFIndirect = 0 → Piece mem d bs → piece d bs) →
      (∀ x, tbl + descSize * (base + p) ≤ x → x < tbl + descSize * (base + nparts - 1) → mem x = g'.gmem x) →
      (∀ x, g.pay.toNat ≤ x → x < g'.pay.toNat → mem x = g'.gmem x) →
      Linked mem piece tbl n (base + p) front (base + nparts - 1)

theorem laid_last (hp : p + 1 = nparts) (hne : rest ≠ [])
    (hpay : g'.pay.toNat = g.pay.toNat + rest.length)
    (hmem : g'.gmem = (g.gmem.store g.pay.toNat rest).store (tbl + descSize * (base + p))
      (partDesc base nparts p rest.length g.pay).bytes)
    (htbl : tbl + descSize * (base + nparts) ≤ g.pay.toNat) : Laid tbl n base nparts p rest g g' := by
  subst hp
  have hlen := bytes_length (partDesc base (p + 1) p rest.length g.pay)
  constructor
  case pay => exact hpay
  case frame =>
    intro x hx hx'
    simp only [descSize] at hx htbl hlen
    rw [hmem, Memory.store_outside (by simp only [descSize]; omega), Memory.store_outside (by omega)]
  case parts =>
    refine ⟨[], rest, g.pay, rfl, hne, ?_, ?_, Nat.le_refl _, hpay.symm, ?_⟩
    · rw [hmem]
      exact Memory.holds_store
    · rw [hmem]
      apply Memory.holds_store.store
      simp only [descSize] at htbl hlen ⊢
      omega
    · intro mem piece _ _ _
      exact .here

theorem Laid.cons {g₁ : TestGuest} {front : List UInt8} (hp : p + 1 < nparts) (hfront : front ≠ [])
    (hn : base + nparts ≤ n) (hsmall : base + nparts < 2 ^ 16)
    (hpay : g₁.pay.toNat = g.pay.toNat + front.length)
    (hmem : g₁.gmem = (g.gmem.store g.pay.toNat front).store (tbl + descSize * (base + p))
      (partDesc base nparts p front.length g.pay).bytes)
    (htbl : tbl + descSize * (base + nparts) ≤ g.pay.toNat) (hroom : g₁.pay.toNat ≤ 0x8000)
    (h : Laid tbl n base nparts (p + 1) rest g₁ g') : Laid tbl n base nparts p (front ++ rest) g g' := by
  have hlen := bytes_length (partDesc base nparts p front.length g.pay)
  have hpos : 0 < front.length := List.length_pos_iff.mpr hfront
  obtain ⟨hpay', hframe, fronts, last, b, hrest, hne, hdesc, hlast, hle, hend, hlinked⟩ := h
  simp only [descSize] at *
  constructor
  case pay => rw [hpay', hpay, List.length_append, Nat.add_assoc]
  case frame =>
    intro x hx hx'
    simp only [descSize] at hx
    rw [hframe x (by omega) (by omega), hmem, Memory.store_outside (by omega), Memory.store_outside (by omega)]
  case parts =>
    refine ⟨front ++ fronts, last, b, by rw [hrest, List.append_assoc], hne, hdesc, hlast, by omega, hend, ?_⟩
    intro mem piece hpiece hdescs hbytes
    simp only [descSize] at hdescs
    have hhere : g₁.gmem.Holds (tbl + 16 * (base + p)) (partDesc base nparts p front.length g.pay).bytes := by
      rw [hmem]
      exact Memory.holds_store
    have hdata : g₁.gmem.Holds g.pay.toNat front := by
      rw [hmem]
      exact Memory.holds_store.store (by omega)
    have hhere' : mem.Holds (tbl + 16 * (base + p)) (partDesc base nparts p front.length g.pay).bytes := by
      apply holds_congr hhere
      intro x hx hx'
      rw [hdescs x hx (by omega), hframe x (by omega) (by omega)]
    have hdata' : mem.Holds g.pay.toNat front := by
      apply holds_congr hdata
      intro x hx hx'
      rw [hbytes x hx (by omega), hframe x (by omega) (by omega)]
    have hflags : (partDesc base nparts p front.length g.pay).flags = descFNext := if_neg (by omega)
    have hnext : (partDesc base nparts p front.length g.pay).next.toNat = base + (p + 1) := by
      simp only [partDesc, UInt16.toNat_ofNat']
      omega
    apply Linked.next (by omega) hhere'
    · rw [hflags]
      decide
    · apply hpiece
      · rw [hflags]
        decide
      · apply piece_data
        · rw [hflags]
          decide
        · rfl
        · rfl
        · omega
        · omega
        · exact hdata'
    · rw [hnext]
      apply hlinked mem piece hpiece
      · intro x hx hx'
        exact hdescs x (by omega) hx'
      · intro x hx hx'
        exact hbytes x (by omega) hx'

theorem layParts_step (tbl base left : Nat) (hp : p + left + 1 = nparts) (hoff : off + left + 1 ≤ payload.length)
    (hlen : payload.length < 2 ^ 16) (hroom : g.pay.toNat + (payload.length - off) ≤ 0x8000) :
    ∃ take g₁, 1 ≤ take ∧ take + left ≤ payload.length - off ∧ (left = 0 → take = payload.length - off) ∧
      g₁.pay.toNat = g.pay.toNat + take ∧
      g₁.gmem = (g.gmem.store g.pay.toNat ((payload.drop off).take take)).store (tbl + descSize * (base + p))
        (partDesc base nparts p take g.pay).bytes ∧
      (layParts tbl base base nparts payload (left + 1) p off).run g =
        (layParts tbl base base nparts payload left (p + 1) (off + take)).run g₁ := by
  obtain ⟨take, s, hrun, hpos, hle, hlast⟩ := takeLen_run hp hoff hlen g
  have hroom' : g.pay.toNat + take ≤ 0x8000 := by omega
  let g₁ : TestGuest :=
    { seed := s, pay := g.pay + UInt32.ofNat take
      gmem := (g.gmem.store g.pay.toNat ((payload.drop off).take take)).store (tbl + descSize * (base + p))
        (partDesc base nparts p take g.pay).bytes }
  have hpart : (layPart tbl base base nparts p take ((payload.drop off).take take)).run { g with seed := s } =
      ((), g₁) := layPart_run hpos hroom'
  refine ⟨take, g₁, hpos, hle, hlast, ?_, rfl, ?_⟩
  · simp only [g₁, UInt32.toNat_add, UInt32.toNat_ofNat']
    omega
  · simp only [layParts, StateT.run_bind, hrun]
    exact congrArg
      (fun r : Unit × TestGuest => (layParts tbl base base nparts payload left (p + 1) (off + take)).run r.2) hpart

/-- By induction on the parts to go: none of them is empty. -/
theorem layParts_laid (left : Nat) (hp : p + left + 1 = nparts) (hoff : off + left + 1 ≤ payload.length)
    (hlen : payload.length < 2 ^ 16) (hn : base + nparts ≤ n) (hsmall : base + nparts < 2 ^ 16)
    (htbl : tbl + descSize * (base + nparts) ≤ g.pay.toNat)
    (hroom : g.pay.toNat + (payload.length - off) ≤ 0x8000) :
    Laid tbl n base nparts p (payload.drop off) g
      ((layParts tbl base base nparts payload (left + 1) p off).run g).2 := by
  induction left generalizing p off g with
  | zero =>
      obtain ⟨take, g₁, hpos, _, hlast, hpay, hmem, hrun⟩ :=
        layParts_step tbl base 0 hp hoff hlen hroom
      have htake := hlast rfl
      have hall : (payload.drop off).take take = payload.drop off := by
        rw [htake]
        exact List.take_of_length_le (by rw [List.length_drop])
      have hsize : (payload.drop off).length = take := by rw [List.length_drop, htake]
      rw [hall, ← hsize] at hmem
      rw [hrun]
      apply laid_last hp
      · exact List.ne_nil_of_length_pos (by omega)
      · exact hsize ▸ hpay
      · exact hmem
      · exact htbl
  | succ left ih =>
      obtain ⟨take, g₁, hpos, hle, _, hpay, hmem, hrun⟩ :=
        layParts_step tbl base (left + 1) hp hoff hlen hroom
      have hsize : ((payload.drop off).take take).length = take := by
        rw [List.length_take, List.length_drop]
        omega
      have hrest := @ih g₁ (p + 1) (off + take) (by omega) (by omega) (by omega) (by omega)
      rw [← hrun, ← List.drop_drop] at hrest
      have hne : (payload.drop off).take take ≠ [] := List.ne_nil_of_length_pos (by omega)
      have hcons := hrest.cons (by omega) hne hn hsmall (by rw [hsize]; exact hpay) (by rw [hsize]; exact hmem)
        htbl (by omega)
      rwa [List.take_append_drop] at hcons

theorem Laid.split (h : Laid tbl n base nparts p rest g g') (hroom : g'.pay.toNat ≤ 0x8000) :
    ∃ front last b, rest = front ++ last ∧
      g'.gmem.Holds (tbl + descSize * (base + nparts - 1))
        (partDesc base nparts (nparts - 1) last.length b).bytes ∧
      ∀ mem (piece : VringDesc → List UInt8 → Prop),
        (∀ d bs, d.flags &&& descFIndirect = 0 → Piece mem d bs → piece d bs) →
        (∀ x, tbl + descSize * (base + p) ≤ x → x < tbl + descSize * (base + nparts - 1) → mem x = g'.gmem x) →
        (∀ x, g.pay.toNat ≤ x → x < g'.pay.toNat → mem x = g'.gmem x) →
        Linked mem piece tbl n (base + p) front (base + nparts - 1) ∧
          ∀ d : VringDesc, d.flags &&& descFWrite = 0 → d.addr = gpaOf b → d.len = UInt32.ofNat last.length →
            Piece mem d last := by
  obtain ⟨front, last, b, hrest, hne, hdesc, hlast, hle, hend, hlinked⟩ := h.parts
  refine ⟨front, last, b, hrest, hdesc, fun mem piece hpiece hdescs hbytes => ⟨?_, ?_⟩⟩
  · exact hlinked mem piece hpiece hdescs hbytes
  · intro d hwrite haddr hlen
    have hpos := List.length_pos_iff.mpr hne
    have hdata : mem.Holds b.toNat last := by
      apply holds_congr hlast
      intro x hx hx'
      exact hbytes x (by omega) (by omega)
    exact piece_data hwrite haddr hlen (by omega) (by omega) hdata

/-- A chain that ends with the last part -/
theorem Laid.chain (h : Laid tbl n base nparts p rest g g') (hroom : g'.pay.toNat ≤ 0x8000)
    (hp : p < nparts) (hn : base + nparts ≤ n)
    (hpiece : ∀ d bs, d.flags &&& descFIndirect = 0 → Piece mem d bs → piece d bs)
    (hdescs : ∀ x, tbl + descSize * (base + p) ≤ x → x < tbl + descSize * (base + nparts) → mem x = g'.gmem x)
    (hbytes : ∀ x, g.pay.toNat ≤ x → x < g'.pay.toNat → mem x = g'.gmem x) :
    Chain mem piece tbl n (base + p) rest := by
  obtain ⟨front, last, b, hrest, hdesc, hparts⟩ := h.split hroom
  simp only [descSize] at hdescs
  have hflags : (partDesc base nparts (nparts - 1) last.length b).flags = 0 := if_pos (by omega)
  have hlen := bytes_length (partDesc base nparts (nparts - 1) last.length b)
  simp only [descSize] at hlen
  obtain ⟨hlinked, hlast⟩ := hparts mem piece hpiece
    (fun x hx hx' => hdescs x hx (by simp only [descSize] at hx'; omega)) hbytes
  have hheld : mem.Holds (tbl + descSize * (base + nparts - 1))
      (partDesc base nparts (nparts - 1) last.length b).bytes := by
    apply holds_congr hdesc
    simp only [descSize]
    intro x hx hx'
    exact hdescs x (by omega) (by omega)
  have hend : Chain mem piece tbl n (base + nparts - 1) last := by
    apply chain_last (by omega) hheld
    · rw [hflags]
      decide
    · apply hpiece
      · rw [hflags]
        decide
      · apply hlast
        · rw [hflags]
          decide
        · rfl
        · rfl
  exact hrest ▸ hlinked.chain hend

/-- A chain that goes on behind the last part, where it carries nothing -/
theorem Laid.chain_more (h : Laid tbl n base nparts p rest g g') (hroom : g'.pay.toNat ≤ 0x8000)
    (hp : p < nparts) (hn : base + nparts ≤ n)
    (hpiece : ∀ d bs, d.flags &&& descFIndirect = 0 → Piece mem d bs → piece d bs)
    (hdescs : ∀ x, tbl + descSize * (base + p) ≤ x → x < tbl + descSize * (base + nparts - 1) →
      mem x = g'.gmem x)
    (hbytes : ∀ x, g.pay.toNat ≤ x → x < g'.pay.toNat → mem x = g'.gmem x)
    (hheld : mem.Holds (tbl + descSize * (base + nparts - 1))
      (VringDesc.bytes { loadDesc g'.gmem (tbl + descSize * (base + nparts - 1)) with
        flags := (loadDesc g'.gmem (tbl + descSize * (base + nparts - 1))).flags ||| descFNext
        next := UInt16.ofNat j }))
    (hj : j < 2 ^ 16) (hmore : Chain mem piece tbl n j []) : Chain mem piece tbl n (base + p) rest := by
  obtain ⟨front, last, b, hrest, hdesc, hparts⟩ := h.split hroom
  have hflags : (partDesc base nparts (nparts - 1) last.length b).flags = 0 := if_pos (by omega)
  rw [loadDesc_of_holds hdesc, hflags] at hheld
  obtain ⟨hlinked, hlast⟩ := hparts mem piece hpiece hdescs hbytes
  have hnext : (UInt16.ofNat j).toNat = j := by
    rw [UInt16.toNat_ofNat']
    omega
  have hend : Linked mem piece tbl n (base + nparts - 1) (last ++ []) j := by
    apply Linked.next (by omega) hheld (by decide : (0 ||| descFNext) &&& descFNext ≠ 0)
    · apply hpiece _ _ (by decide : (0 ||| descFNext) &&& descFIndirect = 0)
      exact hlast _ (by decide : (0 ||| descFNext) &&& descFWrite = 0) rfl rfl
    · rw [hnext]
      exact .here
  have hchain := hlinked.chain (hend.chain hmore)
  rwa [List.append_nil, List.append_nil, ← hrest] at hchain

end Vlog.Vhost
