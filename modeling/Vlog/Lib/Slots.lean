import Mathlib

/-!
# Tables of keyed rows

A table is a list of rows without order, in which the first row with a key counts. A row is removed by
putting the last one in its place. As long as the keys are distinct, the table is a finite map.
-/

namespace Vlog.Lib

variable {α κ : Type*} {key : α → κ} {rows rows' front back : List α} {a b : α} {k : κ} {i : Nat}

abbrev Distinct (key : α → κ) (rows : List α) : Prop := (rows.map key).Nodup

def swapRemove (rows : List α) (i : Nat) : List α :=
  match rows.getLast? with
  | some z => (rows.set i z).dropLast
  | none => rows

/-! ## Distinct keys -/

theorem Distinct.concat (hd : Distinct key rows) (ha : key a ∉ rows.map key) :
    Distinct key (rows ++ [a]) := by
  rw [Distinct, List.map_append]
  refine List.nodup_append.mpr ⟨hd, List.nodup_singleton _, ?_⟩
  intro k hk k' hk' heq
  cases List.mem_singleton.mp hk'
  exact ha (heq ▸ hk)

theorem Distinct.replace (hd : Distinct key (front ++ a :: back)) (hb : key b = key a) :
    Distinct key (front ++ b :: back) := by
  rw [Distinct, List.map_append, List.map_cons] at hd ⊢
  rwa [hb]

theorem swapRemove_perm (front : List α) (a : α) (back : List α) :
    (swapRemove (front ++ a :: back) front.length).Perm (front ++ back) := by
  rcases List.eq_nil_or_concat' back with rfl | ⟨mid, z, rfl⟩
  · simp [swapRemove]
  · have hswap : swapRemove (front ++ a :: (mid ++ [z])) front.length = front ++ z :: mid := by
      have hrows : front ++ a :: (mid ++ [z]) = (front ++ a :: mid) ++ [z] := by simp
      have hset : ((front ++ a :: mid) ++ [z]).set front.length z = (front ++ z :: mid) ++ [z] := by simp
      rw [swapRemove, hrows, List.getLast?_concat]
      simp only [hset, List.dropLast_concat]
    rw [hswap]
    exact (List.perm_append_singleton z mid).symm.append_left front

theorem Distinct.swapRemove (hd : Distinct key (front ++ a :: back)) :
    Distinct key (swapRemove (front ++ a :: back) front.length) := by
  have hp := swapRemove_perm front a back
  apply (hp.map key).nodup_iff.mpr
  exact hd.sublist ((List.sublist_cons_self a back).append_left front |>.map key)

theorem swapRemove_length_le (rows : List α) (i : Nat) : (swapRemove rows i).length ≤ rows.length := by
  unfold swapRemove
  split
  · rw [List.length_dropLast, List.length_set]
    exact Nat.sub_le _ _
  · exact Nat.le_refl _

/-! ## Rows by their key -/

variable [DecidableEq κ]

theorem findIdx_split (h : rows.findIdx? (key · = k) = some i) :
    ∃ front a back, rows = front ++ a :: back ∧ i = front.length ∧ key a = k := by
  obtain ⟨hi, hkey, _⟩ := List.findIdx?_eq_some_iff_getElem.mp h
  refine ⟨rows.take i, rows[i], rows.drop (i + 1), ?_, ?_, of_decide_eq_true hkey⟩
  · rw [List.getElem_cons_drop, List.take_append_drop]
  · rw [List.length_take]
    omega

theorem findIdx_none (h : rows.findIdx? (key · = k) = none) : k ∉ rows.map key := by
  rw [List.findIdx?_eq_none_iff] at h
  intro hmem
  obtain ⟨a, ha, hk⟩ := List.mem_map.mp hmem
  exact of_decide_eq_false (h a ha) hk

/-- A row is found by its key, and nothing else is found otherwise with it than without it. -/
theorem find_split (hd : Distinct key (front ++ a :: back)) (k : κ) :
    (front ++ a :: back).find? (key · = k) =
      if k = key a then some a else (front ++ back).find? (key · = k) := by
  by_cases hk : k = key a
  · subst hk
    have hfront : front.find? (key · = key a) = none := by
      rw [List.find?_eq_none]
      intro b hb hsame
      rw [Distinct, List.map_append, List.map_cons, List.nodup_append] at hd
      exact hd.2.2 (key b) (List.mem_map_of_mem hb) (key a) List.mem_cons_self (of_decide_eq_true hsame)
    rw [List.find?_append, hfront]
    simp
  · have hne : ¬ key a = k := fun h => hk h.symm
    rw [if_neg hk, List.find?_append, List.find?_append, List.find?_cons_of_neg (by simpa using hne)]

theorem find_eq_some (hd : Distinct key rows) :
    rows.find? (key · = k) = some a ↔ a ∈ rows ∧ key a = k := by
  constructor
  · intro h
    have hk : decide (key a = k) = true := List.find?_some (p := fun a => decide (key a = k)) h
    exact ⟨List.mem_of_find?_eq_some h, of_decide_eq_true hk⟩
  · rintro ⟨hmem, rfl⟩
    obtain ⟨front, back, rfl⟩ := List.append_of_mem hmem
    rw [find_split hd, if_pos rfl]

/-- The order of the rows does not matter. -/
theorem find_perm (hp : rows.Perm rows') (hd : Distinct key rows) (k : κ) :
    rows.find? (key · = k) = rows'.find? (key · = k) := by
  have hd' : Distinct key rows' := (hp.map key).nodup_iff.mp hd
  ext a
  rw [find_eq_some hd, find_eq_some hd', hp.mem_iff]

/-! ## A row is added, replaced or removed -/

theorem find_concat (ha : key a ∉ rows.map key) (hd : Distinct key rows) (k : κ) :
    (rows ++ [a]).find? (key · = k) = if k = key a then some a else rows.find? (key · = k) := by
  have hsplit := find_split (hd.concat ha) k
  rwa [List.append_nil] at hsplit

theorem find_replace (hd : Distinct key (front ++ a :: back)) (hb : key b = key a) (k : κ) :
    (front ++ b :: back).find? (key · = k) =
      if k = key b then some b else (front ++ a :: back).find? (key · = k) := by
  rw [find_split (hd.replace hb)]
  by_cases hk : k = key b
  · rw [if_pos hk, if_pos hk]
  · rw [if_neg hk, if_neg hk, find_split hd, if_neg (hb ▸ hk)]

theorem find_swapRemove (hd : Distinct key (front ++ a :: back)) (k : κ) :
    (swapRemove (front ++ a :: back) front.length).find? (key · = k) =
      if k = key a then none else (front ++ a :: back).find? (key · = k) := by
  have hrest : Distinct key (front ++ back) :=
    ((swapRemove_perm front a back).map key).nodup_iff.mp hd.swapRemove
  rw [find_perm (swapRemove_perm front a back) hd.swapRemove, find_split hd]
  by_cases hk : k = key a
  · rw [if_pos hk, List.find?_eq_none]
    intro b hb hsame
    have hgone : key a ∉ (front ++ back).map key := by
      rw [Distinct, List.map_append, List.map_cons] at hd
      rw [List.map_append]
      exact (List.nodup_cons.mp (List.perm_middle.nodup_iff.mp hd)).1
    exact hgone (hk ▸ of_decide_eq_true hsame ▸ List.mem_map_of_mem hb)
  · rw [if_neg hk, if_neg hk]

end Vlog.Lib
