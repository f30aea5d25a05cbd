import Mathlib

/-!
# Owned resources

A program acquires resources that the system hands out, uses them and releases them. `Owns` follows what
the program holds; each use and each release has to be of something held. As long as the system hands out
only what is not live, exactly what is held is live, and so is what is used or released.
-/

namespace Vlog.Lib

variable {ρ : Type*}

inductive Act (ρ : Type*)
  | acquire (r : ρ)
  | use (r : ρ)
  | release (r : ρ)
  deriving DecidableEq

/-- The acts lead from holding `h` to holding `h'`. -/
inductive Owns : Multiset ρ → List (Act ρ) → Multiset ρ → Prop
  | nil {h} : Owns h [] h
  | acquire {h as h'} (r) : Owns (r ::ₘ h) as h' → Owns h (.acquire r :: as) h'
  | use {h as h'} (r) : r ∈ h → Owns h as h' → Owns h (.use r :: as) h'
  | release {h as h'} (r) : Owns h as h' → Owns (r ::ₘ h) (.release r :: as) h'

variable {h h' h₁ h₂ k : Multiset ρ} {as bs : List (Act ρ)} {r : ρ}

theorem Owns.append (ha : Owns h as h₁) (hb : Owns h₁ bs h₂) : Owns h (as ++ bs) h₂ := by
  induction ha with
  | nil => exact hb
  | acquire r _ ih => exact .acquire r (ih hb)
  | use r hr _ ih => exact .use r hr (ih hb)
  | release r _ ih => exact .release r (ih hb)

/-- What the acts are not about stays. -/
theorem Owns.frame (ha : Owns h as h') (k : Multiset ρ) : Owns (h + k) as (h' + k) := by
  induction ha with
  | nil => exact .nil
  | acquire r _ ih => exact .acquire r (by rwa [← Multiset.cons_add])
  | use r hr _ ih => exact .use r (Multiset.mem_add.mpr (.inl hr)) ih
  | release r _ ih =>
      rw [Multiset.cons_add]
      exact .release r ih

theorem Owns.cons (r : ρ) (ha : Owns h as h') : Owns (r ::ₘ h) as (r ::ₘ h') := by
  have hframe := ha.frame {r}
  rwa [add_comm, Multiset.singleton_add, add_comm, Multiset.singleton_add] at hframe

theorem Owns.releases (rs : List ρ) : Owns (rs : Multiset ρ) (rs.map .release) 0 := by
  induction rs with
  | nil => exact .nil
  | cons r rs ih => exact .release r ih

theorem Owns.acquires (rs : List ρ) : Owns 0 (rs.map .acquire) (rs : Multiset ρ) := by
  induction rs with
  | nil => exact .nil
  | cons r rs ih => exact .acquire r (ih.cons r)

theorem Owns.uses (rs : List ρ) (hrs : ∀ r ∈ rs, r ∈ h) : Owns h (rs.map .use) h := by
  induction rs with
  | nil => exact .nil
  | cons r rs ih =>
      exact .use r (hrs r List.mem_cons_self) (ih fun r' hr' => hrs r' (List.mem_cons_of_mem _ hr'))

/-! ## What is live -/

variable [DecidableEq ρ] {s : Finset ρ}

def live (s : Finset ρ) : List (Act ρ) → Finset ρ
  | [] => s
  | .acquire r :: as => live (insert r s) as
  | .use _ :: as => live s as
  | .release r :: as => live (s.erase r) as

/-- The system hands out only what is not live. -/
def Granted (s : Finset ρ) : List (Act ρ) → Prop
  | [] => True
  | .acquire r :: as => r ∉ s ∧ Granted (insert r s) as
  | .use _ :: as => Granted s as
  | .release r :: as => Granted (s.erase r) as

instance Granted.decidable : ∀ (s : Finset ρ) (as : List (Act ρ)), Decidable (Granted s as)
  | _, [] => inferInstanceAs (Decidable True)
  | s, .acquire r :: as =>
      have := Granted.decidable (insert r s) as
      inferInstanceAs (Decidable (r ∉ s ∧ Granted (insert r s) as))
  | s, .use _ :: as => Granted.decidable s as
  | s, .release r :: as => Granted.decidable (s.erase r) as

/-- Only live resources are used and released. -/
def Clean (s : Finset ρ) : List (Act ρ) → Prop
  | [] => True
  | .acquire r :: as => Clean (insert r s) as
  | .use r :: as => r ∈ s ∧ Clean s as
  | .release r :: as => r ∈ s ∧ Clean (s.erase r) as

theorem live_append (s : Finset ρ) (as bs : List (Act ρ)) :
    live s (as ++ bs) = live (live s as) bs := by
  induction as generalizing s with
  | nil => rfl
  | cons a as ih =>
      cases a with
      | acquire r => exact ih _
      | use r => exact ih _
      | release r => exact ih _

theorem granted_append : Granted s (as ++ bs) ↔ Granted s as ∧ Granted (live s as) bs := by
  induction as generalizing s with
  | nil => simp [Granted, live]
  | cons a as ih =>
      cases a with
      | acquire r => simp [Granted, live, ih, and_assoc]
      | use r => simp [Granted, live, ih]
      | release r => simp [Granted, live, ih]

/-- Where nothing is acquired, there is nothing to hand out. -/
theorem granted_of_releases (h : ∀ a ∈ as, ∃ r, a = .release r) : Granted s as := by
  induction as generalizing s with
  | nil => trivial
  | cons a as ih =>
      obtain ⟨r, rfl⟩ := h a List.mem_cons_self
      exact ih fun b hb => h b (List.mem_cons_of_mem _ hb)

/-- What is live is what is held and what others hold, which is not touched. -/
theorem Owns.live (ha : Owns h as h') (hs : s.val = h + k) (hg : Granted s as) :
    (Lib.live s as).val = h' + k ∧ Clean s as := by
  induction ha generalizing s with
  | nil => exact ⟨hs, trivial⟩
  | @acquire h as h' r _ ih =>
      have hinsert : (insert r s).val = (r ::ₘ h) + k := by
        rw [Finset.insert_val_of_notMem hg.1, hs, Multiset.cons_add]
      exact ih hinsert hg.2
  | use r hr _ ih =>
      obtain ⟨hlive, hclean⟩ := ih hs hg
      have hmem : r ∈ s.val := hs ▸ Multiset.mem_add.mpr (.inl hr)
      exact ⟨hlive, hmem, hclean⟩
  | @release h as h' r _ ih =>
      rw [Multiset.cons_add] at hs
      have herase : (s.erase r).val = h + k := by
        rw [Finset.erase_val, hs, Multiset.erase_cons_head]
      obtain ⟨hlive, hclean⟩ := ih herase hg
      have hmem : r ∈ s.val := hs ▸ Multiset.mem_cons_self r _
      exact ⟨hlive, hmem, hclean⟩

end Vlog.Lib
