import Mathlib.Algebra.Order.BigOperators.Group.List
import Mathlib.Algebra.Order.Ring.Int
import Mathlib.Data.List.Basic

/-!
# Window — caps over a sliding window

A log of entries `(time, weight)` and a cap on the weight inside every window of a fixed length, at every instant.  `Capped.concat` is the
admission rule: an entry may be added when it fits on top of all entries not older than one window before it.
-/

namespace Window

open List

/-- An entry: when it was made and what it weighs. -/
abbrev Entry : Type := ℤ × ℤ

/-- The weight of the entries at `cutoff` or later. -/
def sumFrom (l : List Entry) (cutoff : ℤ) : ℤ := ((l.filter fun x => cutoff ≤ x.1).map Prod.snd).sum

/-- The weight of the entries in the window of length `len` that ends at `t`. -/
def sumIn (len : ℤ) (l : List Entry) (t : ℤ) : ℤ := ((l.filter fun x => t - len ≤ x.1 ∧ x.1 ≤ t).map Prod.snd).sum

/-- Every window weighs at most `cap`. -/
def Capped (len cap : ℤ) (l : List Entry) : Prop := ∀ t, sumIn len l t ≤ cap

section

variable {len cap : ℤ} {l l' : List Entry}

theorem sum_le_of_sublist (h : l'.Sublist l) (hl : ∀ x ∈ l, 0 ≤ x.2) : (l'.map Prod.snd).sum ≤ (l.map Prod.snd).sum := by
  refine (h.map Prod.snd).sum_le_sum fun a ha => ?_
  obtain ⟨x, hx, rfl⟩ := mem_map.mp ha
  exact hl x hx

theorem sum_filter_le {p q : Entry → Bool} (h : ∀ x ∈ l, p x = true → q x = true) (hl : ∀ x ∈ l, 0 ≤ x.2) :
    ((l.filter p).map Prod.snd).sum ≤ ((l.filter q).map Prod.snd).sum := by
  have hsub : (l.filter p).Sublist (l.filter q) := by
    have hpq : l.filter p = (l.filter q).filter p := by
      rw [filter_filter]
      refine filter_congr fun x hx => ?_
      by_cases hp : p x = true
      · simp [hp, h x hx hp]
      · simp [hp]
    rw [hpq]
    exact filter_sublist
  exact sum_le_of_sublist hsub fun x hx => hl x (mem_of_mem_filter hx)

theorem sumFrom_nonneg (hl : ∀ x ∈ l, 0 ≤ x.2) (cutoff : ℤ) : 0 ≤ sumFrom l cutoff := by
  refine sum_nonneg fun a ha => ?_
  obtain ⟨x, hx, rfl⟩ := mem_map.mp ha
  exact hl x (mem_of_mem_filter hx)

theorem sumFrom_mono (h : l'.Sublist l) (hl : ∀ x ∈ l, 0 ≤ x.2) (cutoff : ℤ) : sumFrom l' cutoff ≤ sumFrom l cutoff :=
  sum_le_of_sublist (h.filter _) fun x hx => hl x (mem_of_mem_filter hx)

theorem capped_nil (h : 0 ≤ cap) : Capped len cap [] := fun _ => h

theorem Capped.sublist (h : Capped len cap l) (hs : l'.Sublist l) (hl : ∀ x ∈ l, 0 ≤ x.2) : Capped len cap l' :=
  fun t => (sum_le_of_sublist (hs.filter _) fun x hx => hl x (mem_of_mem_filter hx)).trans (h t)

/-- When nothing is later than `t`, the window that ends at `t` is all that is not older than it. -/
theorem Capped.sumFrom_le (h : Capped len cap l) {t : ℤ} (ht : ∀ x ∈ l, x.1 ≤ t) : sumFrom l (t - len) ≤ cap := by
  refine le_trans (le_of_eq ?_) (h t)
  rw [sumFrom, sumIn]
  congr 2
  refine filter_congr fun x hx => ?_
  simp [ht x hx]

/-- **Admission**: an entry that fits on top of everything not older than one window before it. -/
theorem Capped.concat (h : Capped len cap l) (hl : ∀ x ∈ l, 0 ≤ x.2) {x : Entry}
    (hfit : sumFrom l (x.1 - len) + x.2 ≤ cap) : Capped len cap (l ++ [x]) := by
  intro t
  rw [sumIn, filter_append, map_append, sum_append]
  by_cases hx : t - len ≤ x.1 ∧ x.1 ≤ t
  · -- the window holds the new entry, so nothing in it is older than a window before the entry
    have hle : ((l.filter fun y => t - len ≤ y.1 ∧ y.1 ≤ t).map Prod.snd).sum ≤ sumFrom l (x.1 - len) := by
      refine sum_filter_le (fun y _ hy => ?_) hl
      simp only [decide_eq_true_eq] at hy ⊢
      omega
    have hnew : [x].filter (fun y => t - len ≤ y.1 ∧ y.1 ≤ t) = [x] := filter_cons_of_pos (decide_eq_true hx)
    rw [hnew, map_singleton, sum_singleton]
    omega
  · have hold : ((l.filter fun y => t - len ≤ y.1 ∧ y.1 ≤ t).map Prod.snd).sum ≤ cap := h t
    rw [filter_cons_of_neg (by simpa using hx)]
    simpa using hold

end

end Window
