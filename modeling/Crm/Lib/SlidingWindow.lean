import Mathlib.Algebra.Order.Ring.Int
import Mathlib.Data.List.Basic

/-!
# SlidingWindow — a counter of recent hits

A counter keeps the instants of its hits.  A hit is admitted and recorded unless `max` hits lie in the window that ends at it; what has left the
window is forgotten, and a refused hit leaves no trace.
-/

namespace SlidingWindow

open List

/-- The hits in the window of length `window` that ends at `now`. -/
def live (window now : ℤ) (hits : List ℤ) : List ℤ := hits.filter fun h => now - window < h

/-- A hit at `now`: whether it is admitted, and the hits that are kept. -/
def accept (window max now : ℤ) (hits : List ℤ) : Bool × List ℤ :=
  if max ≤ (live window now hits).length then (false, live window now hits) else (true, live window now hits ++ [now])

/-- The hits that are kept when every one of them is recorded. -/
def record (window now : ℤ) (hits : List ℤ) : List ℤ := live window now hits ++ [now]

def since (c : ℤ) (hits : List ℤ) : ℕ := hits.countP fun h => c < h

section

variable {window max now c : ℤ} {hits log : List ℤ}

theorem length_live : (live window now hits).length = since (now - window) hits := (countP_eq_length_filter ..).symm

theorem since_append_singleton (c x : ℤ) (hits : List ℤ) : since c (hits ++ [x]) = since c hits + if c < x then 1 else 0 := by
  simp [since, countP_append, countP_cons]

theorem since_cons (c x : ℤ) (hits : List ℤ) : since c (x :: hits) = since c hits + if c < x then 1 else 0 := by
  simp [since, countP_cons]

/-- Forgetting what has left the window changes nothing after its start. -/
theorem since_live (h : now - window ≤ c) : since c (live window now hits) = since c hits := by
  rw [since, since, live, countP_filter]
  refine countP_congr fun x _ => ?_
  simp only [Bool.and_eq_true, decide_eq_true_eq, and_iff_left_iff_imp]
  exact lt_of_le_of_lt h

theorem length_record : (record window now hits).length = since (now - window) hits + 1 := by
  rw [record, length_append, length_live]
  rfl

theorem accept_iff : (accept window max now hits).1 = true ↔ (since (now - window) hits : ℤ) < max := by
  rw [accept, length_live]
  split_ifs with h
  · simpa using h
  · simpa using h

theorem since_accept (h : now - window ≤ c) : since c (accept window max now hits).2 =
    since c hits + if (accept window max now hits).1 = true ∧ c < now then 1 else 0 := by
  unfold accept
  split_ifs with hmax hnow hnow
  · exact hnow.1.elim
  · exact since_live h
  · rw [since_append_singleton, since_live h, if_pos hnow.2]
  · rw [since_append_singleton, since_live h, if_neg fun hc => hnow ⟨rfl, hc⟩]

/-! ## Logs of all hits -/

/-- The counter and the log agree on the window that ends at `now`, and on every later one. -/
def Exact (window now : ℤ) (hits log : List ℤ) : Prop := ∀ c, now - window ≤ c → since c hits = since c log

theorem Exact.later {now' : ℤ} (h : Exact window now hits log) (hn : now ≤ now') : Exact window now' hits log :=
  fun c hc => h c (by omega)

theorem Exact.record (h : Exact window now hits log) : Exact window now (record window now hits) (now :: log) := by
  intro c hc
  rw [SlidingWindow.record, since_append_singleton, since_live hc, since_cons, h c hc]

/-- A log without recent hits is that of an empty counter. -/
theorem Exact.nil (h : ∀ x ∈ log, x ≤ now - window) : Exact window now [] log := fun c hc =>
  (countP_eq_zero.mpr fun x hx => by have := h x hx; simp; omega).symm

/-! ## Logs of admitted hits -/

/-- The counter holds what the log has recorded in the window that ends at `now`, and in every later one. -/
def Covers (window now : ℤ) (hits log : List ℤ) : Prop := ∀ c, now - window ≤ c → since c log ≤ since c hits

/-- The number of hits in the window that starts at `y`. -/
def within (window y : ℤ) (log : List ℤ) : ℕ := log.countP fun h => y ≤ h ∧ h < y + window

/-- No window of the log holds more than `max` hits. -/
def Capped (window max : ℤ) (log : List ℤ) : Prop := ∀ y, (within window y log : ℤ) ≤ max

theorem within_cons (y x : ℤ) (log : List ℤ) : within window y (x :: log) = within window y log + if y ≤ x ∧ x < y + window then 1 else 0 := by
  simp [within, countP_cons]

theorem Covers.nil : Covers window now hits [] := fun _ _ => Nat.zero_le _

theorem Covers.later {now' : ℤ} (h : Covers window now hits log) (hn : now ≤ now') : Covers window now' hits log :=
  fun c hc => h c (by omega)

/-- The hit at `now` goes into the log when it is admitted. -/
theorem Covers.accept {now₀ : ℤ} (h : Covers window now₀ hits log) (hn : now₀ ≤ now) :
    Covers window now (accept window max now hits).2 (if (SlidingWindow.accept window max now hits).1 = true then now :: log else log) := by
  intro c hc
  have hold := h.later hn c hc
  rw [since_accept hc]
  split_ifs with hin hnow hnow
  · rw [since_cons, if_pos hnow.2]
    omega
  · rw [since_cons, if_neg fun hlt => hnow ⟨hin, hlt⟩]
    omega
  · exact absurd hnow.1 hin
  · omega

/-- **Admission**: a hit that finds room in the window that ends at it fits into every window that holds it. -/
theorem Capped.cons (hcap : Capped window max log) (hroom : (since (now - window) log : ℤ) < max) : Capped window max (now :: log) := by
  intro y
  rw [within_cons]
  split_ifs with hy
  · -- what the window holds besides is after its start
    have hle : within window y log ≤ since (now - window) log := by
      refine countP_mono_left fun x _ hx => ?_
      simp only [decide_eq_true_eq] at hx ⊢
      omega
    push_cast
    omega
  · simpa using hcap y

theorem Capped.accept (hcap : Capped window max log) (h : Covers window now hits log) (hin : (SlidingWindow.accept window max now hits).1 = true) :
    Capped window max (now :: log) := by
  refine hcap.cons ?_
  have hcov := h (now - window) le_rfl
  have hroom := accept_iff.mp hin
  omega

end

end SlidingWindow
