import Mathlib.Algebra.Order.Ring.Int
import Mathlib.Algebra.Order.BigOperators.Group.List
import Mathlib.Tactic.Ring

/-!
# HoldLedger — journals of credits, holds and settlements

A journal is an append-only list of entries over hold references `ρ`: credits, holds of part of the free funds, and
the settlement of a hold, which either captures part of it or voids it.  `funds` is the gross balance (credits less
captures), `held` the sum of the holds that no entry settles.
-/

namespace HoldLedger

open List

variable {ρ : Type} [DecidableEq ρ]

inductive Entry (ρ : Type) : Type
  | credit (a : ℤ)
  | hold (r : ρ) (a : ℤ)
  | capture (r : ρ) (a : ℤ)
  | void (r : ρ)
  deriving DecidableEq, Repr

namespace Entry

/-- What the entry adds to the gross balance. -/
def delta : Entry ρ → ℤ
  | .credit a => a
  | .capture _ a => -a
  | _ => 0

def settles (r : ρ) : Entry ρ → Bool
  | .capture r' _ => r' = r
  | .void r' => r' = r
  | _ => false

/-- The amount the entry holds under `r`. -/
def heldUnder (r : ρ) : Entry ρ → ℤ
  | .hold r' a => if r' = r then a else 0
  | _ => 0

end Entry

variable (j : List (Entry ρ))

def settled (r : ρ) : Bool := j.any (Entry.settles r)

/-- The amount of the entry if it is a hold that `j` does not settle. -/
def openAmount : Entry ρ → ℤ
  | .hold r a => if settled j r then 0 else a
  | _ => 0

def funds : ℤ := (j.map Entry.delta).sum

def held : ℤ := (j.map (openAmount j)).sum

/-- How a correct account grows its journal. -/
inductive Valid : List (Entry ρ) → Prop
  | nil : Valid []
  | credit {j : List (Entry ρ)} {a : ℤ} (h : Valid j) (ha : 0 < a) : Valid (j ++ [.credit a])
  | hold {j : List (Entry ρ)} {r : ρ} {a : ℤ} (h : Valid j) (ha : 0 < a) (hle : a ≤ funds j - held j)
      (hr : ∀ b, .hold r b ∉ j) : Valid (j ++ [.hold r a])
  | capture {j : List (Entry ρ)} {r : ρ} {a b : ℤ} (h : Valid j) (hb : .hold r b ∈ j)
      (hs : settled j r = false) (ha : 0 < a) (hab : a ≤ b) : Valid (j ++ [.capture r a])
  | void {j : List (Entry ρ)} {r : ρ} {b : ℤ} (h : Valid j) (hb : .hold r b ∈ j)
      (hs : settled j r = false) : Valid (j ++ [.void r])

/-! ## Appending one entry -/

omit [DecidableEq ρ] in
@[simp] theorem funds_nil : funds ([] : List (Entry ρ)) = 0 := rfl

@[simp] theorem held_nil : held ([] : List (Entry ρ)) = 0 := rfl

omit [DecidableEq ρ] in
theorem funds_append (e : Entry ρ) : funds (j ++ [e]) = funds j + e.delta := by
  simp [funds]

theorem settled_append (e : Entry ρ) (r : ρ) :
    settled (j ++ [e]) r = (settled j r || e.settles r) := by
  simp [settled]

variable {j : List (Entry ρ)} {r : ρ}

/-- An entry that settles nothing leaves the open holds and adds its own. -/
theorem held_append_of_not_settles {e : Entry ρ} (he : ∀ r, e.settles r = false) : held (j ++ [e]) = held j + openAmount j e := by
  have hs : ∀ r, settled (j ++ [e]) r = settled j r := fun r => by rw [settled_append, he r, Bool.or_false]
  have ho : openAmount (j ++ [e]) = openAmount j := by
    funext e'
    cases e' with
    | hold r a => simp only [openAmount, hs]
    | _ => rfl
  rw [held, ho, map_append, sum_append]
  simp [held]

theorem held_credit (j : List (Entry ρ)) (a : ℤ) : held (j ++ [.credit a]) = held j := by
  rw [held_append_of_not_settles fun _ => rfl]
  simp [openAmount]

theorem held_hold (hs : settled j r = false) (a : ℤ) : held (j ++ [.hold r a]) = held j + a := by
  rw [held_append_of_not_settles fun _ => rfl]
  simp [openAmount, hs]

/-- A settlement of `r` takes everything held under `r` out of the open holds. -/
theorem held_append_of_settles {e : Entry ρ} (he : ∀ r', e.settles r' = decide (r = r')) (hs : settled j r = false) :
    held (j ++ [e]) = held j - (j.map (Entry.heldUnder r)).sum := by
  have hset : ∀ r', settled (j ++ [e]) r' = (settled j r' || decide (r = r')) := fun r' => by
    rw [settled_append, he r']
  have ho : ∀ e', openAmount (j ++ [e]) e' = openAmount j e' - e'.heldUnder r := by
    intro e'
    cases e' with
    | hold r' a =>
      simp only [openAmount, hset, Entry.heldUnder]
      by_cases hr : r = r'
      · subst hr
        simp [hs]
      · have hr' : r' ≠ r := fun h => hr h.symm
        simp [hr, hr']
    | _ => rfl
  have hown : openAmount (j ++ [e]) e = 0 := by
    cases e with
    | hold r' a =>
      have := he r
      simp [Entry.settles] at this
    | _ => rfl
  have hsum : ∀ l : List (Entry ρ), (l.map (openAmount (j ++ [e]))).sum =
      (l.map (openAmount j)).sum - (l.map (Entry.heldUnder r)).sum := by
    intro l
    induction l with
    | nil => rfl
    | cons x l ih =>
      simp only [map_cons, sum_cons, ih, ho x]
      ring
  rw [held, map_append, sum_append, hsum j]
  simp [hown, held]

theorem sum_heldUnder_of_not_mem (h : ∀ b, .hold r b ∉ j) : (j.map (Entry.heldUnder r)).sum = 0 := by
  induction j with
  | nil => rfl
  | cons e j ih =>
    have he : e.heldUnder r = 0 := by
      cases e with
      | hold r' a =>
        have hne : r' ≠ r := by
          rintro rfl
          exact h a (by simp)
        simp [Entry.heldUnder, hne]
      | _ => rfl
    simp [he, ih fun b hb => h b (by simp [hb])]

/-! ## What every valid journal satisfies -/

namespace Valid

variable {j : List (Entry ρ)} {r : ρ} {b : ℤ}

/-- A hold reference is used once: what is held under it is that one positive amount. -/
theorem sum_heldUnder (h : Valid j) (hb : .hold r b ∈ j) : (j.map (Entry.heldUnder r)).sum = b ∧ 0 < b := by
  induction h with
  | nil => simp at hb
  | credit _ _ ih => simpa [Entry.heldUnder] using ih (by simpa using hb)
  | @hold j r' a _ ha _ hr ih =>
    rw [map_append, sum_append]
    rcases mem_append.mp hb with hb | hb
    · have hne : r' ≠ r := by
        rintro rfl
        exact hr b hb
      simpa [Entry.heldUnder, hne] using ih hb
    · obtain ⟨rfl, rfl⟩ : r = r' ∧ b = a := by simpa using hb
      simp [Entry.heldUnder, sum_heldUnder_of_not_mem hr, ha]
  | capture _ _ _ _ _ ih => simpa [Entry.heldUnder] using ih (by simpa using hb)
  | void _ _ _ ih => simpa [Entry.heldUnder] using ih (by simpa using hb)

theorem hold_pos (h : Valid j) (hb : .hold r b ∈ j) : 0 < b := (h.sum_heldUnder hb).2

/-- Only holds that were made are settled. -/
theorem hold_of_settled (h : Valid j) (hs : settled j r = true) : ∃ b, .hold r b ∈ j := by
  induction h with
  | nil => simp [settled] at hs
  | credit _ _ ih =>
    obtain ⟨b, hb⟩ := ih (by simpa [settled_append, Entry.settles] using hs)
    exact ⟨b, by simp [hb]⟩
  | hold _ _ _ _ ih =>
    obtain ⟨b, hb⟩ := ih (by simpa [settled_append, Entry.settles] using hs)
    exact ⟨b, by simp [hb]⟩
  | @capture j r' a b _ hb _ _ _ ih =>
    by_cases hr : r' = r
    · subst hr
      exact ⟨b, by simp [hb]⟩
    · obtain ⟨b, hb⟩ := ih (by simpa [settled_append, Entry.settles, hr] using hs)
      exact ⟨b, by simp [hb]⟩
  | @void j r' b _ hb _ ih =>
    by_cases hr : r' = r
    · subst hr
      exact ⟨b, by simp [hb]⟩
    · obtain ⟨b, hb⟩ := ih (by simpa [settled_append, Entry.settles, hr] using hs)
      exact ⟨b, by simp [hb]⟩

theorem not_settled_of_no_hold (h : Valid j) (hr : ∀ b, .hold r b ∉ j) : settled j r = false := by
  cases hs : settled j r with
  | false => rfl
  | true =>
  obtain ⟨b, hb⟩ := h.hold_of_settled hs
  exact absurd hb (hr b)

/-- Settling an open hold of `b` frees exactly `b`, whether it is captured or voided. -/
theorem held_settle (h : Valid j) (hb : .hold r b ∈ j) (hs : settled j r = false) {e : Entry ρ}
    (he : ∀ r', e.settles r' = decide (r = r')) : held (j ++ [e]) = held j - b := by
  rw [held_append_of_settles he hs, (h.sum_heldUnder hb).1]

theorem held_capture (h : Valid j) (hb : .hold r b ∈ j) (hs : settled j r = false) (a : ℤ) :
    held (j ++ [.capture r a]) = held j - b :=
  h.held_settle hb hs fun _ => rfl

theorem held_void (h : Valid j) (hb : .hold r b ∈ j) (hs : settled j r = false) :
    held (j ++ [.void r]) = held j - b :=
  h.held_settle hb hs fun _ => rfl

theorem openAmount_nonneg (h : Valid j) {e : Entry ρ} (he : e ∈ j) : 0 ≤ openAmount j e := by
  cases e with
  | hold r a =>
    have := h.hold_pos he
    simp only [openAmount]
    split_ifs <;> omega
  | _ => exact le_rfl

theorem held_nonneg (h : Valid j) : 0 ≤ held j :=
  sum_nonneg (by simpa using fun e he => h.openAmount_nonneg he)

/-- **No overdraft**: open holds never exceed the gross balance. -/
theorem held_le_funds (h : Valid j) : held j ≤ funds j := by
  induction h with
  | nil => exact le_rfl
  | credit _ ha ih =>
    rw [held_credit, funds_append]
    simp only [Entry.delta]
    omega
  | hold h _ hle hr _ =>
    rw [held_hold (h.not_settled_of_no_hold hr), funds_append]
    simp only [Entry.delta]
    omega
  | capture h hb hs _ hab ih =>
    rw [h.held_capture hb hs, funds_append]
    simp only [Entry.delta]
    omega
  | void h hb hs ih =>
    have := h.hold_pos hb
    rw [h.held_void hb hs, funds_append]
    simp only [Entry.delta]
    omega

omit [DecidableEq ρ] in
private theorem filter_append_singleton (P : Entry ρ → Bool) (j : List (Entry ρ)) (e : Entry ρ) :
    ((j ++ [e]).filter P).length = (j.filter P).length + if P e then 1 else 0 := by
  cases h : P e <;> simp [h]

theorem settled_once (h : Valid j) (r : ρ) : (j.filter (Entry.settles r)).length ≤ 1 := by
  have hnone : ∀ {j : List (Entry ρ)}, settled j r = false → (j.filter (Entry.settles r)).length = 0 := by
    intro j hs
    simpa [settled, filter_eq_nil_iff] using hs
  induction h with
  | nil => simp
  | credit _ _ ih => simpa [filter_append_singleton, Entry.settles] using ih
  | hold _ _ _ _ ih => simpa [filter_append_singleton, Entry.settles] using ih
  | @capture j r' a b _ _ hs _ _ ih =>
    rw [filter_append_singleton]
    by_cases hr : r' = r
    · subst hr
      simp [Entry.settles, hnone hs]
    · simpa [Entry.settles, hr] using ih
  | @void j r' b _ _ hs ih =>
    rw [filter_append_singleton]
    by_cases hr : r' = r
    · subst hr
      simp [Entry.settles, hnone hs]
    · simpa [Entry.settles, hr] using ih

end Valid

end HoldLedger
