import Mathlib.Data.List.Basic
import Mathlib.Data.String.Basic
import Mathlib.Tactic.IntervalCases
import Crm.Iam.RateLimit

/-!
# Crm.Wallet.Ulid — identifiers that sort by time

`newULIDAt` of `internal/wallet/ulid.go`: ten characters for the millisecond and sixteen for ten random bytes, five bits each, the most significant first.
-/

namespace Crm.Wallet

open Crm.Iam (unixMilli)

def crockfordAlphabet : String := "0123456789ABCDEFGHJKMNPQRSTVWXYZ"

/-- `crockfordAlphabet[(w>>shift)&0x1F]`. -/
def group (w shift : ℕ) : Char := crockfordAlphabet.toList.getD (w >>> shift &&& 0x1F) '0'

def word (a b c d e : UInt8) : ℕ := a.toNat <<< 32 ||| b.toNat <<< 24 ||| c.toNat <<< 16 ||| d.toNat <<< 8 ||| e.toNat

def newULIDAt (t : Time) (rnd : Vector UInt8 10) : String :=
  let ms := (unixMilli t % 2 ^ 64).toNat
  let hi := word rnd[0] rnd[1] rnd[2] rnd[3] rnd[4]
  let lo := word rnd[5] rnd[6] rnd[7] rnd[8] rnd[9]
  String.ofList
    [group ms 45, group ms 40, group ms 35, group ms 30, group ms 25, group ms 20, group ms 15, group ms 10, group ms 5, group ms 0,
      group hi 35, group hi 30, group hi 25, group hi 20, group hi 15, group hi 10, group hi 5, group hi 0,
      group lo 35, group lo 30, group lo 25, group lo 20, group lo 15, group lo 10, group lo 5, group lo 0]

def groups (w : ℕ) : ℕ → List Char
  | 0 => []
  | k + 1 => group w (5 * k) :: groups w k

theorem toList_newULIDAt (t : Time) (rnd : Vector UInt8 10) : (newULIDAt t rnd).toList =
    groups (unixMilli t % 2 ^ 64).toNat 10 ++ (groups (word rnd[0] rnd[1] rnd[2] rnd[3] rnd[4]) 8 ++ groups (word rnd[5] rnd[6] rnd[7] rnd[8] rnd[9]) 8) :=
  String.toList_ofList

theorem length_groups (w : ℕ) : ∀ k, (groups w k).length = k
  | 0 => rfl
  | k + 1 => congrArg (· + 1) (length_groups w k)

theorem alphabet_lt : ∀ i j : Fin 32, i < j → crockfordAlphabet.toList.getD i '0' < crockfordAlphabet.toList.getD j '0' := by decide +kernel

theorem group_lt {w w' k : ℕ} (hlt : w >>> k < w' >>> k) (htop : w >>> (k + 5) = w' >>> (k + 5)) : group w k < group w' k := by
  have hmask : ∀ x : ℕ, x &&& 0x1F = x % 32 := fun x => Nat.and_two_pow_sub_one_eq_mod x 5
  have htop : w >>> k / 32 = w' >>> k / 32 := by rwa [Nat.shiftRight_add, Nat.shiftRight_add, Nat.shiftRight_eq_div_pow _ 5, Nat.shiftRight_eq_div_pow _ 5] at htop
  rw [group, group, hmask, hmask]
  exact alphabet_lt ⟨_, Nat.mod_lt _ (by decide)⟩ ⟨_, Nat.mod_lt _ (by decide)⟩ (Fin.mk_lt_mk.mpr (by omega))

/-- **Groups sort as the words do**, whatever follows them. -/
theorem groups_lt {w w' : ℕ} (h : w < w') : ∀ {k : ℕ}, w >>> (5 * k) = w' >>> (5 * k) → ∀ l l', groups w k ++ l < groups w' k ++ l'
  | 0, htop, _, _ => absurd htop h.ne
  | k + 1, htop, l, l' => by
    rw [groups, groups, List.cons_append, List.cons_append, List.cons_lt_cons_iff]
    by_cases heq : w >>> (5 * k) = w' >>> (5 * k)
    · exact .inr ⟨by rw [group, group, heq], groups_lt h heq l l'⟩
    have hle : w >>> (5 * k) ≤ w' >>> (5 * k) := by
      rw [Nat.shiftRight_eq_div_pow, Nat.shiftRight_eq_div_pow]
      exact Nat.div_le_div_right h.le
    exact .inl (group_lt (lt_of_le_of_ne hle heq) htop)

theorem groups_injective {w w' k : ℕ} (hw : w < 2 ^ (5 * k)) (hw' : w' < 2 ^ (5 * k)) (h : groups w k = groups w' k) : w = w' := by
  have htop : w >>> (5 * k) = w' >>> (5 * k) := by rw [Nat.shiftRight_eq_zero _ _ hw, Nat.shiftRight_eq_zero _ _ hw']
  rcases lt_trichotomy w w' with hlt | heq | hlt
  · exact absurd (h ▸ groups_lt hlt htop [] []) (List.lt_irrefl _)
  · exact heq
  · exact absurd (h ▸ groups_lt hlt htop.symm [] []) (List.lt_irrefl _)

/-- The bytes of a word do not overlap. -/
theorem word_eq (a b c d e : UInt8) : word a b c d e = 2 ^ 32 * a.toNat + 2 ^ 24 * b.toNat + 2 ^ 16 * c.toNat + 2 ^ 8 * d.toNat + e.toNat := by
  have hor : ∀ (x : UInt8) (i : ℕ) {y : ℕ}, y < 2 ^ i → x.toNat <<< i ||| y = 2 ^ i * x.toNat + y := fun x i y hy => by
    rw [← Nat.shiftLeft_add_eq_or_of_lt hy, Nat.shiftLeft_eq, Nat.mul_comm]
  have hb := b.toNat_lt
  have hc := c.toNat_lt
  have hd := d.toNat_lt
  have he := e.toNat_lt
  rw [word, Nat.or_assoc, Nat.or_assoc, Nat.or_assoc, hor d 8 he, hor c 16 (by omega), hor b 24 (by omega), hor a 32 (by omega)]
  omega

theorem word_lt (a b c d e : UInt8) : word a b c d e < 2 ^ (5 * 8) := by
  have ha := a.toNat_lt
  have hb := b.toNat_lt
  have hc := c.toNat_lt
  have hd := d.toNat_lt
  have he := e.toNat_lt
  rw [word_eq]
  omega

theorem word_injective {a b c d e a' b' c' d' e' : UInt8} (h : word a b c d e = word a' b' c' d' e') : a = a' ∧ b = b' ∧ c = c' ∧ d = d' ∧ e = e' := by
  have hb := b.toNat_lt
  have hb' := b'.toNat_lt
  have hc := c.toNat_lt
  have hc' := c'.toNat_lt
  have hd := d.toNat_lt
  have hd' := d'.toNat_lt
  have he := e.toNat_lt
  have he' := e'.toNat_lt
  rw [word_eq, word_eq] at h
  simp only [← UInt8.toNat_inj]
  omega

/-- **ULIDs sort by time and keep the random bits.** -/
theorem ulid_sorts (t₁ t₂ : Time) (r₁ r₂ : Vector UInt8 10) (h₁ : 0 ≤ unixMilli t₁ ∧ unixMilli t₁ < 2 ^ 50) (h₂ : 0 ≤ unixMilli t₂ ∧ unixMilli t₂ < 2 ^ 50) :
    (unixMilli t₁ < unixMilli t₂ → newULIDAt t₁ r₁ < newULIDAt t₂ r₂) ∧
      (newULIDAt t₁ r₁ = newULIDAt t₂ r₂ → unixMilli t₁ = unixMilli t₂ ∧ r₁ = r₂) := by
  obtain ⟨hpos1, hmax1⟩ := h₁
  obtain ⟨hpos2, hmax2⟩ := h₂
  constructor
  · intro hlt
    rw [String.lt_iff_toList_lt, toList_newULIDAt, toList_newULIDAt]
    refine groups_lt (by omega) ?_ _ _
    rw [Nat.shiftRight_eq_zero, Nat.shiftRight_eq_zero] <;> omega
  intro h
  have h := congrArg String.toList h
  rw [toList_newULIDAt, toList_newULIDAt] at h
  obtain ⟨hms, h⟩ := List.append_inj h (by rw [length_groups, length_groups])
  obtain ⟨hhi, hlo⟩ := List.append_inj h (by rw [length_groups, length_groups])
  have hms := groups_injective (by omega) (by omega) hms
  have hhi := word_injective (groups_injective (word_lt ..) (word_lt ..) hhi)
  have hlo := word_injective (groups_injective (word_lt ..) (word_lt ..) hlo)
  refine ⟨by omega, Vector.ext fun i hi => ?_⟩
  interval_cases i <;> simp only [hhi, hlo]

theorem ulid_sorts_second : newULIDAt 999999 (.replicate 10 255) < newULIDAt 1000000 (.replicate 10 0) :=
  (ulid_sorts _ _ _ _ (by decide) (by decide)).1 (by decide)

end Crm.Wallet
