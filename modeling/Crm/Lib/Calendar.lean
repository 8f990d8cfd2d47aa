import Mathlib.Data.Int.Notation
import Mathlib.Data.List.Basic
import Mathlib.Data.List.DropRight
import Mathlib.Tactic.Linarith
import Mathlib.Tactic.LinearCombination
import Mathlib.Tactic.Ring

/-!
# Calendar — dates, months and the text of an instant

An instant is a number of nanoseconds from the Unix epoch, a date a number of days, both in UTC and the proleptic
Gregorian calendar.  Months are numbered through from January of year 0.  `addMonths` keeps the day of the month and the
clock; a day that the target month does not have runs over into the next one.  `rfc3339Nano` writes an instant with as many decimals
as it needs, and the text determines the instant (`rfc3339Nano_injective`).
-/

namespace Calendar

open List

def day : ℤ := 86400000000000

def dateOf (t : ℤ) : ℤ := t / day

/-- The days before year `y`, where years begin in March so that the leap day is the last of its year. -/
def yearStart (y : ℤ) : ℤ := 365 * y + y / 4 - y / 100 + y / 400

def monthStart (k : ℤ) : ℤ := yearStart ((k - 2) / 12) + (153 * ((k - 2) % 12) + 2) / 5 - 719468

/-- The month of a date: 4800 months have 146097 days, which finds it up to one month. -/
def monthOf (d : ℤ) : ℤ :=
  let k := (d + 719468) * 4800 / 146097 + 2
  if d < monthStart k then k - 1 else if monthStart (k + 1) ≤ d then k + 1 else k

/-- The same day of the month and the same clock, `n` months later. -/
def addMonths (n t : ℤ) : ℤ :=
  (monthStart (monthOf (dateOf t) + n) + (dateOf t - monthStart (monthOf (dateOf t)))) * day + t % day

-- the 31st of January runs over into March
example : addMonths 1 (30 * day) = 61 * day := by decide

/-! ## Months -/

theorem yearStart_add_one (y : ℤ) : yearStart y + 365 ≤ yearStart (y + 1) ∧ yearStart (y + 1) ≤ yearStart y + 366 := by
  have h4 : (y + 1) / 4 = y / 4 + 1 ∧ (y + 1) % 4 = 0 ∨ (y + 1) / 4 = y / 4 ∧ (y + 1) % 4 ≠ 0 := by omega
  have h100 : (y + 1) / 100 = y / 100 + 1 ∧ (y + 1) % 100 = 0 ∨ (y + 1) / 100 = y / 100 ∧ (y + 1) % 100 ≠ 0 := by omega
  have h400 : (y + 1) / 400 = y / 400 + 1 ∧ (y + 1) % 400 = 0 ∨ (y + 1) / 400 = y / 400 ∧ (y + 1) % 400 ≠ 0 := by omega
  have h1 : (y + 1) % 100 = 0 → (y + 1) % 4 = 0 := by omega
  have h2 : (y + 1) % 400 = 0 → (y + 1) % 100 = 0 := by omega
  unfold yearStart
  omega

theorem monthStart_add_one (k : ℤ) : monthStart k + 28 ≤ monthStart (k + 1) ∧ monthStart (k + 1) ≤ monthStart k + 31 := by
  have hy := yearStart_add_one ((k - 2) / 12)
  unfold monthStart
  by_cases hm : (k - 2) % 12 = 11
  · rw [show (k + 1 - 2) / 12 = (k - 2) / 12 + 1 by omega, show (k + 1 - 2) % 12 = 0 by omega, hm]
    omega
  · rw [show (k + 1 - 2) / 12 = (k - 2) / 12 by omega, show (k + 1 - 2) % 12 = (k - 2) % 12 + 1 by omega]
    omega

/-- The first days of the months lie within four days of a line. -/
theorem monthStart_approx (k : ℤ) :
    146097 * (k - 2) - 10308 ≤ 4800 * (monthStart k + 719468) ∧ 4800 * (monthStart k + 719468) ≤ 146097 * (k - 2) + 15285 := by
  unfold monthStart yearStart
  omega

theorem monthOf_spec (d : ℤ) : monthStart (monthOf d) ≤ d ∧ d < monthStart (monthOf d + 1) := by
  obtain ⟨k, hk⟩ : ∃ k, k = (d + 719468) * 4800 / 146097 + 2 := ⟨_, rfl⟩
  have h1 := monthStart_approx (k - 1)
  have h2 := monthStart_approx (k + 1 + 1)
  unfold monthOf
  simp only [← hk]
  split_ifs with hlo hhi
  · rw [sub_add_cancel]
    omega
  · omega
  · omega

theorem monthStart_lt_iff {j k : ℤ} : monthStart j < monthStart k ↔ j < k := by
  have hsucc : ∀ k, monthStart k < monthStart (k + 1) := fun k => by
    have := monthStart_add_one k
    omega
  exact (strictMono_int_of_lt_succ hsucc).lt_iff_lt

theorem monthOf_eq_iff {d k : ℤ} : monthOf d = k ↔ monthStart k ≤ d ∧ d < monthStart (k + 1) := by
  constructor
  · rintro rfl
    exact monthOf_spec d
  rintro ⟨hlo, hhi⟩
  have h := monthOf_spec d
  have h1 : monthOf d < k + 1 := monthStart_lt_iff.mp (by omega)
  have h2 : k < monthOf d + 1 := monthStart_lt_iff.mp (by omega)
  omega

/-- Going on by months shifts by whole days. -/
theorem addMonths_eq (n t : ℤ) :
    addMonths n t = t + (monthStart (monthOf (dateOf t) + n) - monthStart (monthOf (dateOf t))) * day := by
  have ht : t = dateOf t * day + t % day := (Int.ediv_mul_add_emod t day).symm
  unfold addMonths
  linear_combination -ht

theorem dateOf_add (t k : ℤ) : dateOf (t + k * day) = dateOf t + k := Int.add_mul_ediv_right _ _ (by decide)

/-- A month has at least 28 days. -/
theorem dateOf_addMonths_one (t : ℤ) : dateOf t + 28 ≤ dateOf (addMonths 1 t) := by
  have := monthStart_add_one (monthOf (dateOf t))
  rw [addMonths_eq, dateOf_add]
  omega

theorem monthOf_addMonths_one (t : ℤ) : monthOf (dateOf (addMonths 1 t)) = monthOf (dateOf t) + 1 ↔
    dateOf t - monthStart (monthOf (dateOf t)) < monthStart (monthOf (dateOf t) + 1 + 1) - monthStart (monthOf (dateOf t) + 1) := by
  have h := monthOf_spec (dateOf t)
  rw [monthOf_eq_iff, addMonths_eq, dateOf_add]
  omega

theorem lt_addMonths_one (t : ℤ) : t < addMonths 1 t := by
  have := monthStart_add_one (monthOf (dateOf t))
  have hday : day = 86400000000000 := rfl
  rw [addMonths_eq]
  nlinarith

/-! ## Text -/

/-- Decimal digits, filled up with zeros to `w` places. -/
def pad (w n : ℕ) : List Char := List.replicate (w - (Nat.toDigits 10 n).length) '0' ++ Nat.toDigits 10 n

/-- A year in at least four places, with its sign. -/
def yearText (y : ℤ) : List Char := if y < 0 then '-' :: pad 4 (-y).toNat else pad 4 y.toNat

/-- Decimals behind a point, which goes with the last of them. -/
def pointed : List Char → List Char
  | [] => []
  | c :: l => '.' :: c :: l

/-- The decimals of a second, without trailing zeros. -/
def fraction (ns : ℕ) : List Char := pointed ((pad 9 ns).rdropWhile (· = '0'))

def dateText (d : ℤ) : List Char :=
  yearText (monthOf d / 12) ++ '-' :: (pad 2 (monthOf d % 12 + 1).toNat ++ '-' :: pad 2 (d - monthStart (monthOf d) + 1).toNat)

/-- The clock of an instant, given in nanoseconds of the day. -/
def clockText (ns : ℤ) : List Char :=
  pad 2 (ns / 3600000000000).toNat ++ ':' :: (pad 2 (ns / 60000000000 % 60).toNat ++ ':' :: (pad 2 (ns / 1000000000 % 60).toNat ++
    fraction (ns % 1000000000).toNat))

/-- `2006-01-02T15:04:05.999999999Z`. -/
def rfc3339Nano (t : ℤ) : String := String.ofList (dateText (dateOf t) ++ 'T' :: (clockText (t % day) ++ ['Z']))

example : rfc3339Nano 0 = "1970-01-01T00:00:00Z" := by decide
example : rfc3339Nano 1709251199123450000 = "2024-02-29T23:59:59.12345Z" := by decide

theorem ofDigitChars_zeros (k : ℕ) (l : List Char) : Nat.ofDigitChars 10 (List.replicate k '0' ++ l) 0 = Nat.ofDigitChars 10 l 0 := by
  induction k with
  | zero => rfl
  | succ k ih => simpa [replicate_succ, Nat.ofDigitChars_cons] using ih

theorem ofDigitChars_pad (w n : ℕ) : Nat.ofDigitChars 10 (pad w n) 0 = n := by
  rw [pad, ofDigitChars_zeros, Nat.ofDigitChars_toDigits (by decide) (by decide)]

variable {w n n' : ℕ} {c : Char} {r r' : List Char}

theorem pad_injective (h : pad w n = pad w n') : n = n' := by
  rw [← ofDigitChars_pad w n, h, ofDigitChars_pad]

theorem isDigit_of_mem_pad (h : c ∈ pad w n) : c.isDigit = true := by
  rcases mem_append.mp h with h | h
  · rw [eq_of_mem_replicate h]
    rfl
  · exact Nat.isDigit_of_mem_toDigits (by decide) (by decide) h

theorem length_pad (h : n < 10 ^ w) (hw : 0 < w) : (pad w n).length = w := by
  have := (Nat.length_toDigits_le_iff (b := 10) (n := n) (k := w) (by decide) hw).mpr h
  simp [pad]
  omega

/-- A text of digits ends where the next character is none. -/
theorem digits_inj {l l' : List Char} (hc : c.isDigit = false) (hl : ∀ x ∈ l, x.isDigit = true) (hl' : ∀ x ∈ l', x.isDigit = true)
    (h : l ++ c :: r = l' ++ c :: r') : l = l' ∧ r = r' := by
  induction l generalizing l' with
  | nil =>
    cases l' with
    | nil => exact ⟨rfl, (List.cons.inj h).2⟩
    | cons d t =>
    rw [(List.cons.inj h).1, hl' d mem_cons_self] at hc
    cases hc
  | cons d t ih =>
    cases l' with
    | nil =>
      rw [← (List.cons.inj h).1, hl d mem_cons_self] at hc
      cases hc
    | cons d' t' =>
    obtain ⟨rfl, ht⟩ := List.cons.inj h
    obtain ⟨rfl, hr⟩ := ih (fun x hx => hl x (mem_cons_of_mem _ hx)) (fun x hx => hl' x (mem_cons_of_mem _ hx)) ht
    exact ⟨rfl, hr⟩

theorem pad_cons_inj (hc : c.isDigit = false) (h : pad w n ++ c :: r = pad w n' ++ c :: r') : n = n' ∧ r = r' := by
  obtain ⟨h1, h2⟩ := digits_inj hc (fun _ => isDigit_of_mem_pad) (fun _ => isDigit_of_mem_pad) h
  exact ⟨pad_injective h1, h2⟩

theorem yearText_inj {y y' : ℤ} (h : yearText y ++ '-' :: r = yearText y' ++ '-' :: r') : y = y' ∧ r = r' := by
  have hhead : ∀ {n : ℕ} {l l' : List Char}, '-' :: l ≠ pad 4 n ++ l' := by
    intro n l l' he
    cases hp : pad 4 n with
    | nil =>
      have := ofDigitChars_pad 4 n
      have hlen : 0 < (pad 4 n).length := by
        have := Nat.length_toDigits_pos (b := 10) (n := n)
        simp [pad]
        omega
      rw [hp] at hlen
      cases hlen
    | cons c t =>
    rw [hp, cons_append] at he
    have hd : c.isDigit = true := isDigit_of_mem_pad (w := 4) (n := n) (by rw [hp]; exact mem_cons_self)
    rw [← (List.cons.inj he).1] at hd
    cases hd
  unfold yearText at h
  split_ifs at h with hy hy' hy'
  · obtain ⟨hn, hr⟩ := pad_cons_inj rfl (List.cons.inj h).2
    exact ⟨by omega, hr⟩
  · exact absurd h hhead
  · exact absurd h.symm hhead
  · obtain ⟨hn, hr⟩ := pad_cons_inj rfl h
    exact ⟨by omega, hr⟩

/-- What is dropped from the end are zeros, and their number is what is missing. -/
theorem rdropWhile_zeros (l : List Char) :
    l.rdropWhile (· = '0') ++ List.replicate (l.length - (l.rdropWhile (· = '0')).length) '0' = l := by
  induction l using List.reverseRecOn with
  | nil => rfl
  | append_singleton l c ih =>
    by_cases hc : c = '0'
    · subst hc
      have hle : (l.rdropWhile (· = '0')).length ≤ l.length := ( rdropWhile_prefix _ l).length_le
      rw [rdropWhile_concat_pos _ _ _ (by simp), length_append, length_singleton,
        show l.length + 1 - (l.rdropWhile (· = '0')).length = l.length - (l.rdropWhile (· = '0')).length + 1 by omega,
        replicate_succ', ← append_assoc, ih]
    · rw [rdropWhile_concat_neg _ _ _ (by simpa using hc)]
      simp

theorem pointed_injective {l l' : List Char} (h : pointed l = pointed l') : l = l' := by
  cases l <;> cases l' <;> simp_all [pointed]

theorem fraction_injective (hn : n < 10 ^ 9) (hn' : n' < 10 ^ 9) (h : fraction n = fraction n') : n = n' := by
  apply pad_injective (w := 9)
  rw [← rdropWhile_zeros (pad 9 n), ← rdropWhile_zeros (pad 9 n'), pointed_injective h, length_pad hn (by decide),
    length_pad hn' (by decide)]

theorem clockText_inj {ns ns' : ℤ} (h0 : 0 ≤ ns) (h0' : 0 ≤ ns') (h : clockText ns ++ ['Z'] = clockText ns' ++ ['Z']) : ns = ns' := by
  simp only [clockText, append_assoc, cons_append] at h
  obtain ⟨hh, h⟩ := pad_cons_inj rfl h
  obtain ⟨hm, h⟩ := pad_cons_inj rfl h
  obtain ⟨hs, h⟩ := append_inj h (by rw [length_pad, length_pad] <;> omega)
  have hf := fraction_injective (by omega) (by omega) (append_cancel_right h)
  have hs := pad_injective hs
  omega

theorem dateText_inj {d d' : ℤ} (h : dateText d ++ 'T' :: r = dateText d' ++ 'T' :: r') : d = d' ∧ r = r' := by
  simp only [dateText, append_assoc, cons_append] at h
  obtain ⟨hy, h⟩ := yearText_inj h
  obtain ⟨hm, h⟩ := pad_cons_inj rfl h
  obtain ⟨hd, hr⟩ := pad_cons_inj rfl h
  have hk : monthOf d = monthOf d' := by omega
  have h1 := (monthOf_spec d).1
  have h1' := (monthOf_spec d').1
  rw [hk] at hd h1
  exact ⟨by omega, hr⟩

/-- **The text determines the instant.** -/
theorem rfc3339Nano_injective {t t' : ℤ} (h : rfc3339Nano t = rfc3339Nano t') : t = t' := by
  obtain ⟨hd, hc⟩ := dateText_inj (String.ofList_injective h)
  have hns := clockText_inj (Int.emod_nonneg t (by decide)) (Int.emod_nonneg t' (by decide)) hc
  rw [← Int.ediv_mul_add_emod t day, ← Int.ediv_mul_add_emod t' day, hns]
  exact congrArg (· * day + t' % day) hd

end Calendar
