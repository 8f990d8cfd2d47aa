import Mathlib.Data.List.Range
import Mathlib.Data.Option.Basic
import Mathlib.Tactic.IntervalCases
import Mathlib.Tactic.Ring

/-!
# Uuid — 128-bit identifiers and their text

The canonical text of an identifier is its 32 lower-case hexadecimal digits in groups of 8, 4, 4, 4 and 12 separated
by dashes.  `parse` also reads the 32 bare digits, the URN form and the form in braces.  Every text written by
`UUID.string` is read back (`UUID.parse_string`), so the text determines the identifier (`UUID.string_injective`).
-/

abbrev UUID : Type := BitVec 128

namespace UUID

open List

instance instLawfulBEq : LawfulBEq UUID := inferInstance

def Nil : UUID := 0

def hexDigit (n : ℕ) : Char := if n < 10 then Char.ofNat (48 + n) else Char.ofNat (87 + n)

def hexValue (c : Char) : Option ℕ :=
  if '0' ≤ c ∧ c ≤ '9' then some (c.toNat - 48)
  else if 'a' ≤ c ∧ c ≤ 'f' then some (c.toNat - 87)
  else if 'A' ≤ c ∧ c ≤ 'F' then some (c.toNat - 55)
  else none

/-- The first `k` of the 32 hexadecimal digits of `n`, most significant first. -/
def hexDigits (n : ℕ) (k : ℕ) : List Char := (List.range k).map fun i => hexDigit (n / 16 ^ (31 - i) % 16)

def dashed (l : List Char) : List Char :=
  l.take 8 ++ '-' :: (l.drop 8).take 4 ++ '-' :: (l.drop 12).take 4 ++ '-' :: (l.drop 16).take 4 ++
    '-' :: l.drop 20

def string (u : UUID) : String := String.ofList (dashed (hexDigits u.toNat 32))

def hexNat (l : List Char) : Option ℕ := (l.mapM hexValue).map (List.foldl (fun a d => a * 16 + d) 0)

/-- 36 characters in canonical form. -/
def parseDashed (l : List Char) : Option UUID :=
  if l[8]? = some '-' ∧ l[13]? = some '-' ∧ l[18]? = some '-' ∧ l[23]? = some '-' then
    (hexNat (l.take 8 ++ (l.drop 9).take 4 ++ (l.drop 14).take 4 ++ (l.drop 19).take 4 ++
      (l.drop 24).take 12)).map (BitVec.ofNat 128)
  else none

def parse (s : String) : Option UUID :=
  let l := s.toList
  if l.length = 36 then parseDashed l
  else if l.length = 45 then
    if (l.take 9).map Char.toLower = "urn:uuid:".toList then parseDashed (l.drop 9) else none
  else if l.length = 38 then parseDashed (l.drop 1)
  else if l.length = 32 then (hexNat l).map (BitVec.ofNat 128)
  else none

/-! ## Round trip -/

variable {n : ℕ} {l : List Char}

theorem hexValue_hexDigit (h : n < 16) : hexValue (hexDigit n) = some n := by
  interval_cases n <;> decide

@[simp] theorem length_hexDigits (n k : ℕ) : (hexDigits n k).length = k := by simp [hexDigits]

/-- Reading the first `k` digits gives the number they are the head of. -/
theorem hexNat_hexDigits {k : ℕ} (hk : k ≤ 32) (hn : n < 16 ^ 32) : hexNat (hexDigits n k) = some (n / 16 ^ (32 - k)) := by
  induction k with
  | zero =>
    rw [Nat.sub_zero, Nat.div_eq_of_lt hn]
    rfl
  | succ k ih =>
    have ih := ih (by omega)
    obtain ⟨ds, hds, hfold⟩ : ∃ ds, (hexDigits n k).mapM hexValue = some ds ∧
        ds.foldl (fun a d => a * 16 + d) 0 = n / 16 ^ (32 - k) := by
      simpa [hexNat] using ih
    have hlast : hexValue (hexDigit (n / 16 ^ (31 - k) % 16)) = some (n / 16 ^ (31 - k) % 16) :=
      hexValue_hexDigit (Nat.mod_lt _ (by norm_num))
    have hsplit : hexDigits n (k + 1) = hexDigits n k ++ [hexDigit (n / 16 ^ (31 - k) % 16)] := by
      simp [hexDigits, range_succ]
    have hdiv : n / 16 ^ (32 - k) = n / 16 ^ (31 - k) / 16 := by
      rw [Nat.div_div_eq_div_mul, ← Nat.pow_succ]
      congr 2
      omega
    have hexp : 32 - (k + 1) = 31 - k := by omega
    rw [hsplit, hexNat, mapM_append, hds]
    simp [hlast, hfold, hexp, hdiv]
    omega

theorem parseDashed_dashed (h : l.length = 32) : parseDashed (dashed l) = (hexNat l).map (BitVec.ofNat 128) := by
  -- name the five groups; every position of the dashed text then computes from their lengths
  obtain ⟨a, b, c, d, e, rfl, ha, hb, hc, hd, he⟩ : ∃ a b c d e : List Char, l = a ++ b ++ c ++ d ++ e ∧
      a.length = 8 ∧ b.length = 4 ∧ c.length = 4 ∧ d.length = 4 ∧ e.length = 12 := by
    refine ⟨l.take 8, (l.drop 8).take 4, (l.drop 12).take 4, (l.drop 16).take 4, l.drop 20, ?_, ?_⟩
    · have h1 : l.drop 16 = (l.drop 16).take 4 ++ l.drop 20 := by
        simpa using (take_append_drop 4 (l.drop 16)).symm
      have h2 : l.drop 12 = (l.drop 12).take 4 ++ l.drop 16 := by
        simpa using (take_append_drop 4 (l.drop 12)).symm
      have h3 : l.drop 8 = (l.drop 8).take 4 ++ l.drop 12 := by
        simpa using (take_append_drop 4 (l.drop 8)).symm
      simp only [append_assoc]
      rw [← h1, ← h2, ← h3, take_append_drop]
    · simp [h]
  have hd' : dashed (a ++ b ++ c ++ d ++ e) =
      a ++ '-' :: (b ++ '-' :: (c ++ '-' :: (d ++ '-' :: e))) := by
    simp (disch := omega) [dashed, drop_append, drop_of_length_le, ha, hb, hc]
  have hdash : ∀ i ∈ [8, 13, 18, 23],
      (a ++ '-' :: (b ++ '-' :: (c ++ '-' :: (d ++ '-' :: e))))[i]? = some '-' := by
    simp [getElem?_append, getElem?_cons, ha, hb, hc, hd]
  rw [hd', parseDashed, if_pos ⟨hdash 8 (by simp), hdash 13 (by simp), hdash 18 (by simp), hdash 23 (by simp)⟩]
  simp (disch := omega) [drop_append, drop_of_length_le, take_of_length_le, ha, hb, hc, hd]

theorem parse_string (u : UUID) : parse u.string = some u := by
  have hlen : (dashed (hexDigits u.toNat 32)).length = 36 := by simp [dashed]
  have hu : u.toNat < 16 ^ 32 := by
    have := u.isLt
    norm_num at this ⊢
    omega
  rw [parse, string, String.toList_ofList, if_pos hlen, parseDashed_dashed (length_hexDigits _ _),
    hexNat_hexDigits le_rfl hu]
  simp

theorem length_string (u : UUID) : u.string.toList.length = 36 := by
  rw [string, String.toList_ofList]
  simp [dashed]

theorem string_injective {u v : UUID} (h : u.string = v.string) : u = v := by
  have := parse_string u
  rw [h, parse_string] at this
  exact (Option.some.inj this).symm

/-! ## Size -/

theorem utf8ByteSize_ofList (h : ∀ c ∈ l, c.utf8Size = 1) : (String.ofList l).utf8ByteSize = l.length := by
  induction l with
  | nil => rfl
  | cons c l ih =>
    rw [String.ofList_cons, String.utf8ByteSize_append, String.utf8ByteSize_singleton, h c mem_cons_self,
      ih fun d hd => h d (mem_cons_of_mem _ hd), length_cons, add_comm]

theorem utf8Size_hexDigit (h : n < 16) : (hexDigit n).utf8Size = 1 := by
  interval_cases n <;> decide

theorem mem_dashed {c : Char} (h : c ∈ dashed l) : c = '-' ∨ c ∈ l := by
  simp only [dashed, mem_append, mem_cons] at h
  have htake : ∀ {k : ℕ} {l' : List Char}, c ∈ l'.take k → c ∈ l' := mem_of_mem_take
  have hdrop : ∀ {k : ℕ}, c ∈ l.drop k → c ∈ l := mem_of_mem_drop
  tauto

theorem utf8ByteSize_string (u : UUID) : u.string.utf8ByteSize = 36 := by
  rw [string, utf8ByteSize_ofList]
  · simp [dashed]
  intro c hc
  rcases mem_dashed hc with rfl | hc
  · rfl
  · obtain ⟨i, -, rfl⟩ := mem_map.mp hc
    exact utf8Size_hexDigit (Nat.mod_lt _ (by decide))

end UUID
