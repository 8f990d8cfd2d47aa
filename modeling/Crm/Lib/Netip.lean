import Mathlib.Data.Nat.Notation
import Mathlib.Tactic.Basic

/-!
# Netip — internet addresses and prefixes

An address is the invalid one, an IPv4 address, or an IPv6 address with a zone (empty when there is none).  `Prefix.contains` compares an
address with a prefix as the runtime does it, by an exclusive or and a shift or mask; `contains_v4_iff` and
`contains_v6_iff` say what it decides: that the leading bits agree.  An address with a zone is in no prefix, and an IPv4-mapped IPv6 address is in no IPv4 prefix unless it is unmapped.
-/

namespace Netip

inductive Addr : Type
  | invalid
  | v4 (a : BitVec 32)
  | v6 (a : BitVec 128) (zone : String)
  deriving DecidableEq, Repr

def ip4 (a b c d : BitVec 8) : BitVec 32 := a ++ b ++ c ++ d

namespace Addr

def isValid : Addr → Bool
  | .invalid => false
  | _ => true

/-- The IPv4 address in an IPv4-mapped IPv6 address. -/
def embedded : Addr → Option (BitVec 32)
  | .v6 a _ => if a >>> 32 = 0xffff then some (a.setWidth 32) else none
  | _ => none

/-- An IPv4-mapped address becomes the IPv4 address, without its zone. -/
def unmap (ip : Addr) : Addr :=
  match ip.embedded with
  | some a => .v4 a
  | none => ip

end Addr

/-- A prefix: an address and the number of leading bits that count. -/
inductive Prefix : Type
  | v4 (p : BitVec 32) (bits : ℕ)
  | v6 (p : BitVec 128) (bits : ℕ)
  deriving DecidableEq, Repr

/-- The first `n` bits of two addresses agree. -/
def Agree {w : ℕ} (a p : BitVec w) (n : ℕ) : Prop := ∀ i < n, a.getMsbD i = p.getMsbD i

instance {w : ℕ} (a p : BitVec w) (n : ℕ) : Decidable (Agree a p n) := inferInstanceAs (Decidable (∀ i < n, _))

/-- What is shifted out does not count. -/
theorem xor_ushiftRight_eq_zero_iff {w : ℕ} {a p : BitVec w} {n : ℕ} (hn : n ≤ w) : (a ^^^ p) >>> (w - n) = 0#w ↔ Agree a p n := by
  constructor
  · intro h i hi
    have hbit := congrArg (fun x => x.getMsbD (w - n + i)) h
    simpa [BitVec.getMsbD_ushiftRight, show w - n + i < w by omega] using hbit
  intro h
  apply BitVec.eq_of_getMsbD_eq
  intro i hi
  simp only [BitVec.getMsbD_ushiftRight, BitVec.getMsbD_xor, BitVec.getMsbD_zero]
  by_cases hlow : i < w - n
  · simp [hlow]
  · have hag := h (i - (w - n)) (by omega)
    simp [hlow, hag]

def mask (w n : ℕ) : BitVec w := BitVec.allOnes w <<< (w - n)

theorem xor_and_mask_eq_zero_iff {w : ℕ} {a p : BitVec w} {n : ℕ} (hn : n ≤ w) : (a ^^^ p) &&& mask w n = 0#w ↔ Agree a p n := by
  constructor
  · intro h i hi
    have hbit := congrArg (fun x => x.getMsbD i) h
    simpa [mask, BitVec.getMsbD_shiftLeft, show i + (w - n) < w by omega] using hbit
  intro h
  apply BitVec.eq_of_getMsbD_eq
  intro i hi
  simp only [mask, BitVec.getMsbD_and, BitVec.getMsbD_xor, BitVec.getMsbD_shiftLeft, BitVec.getMsbD_zero]
  by_cases hlow : i < n
  · simp [h i hlow]
  · simp [BitVec.getMsbD_allOnes, show ¬ i + (w - n) < w by omega]

namespace Prefix

/-- The number of bits fits the address. -/
def isValid : Prefix → Bool
  | .v4 _ bits => bits ≤ 32
  | .v6 _ bits => bits ≤ 128

def contains (p : Prefix) (ip : Addr) : Bool :=
  if ¬ p.isValid then false
  else match p, ip with
    | .v4 q bits, .v4 a => (a ^^^ q) >>> (32 - bits) = 0
    | .v6 q bits, .v6 a zone => zone = "" && (a ^^^ q) &&& mask 128 bits = 0
    | _, _ => false

/-- The address, whatever its zone, has the leading bits of the prefix. -/
def Has : Prefix → Addr → Prop
  | .v4 q bits, .v4 a => Agree a q bits
  | .v6 q bits, .v6 a _ => Agree a q bits
  | _, _ => False

instance : (p : Prefix) → (ip : Addr) → Decidable (p.Has ip)
  | .v4 _ _, .v4 _ => inferInstanceAs (Decidable (Agree _ _ _))
  | .v6 _ _, .v6 _ _ => inferInstanceAs (Decidable (Agree _ _ _))
  | .v4 _ _, .invalid => .isFalse id
  | .v4 _ _, .v6 _ _ => .isFalse id
  | .v6 _ _, .invalid => .isFalse id
  | .v6 _ _, .v4 _ => .isFalse id

variable {p : Prefix}

@[simp] theorem contains_invalid : p.contains .invalid = false := by
  cases p <;> simp [contains]

theorem contains_v4_iff (hp : p.isValid = true) {a : BitVec 32} : p.contains (.v4 a) = true ↔ p.Has (.v4 a) := by
  cases p with
  | v4 q bits =>
    have hbits : bits ≤ 32 := by simpa [isValid] using hp
    simp [contains, hp, Has, ← xor_ushiftRight_eq_zero_iff hbits]
  | v6 q bits => simp [contains, Has]

theorem contains_v6_iff (hp : p.isValid = true) {a : BitVec 128} {zone : String} :
    p.contains (.v6 a zone) = true ↔ zone = "" ∧ p.Has (.v6 a zone) := by
  cases p with
  | v4 q bits => simp [contains, Has]
  | v6 q bits =>
  have hbits : bits ≤ 128 := by simpa [isValid] using hp
  simp [contains, hp, Has, ← xor_and_mask_eq_zero_iff hbits]

end Prefix

end Netip
