import Crm.Basic
import Crm.Lib.Int64
import Crm.Lib.Uuid

/-!
# Crm.Wallet.Domain — the token wallet aggregate

`TokenWallet` is the aggregate of `internal/wallet/wallet.go` with its four mutations.  Each mutation returns the
mutated wallet or the error it refuses with; every `int64` operation is written with `wrap`.  Beside each mutation
stands the list of the exact results of the `int64` operations that the call evaluates, in program order up to the
point where it returns (`reserveArith`, …), so that "no operation overflows" can be stated of a call.
-/

namespace Crm.Wallet

open Int64Arith List

structure TokenWallet where
  id : UUID
  tenantID : UUID
  balance : ℤ
  reserved : ℤ
  version : ℤ
  createdAt : Time
  updatedAt : Time
  deriving DecidableEq, Repr

inductive LedgerKind : Type
  | reserve
  | commit
  | release
  | grant
  deriving DecidableEq, Repr

inductive LedgerSource : Type
  | consumption
  | monthlyAlloc
  | masterGrant
  deriving DecidableEq, Repr

/-- A ledger line as callers hand it to the store.  `source = none` is the empty source of the callers that leave it
unset, and an empty `externalRef` is stored as a null. -/
structure LedgerEntry where
  id : UUID
  walletID : UUID
  tenantID : UUID
  kind : LedgerKind
  amount : ℤ
  idempotencyKey : String
  externalRef : String
  source : Option LedgerSource
  masterGrantID : Option UUID
  occurredAt : Time
  createdAt : Time
  deriving DecidableEq, Repr

structure Reservation where
  id : UUID
  walletID : UUID
  tenantID : UUID
  amount : ℤ
  idempotencyKey : String
  createdAt : Time
  deriving DecidableEq, Repr

/-- The sign convention of the ledger. -/
def signedAmount : LedgerKind → ℤ → ℤ
  | .reserve, m => wrap (-m)
  | .commit, m => wrap (-m)
  | .release, m => m
  | .grant, m => m

namespace TokenWallet

variable (w : TokenWallet)

/-- Every mutation ends by bumping the version stamp and the in-memory `updatedAt`. -/
def bump (now : Time) : TokenWallet :=
  { w with version := wrap (w.version + 1), updatedAt := now }

def reserve (amount : ℤ) (now : Time) : Except Err TokenWallet :=
  if amount ≤ 0 then .error .invalidAmount
  else if wrap (w.balance - w.reserved) < amount then .error .insufficientFunds
  else .ok ({ w with reserved := wrap (w.reserved + amount) }.bump now)

def reserveArith (amount : ℤ) : List ℤ :=
  if amount ≤ 0 then []
  else if wrap (w.balance - w.reserved) < amount then [w.balance - w.reserved]
  else [w.balance - w.reserved, w.reserved + amount]

def commit (commitAmount reservedAtCall : ℤ) (now : Time) : Except Err TokenWallet :=
  if commitAmount ≤ 0 then .error .invalidAmount
  else if reservedAtCall ≤ 0 then .error .invalidAmount
  else if reservedAtCall < commitAmount then .error .invalidAmount
  -- the loaded wallet is out of date; the use case reloads
  else if w.reserved < reservedAtCall then .error .versionConflict
  else .ok ({ w with balance := wrap (w.balance - commitAmount), reserved := wrap (w.reserved - reservedAtCall) }.bump now)

def commitArith (commitAmount reservedAtCall : ℤ) : List ℤ :=
  if commitAmount ≤ 0 ∨ reservedAtCall ≤ 0 ∨ reservedAtCall < commitAmount ∨ w.reserved < reservedAtCall then []
  else [w.balance - commitAmount, w.reserved - reservedAtCall]

def release (amount : ℤ) (now : Time) : Except Err TokenWallet :=
  if amount ≤ 0 then .error .invalidAmount
  else if w.reserved < amount then .error .versionConflict
  else .ok ({ w with reserved := wrap (w.reserved - amount) }.bump now)

def releaseArith (amount : ℤ) : List ℤ :=
  if amount ≤ 0 ∨ w.reserved < amount then [] else [w.reserved - amount]

def grant (amount : ℤ) (now : Time) : Except Err TokenWallet :=
  if amount ≤ 0 then .error .invalidAmount
  else if wrap (maxInt64 - w.balance) < amount then .error .invalidAmount
  else .ok ({ w with balance := wrap (w.balance + amount) }.bump now)

def grantArith (amount : ℤ) : List ℤ :=
  if amount ≤ 0 then []
  else if wrap (maxInt64 - w.balance) < amount then [maxInt64 - w.balance]
  else [maxInt64 - w.balance, w.balance + amount]

/-! ## What a mutation does to a well-formed wallet -/

/-- The wallet's own invariants, with the bound the columns have. -/
def WF : Prop := 0 ≤ w.reserved ∧ w.reserved ≤ w.balance ∧ w.balance ≤ maxInt64

variable {w w' : TokenWallet} {amount commitAmount reservedAtCall : ℤ} {now : Time}

theorem WF.inRange (h : w.WF) : InRange (w.balance - w.reserved) ∧ InRange (maxInt64 - w.balance) := by
  obtain ⟨h1, h2, h3⟩ := h
  unfold InRange minInt64 maxInt64 at *
  omega

/-- A mutation writes a wallet with the same identity, the next version stamp and the given counters. -/
structure Bumped (w : TokenWallet) (balance reserved : ℤ) (w' : TokenWallet) : Prop where
  id : w'.id = w.id
  tenantID : w'.tenantID = w.tenantID
  version : w'.version = wrap (w.version + 1)
  balance : w'.balance = balance
  reserved : w'.reserved = reserved

theorem reserve_bumped (h : w.reserve amount now = .ok w') :
    0 < amount ∧ amount ≤ wrap (w.balance - w.reserved) ∧ w.Bumped w.balance (wrap (w.reserved + amount)) w' := by
  unfold reserve at h
  split_ifs at h with h1 h2
  cases h
  exact ⟨by omega, by omega, ⟨rfl, rfl, rfl, rfl, rfl⟩⟩

theorem commit_bumped (h : w.commit commitAmount reservedAtCall now = .ok w') :
    0 < commitAmount ∧ commitAmount ≤ reservedAtCall ∧ reservedAtCall ≤ w.reserved ∧
      w.Bumped (wrap (w.balance - commitAmount)) (wrap (w.reserved - reservedAtCall)) w' := by
  unfold commit at h
  split_ifs at h with h1 h2 h3 h4
  cases h
  exact ⟨by omega, by omega, by omega, ⟨rfl, rfl, rfl, rfl, rfl⟩⟩

theorem release_bumped (h : w.release amount now = .ok w') :
    0 < amount ∧ amount ≤ w.reserved ∧ w.Bumped w.balance (wrap (w.reserved - amount)) w' := by
  unfold release at h
  split_ifs at h with h1 h2
  cases h
  exact ⟨by omega, by omega, ⟨rfl, rfl, rfl, rfl, rfl⟩⟩

theorem grant_bumped (h : w.grant amount now = .ok w') :
    0 < amount ∧ amount ≤ wrap (maxInt64 - w.balance) ∧ w.Bumped (wrap (w.balance + amount)) w.reserved w' := by
  unfold grant at h
  split_ifs at h with h1 h2
  cases h
  exact ⟨by omega, by omega, ⟨rfl, rfl, rfl, rfl, rfl⟩⟩

/-- No counter operation of a mutation overflows on a well-formed wallet, whatever the arguments. -/
theorem WF.arith_inRange (h : w.WF) (amount commitAmount reservedAtCall : ℤ) :
    (∀ x ∈ w.reserveArith amount, InRange x) ∧ (∀ x ∈ w.commitArith commitAmount reservedAtCall, InRange x) ∧
      (∀ x ∈ w.releaseArith amount, InRange x) ∧ ∀ x ∈ w.grantArith amount, InRange x := by
  obtain ⟨hbr, hmb⟩ := h.inRange
  have hwr := wrap_of_inRange hbr
  have hwm := wrap_of_inRange hmb
  obtain ⟨h1, h2, h3⟩ := h
  have key : ∀ {x : ℤ}, 0 ≤ x → x ≤ maxInt64 → InRange x := by
    intro x hx hx'
    exact ⟨le_trans (by decide) hx, hx'⟩
  refine ⟨?_, ?_, ?_, ?_⟩ <;> intro x hx
  · unfold reserveArith at hx
    rw [hwr] at hx
    split_ifs at hx
    · simp at hx
    · rw [mem_singleton] at hx
      exact hx ▸ hbr
    rcases mem_cons.mp hx with rfl | hx
    · exact hbr
    · rw [mem_singleton] at hx
      exact key (by omega) (by omega)
  · unfold commitArith at hx
    split_ifs at hx
    · simp at hx
    rcases mem_cons.mp hx with rfl | hx
    · exact key (by omega) (by omega)
    · rw [mem_singleton] at hx
      exact key (by omega) (by omega)
  · unfold releaseArith at hx
    split_ifs at hx
    · simp at hx
    · rw [mem_singleton] at hx
      exact key (by omega) (by omega)
  unfold grantArith at hx
  rw [hwm] at hx
  split_ifs at hx
  · simp at hx
  · rw [mem_singleton] at hx
    exact hx ▸ hmb
  rcases mem_cons.mp hx with rfl | hx
  · exact hmb
  · rw [mem_singleton] at hx
    exact key (by omega) (by omega)

end TokenWallet

end Crm.Wallet
