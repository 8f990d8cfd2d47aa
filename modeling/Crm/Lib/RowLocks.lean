import Mathlib.Logic.Function.Basic
import Mathlib.Tactic.SplitIfs

/-!
# RowLocks — open transactions over a table

A table is a partial function of its keys.  An open transaction has an `Overlay`: the rows it has written, and those it has locked without writing.  It
sees the committed rows under its own writes (`view`), and its commit makes what it sees the table.  The rows it has written or locked it `holds` to
its end; a transaction that needs a row another one holds has to wait, so open transactions are `Apart`.
-/

namespace RowLocks

variable {κ ρ : Type}

/-- What an open transaction has written and locked; a row written as `none` is deleted. -/
structure Overlay (κ ρ : Type) where
  writes : κ → Option (Option ρ)
  locks : κ → Bool

namespace Overlay

variable (o : Overlay κ ρ)

def empty : Overlay κ ρ := ⟨fun _ => none, fun _ => false⟩

def view (rows : κ → Option ρ) (k : κ) : Option ρ := (o.writes k).getD (rows k)

def holds (k : κ) : Bool := (o.writes k).isSome || o.locks k

def lock (p : κ → Bool) : Overlay κ ρ := { o with locks := fun k => o.locks k || p k }

variable (f : κ → Option (Option ρ))

/-- Rows that `f` gives a value are written. -/
def write : Overlay κ ρ := { o with writes := fun k => (f k).or (o.writes k) }

def put [DecidableEq κ] (k : κ) (x : Option ρ) : Overlay κ ρ := o.write fun k' => if k' = k then some x else none

/-- The transactions hold different rows. -/
def Apart (o o' : Overlay κ ρ) : Prop := ∀ k, o.holds k = true → o'.holds k = false

variable {o} {o' : Overlay κ ρ} {rows rows' : κ → Option ρ} {k : κ}

@[simp] theorem writes_empty : (empty : Overlay κ ρ).writes k = none := rfl

@[simp] theorem holds_empty : (empty : Overlay κ ρ).holds k = false := rfl

@[simp] theorem view_empty : (empty : Overlay κ ρ).view rows = rows := rfl

@[simp] theorem writes_lock (p : κ → Bool) : (o.lock p).writes = o.writes := rfl

@[simp] theorem view_lock (p : κ → Bool) : (o.lock p).view rows = o.view rows := rfl

@[simp] theorem holds_lock (p : κ → Bool) : (o.lock p).holds k = (o.holds k || p k) := (Bool.or_assoc ..).symm

theorem writes_write : (o.write f).writes k = (f k).or (o.writes k) := rfl

theorem view_write : (o.write f).view rows k = (f k).getD (o.view rows k) := by
  cases h : f k <;> simp [view, write, h]

theorem holds_write : (o.write f).holds k = ((f k).isSome || o.holds k) := by
  cases h : f k <;> simp [holds, write, h]

theorem writes_put [DecidableEq κ] (k' : κ) (x : Option ρ) : (o.put k' x).writes k = if k = k' then some x else o.writes k := by
  rw [put, writes_write]
  split_ifs <;> rfl

theorem view_put [DecidableEq κ] (k' : κ) (x : Option ρ) : (o.put k' x).view rows k = if k = k' then x else o.view rows k := by
  rw [put, view_write]
  split_ifs <;> rfl

theorem holds_put [DecidableEq κ] (k' : κ) (x : Option ρ) : (o.put k' x).holds k = (decide (k = k') || o.holds k) := by
  rw [put, holds_write]
  split_ifs with h <;> simp [h]

theorem view_of_writes (h : o.writes k = none) : o.view rows k = rows k := by simp [view, h]

theorem holds_of_writes {x : Option ρ} (h : o.writes k = some x) : o.holds k = true := by simp [holds, h]

theorem writes_of_not_holds (h : o.holds k = false) : o.writes k = none := by
  cases hw : o.writes k with
  | none => rfl
  | some x =>
  rw [holds_of_writes hw] at h
  cases h

theorem view_congr (h : rows' k = rows k) : o.view rows' k = o.view rows k := by simp [view, h]

theorem Apart.symm (h : o.Apart o') : o'.Apart o := by
  intro k hk
  by_contra hne
  rw [h k (by simpa using hne)] at hk
  cases hk

/-- A commit leaves the rows that another transaction holds. -/
theorem Apart.view_eq (h : o.Apart o') (hk : o'.holds k = true) : o.view rows k = rows k := view_of_writes (writes_of_not_holds (h.symm k hk))

end Overlay

end RowLocks
