import Mathlib.Data.List.Nodup
import Mathlib.Tactic.Basic

/-!
# Table — rows with a unique key

A table keeps its rows in the order of their insertion, and with them the proof that no two have the same key.  `insert` refuses a row whose key is
taken, `modify` changes the row of one key, and `get` finds it.
-/

/-- Rows of type `ρ`, no two of which have the same `key`. -/
structure Table (ρ κ : Type) (key : ρ → κ) where
  rows : List ρ
  unique : (rows.map key).Nodup

namespace Table

open List

variable {ρ κ : Type} {key : ρ → κ} {t t' : Table ρ κ key} {row r : ρ} {k : κ}

instance [DecidableEq ρ] : DecidableEq (Table ρ κ key) := fun t t' =>
  decidable_of_iff (t.rows = t'.rows) ⟨fun h => by cases t; cases t'; cases h; rfl, congrArg rows⟩

def empty : Table ρ κ key := ⟨[], nodup_nil⟩

theorem eq_of_key {a b : ρ} (ha : a ∈ t.rows) (hb : b ∈ t.rows) (h : key a = key b) : a = b := inj_on_of_nodup_map t.unique ha hb h

variable [DecidableEq κ]

def get (t : Table ρ κ key) (k : κ) : Option ρ := t.rows.find? fun r => key r = k

theorem get_eq_some : t.get k = some row ↔ row ∈ t.rows ∧ key row = k := by
  constructor
  · intro h
    exact ⟨mem_of_find?_eq_some h, by simpa using find?_some h⟩
  rintro ⟨hmem, rfl⟩
  cases hget : t.get (key row) with
  | none => exact absurd hmem fun hm => by simpa using find?_eq_none.mp hget row hm
  | some r =>
  have hr : key r = key row := by simpa using find?_some hget
  rw [eq_of_key (mem_of_find?_eq_some hget) hmem hr]

theorem get_eq_none : t.get k = none ↔ ∀ r ∈ t.rows, key r ≠ k := by
  rw [get, find?_eq_none]
  simp

/-- The table with one more row, unless its key is taken. -/
def insert (t : Table ρ κ key) (row : ρ) : Option (Table ρ κ key) :=
  if h : key row ∈ t.rows.map key then none
  else some ⟨t.rows ++ [row], by
    rw [map_append]
    exact t.unique.append (nodup_singleton _) (disjoint_singleton.mpr h)⟩

theorem rows_insert (h : t.insert row = some t') : t'.rows = t.rows ++ [row] := by
  rw [insert] at h
  by_cases hk : key row ∈ t.rows.map key
  · rw [dif_pos hk] at h
    cases h
  · rw [dif_neg hk] at h
    cases h
    rfl

theorem mem_insert (h : t.insert row = some t') : r ∈ t'.rows ↔ r ∈ t.rows ∨ r = row := by
  rw [rows_insert h, mem_append, mem_singleton]

def modify (t : Table ρ κ key) (k : κ) (f : ρ → ρ) (hf : ∀ r, key (f r) = key r) : Table ρ κ key where
  rows := t.rows.map fun r => if key r = k then f r else r
  unique := by
    have hkey : (key ∘ fun r => if key r = k then f r else r) = key := by
      funext r
      by_cases h : key r = k
      · simp only [Function.comp_apply, if_pos h, hf]
      · simp only [Function.comp_apply, if_neg h]
    rw [map_map, hkey]
    exact t.unique

variable {f : ρ → ρ} {hf : ∀ r, key (f r) = key r}

theorem mem_modify : r ∈ (t.modify k f hf).rows ↔ ∃ r₀ ∈ t.rows, r = if key r₀ = k then f r₀ else r₀ := by
  simp only [modify, mem_map, eq_comm]

theorem get_modify (k' : κ) : (t.modify k f hf).get k' = if k' = k then (t.get k').map f else t.get k' := by
  by_cases h : k' = k
  · subst h
    rw [if_pos rfl]
    cases hget : t.get k' with
    | none =>
      rw [Option.map_none, get_eq_none]
      intro r hr
      obtain ⟨r₀, hr0, rfl⟩ := mem_modify.mp hr
      have hne := get_eq_none.mp hget r₀ hr0
      rwa [if_neg hne]
    | some r =>
    obtain ⟨hr, rfl⟩ := get_eq_some.mp hget
    rw [Option.map_some, get_eq_some]
    exact ⟨mem_modify.mpr ⟨r, hr, by rw [if_pos rfl]⟩, hf r⟩
  rw [if_neg h]
  cases hget : t.get k' with
  | none =>
    rw [get_eq_none]
    intro r hr
    obtain ⟨r₀, hr0, rfl⟩ := mem_modify.mp hr
    have hne := get_eq_none.mp hget r₀ hr0
    by_cases hk : key r₀ = k
    · rwa [if_pos hk, hf]
    · rwa [if_neg hk]
  | some r =>
  obtain ⟨hr, rfl⟩ := get_eq_some.mp hget
  rw [get_eq_some]
  exact ⟨mem_modify.mpr ⟨r, hr, by rw [if_neg h]⟩, rfl⟩

end Table
