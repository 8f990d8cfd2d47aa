import Crm.Funnel.Cascade
import Crm.Funnel.Channel

/-!
# Crm.Funnel.Resolver — one resolver over either repository

`Resolve` of `internal/funnel/rules/resolver.go` over rules that have been created one after the other.
-/

namespace Crm.Funnel

open Text List

variable {T : CaseTables} {m : InMemoryRepository} {db : RuleTable} {rules : List Rule}

def resolve (T : CaseTables) (list : UUID → String → UUID → Except Err (List Rule)) (tenantID : UUID) (channel : String) (teamID : UUID) :
    Except Err (List ResolvedRule) :=
  if tenantID = UUID.Nil then .error .rulesInvalidTenant
  else match list tenantID channel teamID with
    | .error e => .error e
    | .ok candidates => .ok (cascade T candidates)

theorem Mirrors.createAll (hm : Mirrors m db) (hids : ((m.rules ++ rules).map Rule.id).Nodup) :
    (∃ e, rules.foldlM InMemoryRepository.create m = .error e ∧ rules.foldlM RuleTable.create db = .error e) ∨
    ∃ m' db', rules.foldlM InMemoryRepository.create m = .ok m' ∧ rules.foldlM RuleTable.create db = .ok db' ∧ Mirrors m' db' ∧ m'.rules = m.rules ++ rules := by
  induction rules generalizing m db with
  | nil => exact .inr ⟨m, db, rfl, rfl, hm, (append_nil _).symm⟩
  | cons r rules ih =>
    by_cases ht : r.tenantID = UUID.Nil
    · exact .inl ⟨.rulesInvalidTenant, by simp [foldlM_cons, InMemoryRepository.create, ht, bind, Except.bind], by
        simp [foldlM_cons, RuleTable.create, ht, bind, Except.bind]⟩
    have hfree : (insertRule r).id ∉ db.rows.map RuleRow.id := by
      rw [hm, map_map]
      simp only [map_append, map_cons, nodup_middle, nodup_cons, mem_append, not_or] at hids
      exact hids.1.1
    have hmem : m.create r = .ok ⟨m.rules ++ [r]⟩ := if_neg ht
    have hdb : db.create r = .ok (db.insert (insertRule r) hfree) := by rw [RuleTable.create, if_neg ht, dif_neg hfree]
    have ih := ih (hm.create hmem hdb) (by simpa using hids)
    simpa [foldlM_cons, hmem, hdb, bind, Except.bind] using ih

end Crm.Funnel
