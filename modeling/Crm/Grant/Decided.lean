import Crm.Grant.Credit

/-!
# Crm.Grant.Decided — a grant is consumed or revoked once

Whoever calls whatever, and wherever the connection fails.
-/

namespace Crm.Grant

open Interleave Crm.Store Crm.Wallet List

def Decided (g : MasterGrantRow) : Prop := g.consumedAt ≠ none ∨ g.revokedAt ≠ none

structure DecidedOnce (s : DB) : Prop where
  ids : (s.grants.map MasterGrantRow.id).Nodup
  once : ∀ g ∈ s.grants, g.consumedAt = none ∨ g.revokedAt = none

/-- From `s` to `s'` no decision is taken back. -/
def Keeps (s s' : DB) : Prop := ∀ g ∈ s.grants, Decided g → g ∈ s'.grants

variable {s s' : DB}

/-- An update of a grant that is still open. -/
theorem DecidedOnce.update {id : UUID} {g : MasterGrant} {f : MasterGrantRow → MasterGrantRow} (hs : DecidedOnce s) (hg : s.getGrantByID id = .ok g)
    (hrev : g.revokedAt = none) (hcon : g.consumedAt = none) (hid : ∀ x, (f x).id = x.id)
    (hf : ∀ x, (f x).revokedAt = x.revokedAt ∨ (f x).consumedAt = x.consumedAt) : DecidedOnce (s.updateGrant id f) ∧ Keeps s (s.updateGrant id f) := by
  obtain ⟨row, -, hrow, rfl, hdec⟩ := DB.getGrantByID_ok hg
  obtain ⟨-, -, -, -, -, hc, hv⟩ := MasterGrantRow.decode_ok hdec
  rw [hc] at hcon
  rw [hv] at hrev
  have hone : ∀ x ∈ s.grants, x.id = row.id → x = row := fun x hx => inj_on_of_nodup_map hs.ids hx hrow
  refine ⟨⟨?_, fun x' hx' => ?_⟩, fun x hx hd => mem_map.mpr ⟨x, hx, if_neg fun h => ?_⟩⟩
  · have hsame : (s.updateGrant row.id f).grants.map MasterGrantRow.id = s.grants.map MasterGrantRow.id := by
      simp [DB.updateGrant, Function.comp_def, apply_ite, hid]
    rw [hsame]
    exact hs.ids
  · obtain ⟨x, hx, rfl⟩ := mem_map.mp hx'
    split_ifs with h
    · obtain rfl := hone x hx h
      exact (hf x).symm.imp (·.trans hcon) (·.trans hrev)
    · exact hs.once x hx
  · obtain rfl := hone x hx h
    exact hd.elim (· hcon) (· hrev)

theorem DecidedOnce.exec {q : Req} {r : Resp q} (hs : DecidedOnce s) (he : exec q s r s') : DecidedOnce s' ∧ Keeps s s' := by
  have hsame : s'.grants = s.grants → DecidedOnce s' ∧ Keeps s s' := fun h => ⟨⟨h ▸ hs.ids, h ▸ hs.once⟩, fun _ hx _ => h ▸ hx⟩
  cases q with
  | createGrant g =>
    rcases Tx.store_cases he with rfl | ⟨_, h⟩
    · exact hsame rfl
    obtain ⟨row, hid, -, -, -, -, -, hcon, -, hfree, rfl⟩ := DB.createGrant_ok h
    refine ⟨⟨?_, fun x hx => ?_⟩, fun x hx _ => mem_append_left _ hx⟩
    · simpa [nodup_append_comm, hid] using ⟨hfree, hs.ids⟩
    · rcases mem_append.mp hx with hx | hx
      · exact hs.once x hx
      · exact .inl (mem_singleton.mp hx ▸ hcon)
  | consumeGrant id ref now =>
    rcases Tx.store_cases he with rfl | ⟨_, h⟩
    · exact hsame rfl
    obtain ⟨g, hg, hrev, hcon, rfl⟩ := DB.consumeGrant_ok h
    exact hs.update hg hrev hcon (fun _ => rfl) fun _ => .inl rfl
  | revokeGrant id u reason now =>
    rcases Tx.store_cases he with rfl | ⟨_, h⟩
    · exact hsame rfl
    obtain ⟨g, hg, hrev, hcon, rfl⟩ := DB.revokeGrant_ok h
    exact hs.update hg hrev hcon (fun _ => rfl) fun _ => .inr rfl
  | _ => exact hsame (exec_grants he rfl)

end Crm.Grant
