import Crm.Grant.Request

/-!
# Crm.Grant.FourEyes — what the requests for a grant have gone through

Any sequence of the transactions of `GrantRequestStore`, of which one that fails is rolled back.
-/

namespace Crm.Grant

open Crm.Store List

inductive RequestCall : Type
  | create (inp : CreateGrantRequestInput) (id : UUID) (externalID : String) (now : Time)
  | approve (inp : DecideGrantRequestInput) (grantID : UUID) (externalID : String) (now : Time)
  | reject (inp : DecideGrantRequestInput) (now : Time)

def RequestDB.after {α : Type} (s : RequestDB) : Except Err (α × RequestDB) → RequestDB
  | .ok (_, s') => s'
  | .error _ => s

def RequestDB.call (s : RequestDB) : RequestCall → RequestDB
  | .create inp id externalID now => s.after (createGrantRequest inp id externalID now s)
  | .approve inp grantID externalID now => s.after (approveGrantRequest inp grantID externalID now s)
  | .reject inp now => s.after (rejectGrantRequest inp now s)

/-- Who gets what, why, and on whose request. -/
abbrev Terms : Type := UUID × GrantKind × String × UUID

def grantTerms (g : MasterGrantRow) : Terms := (g.tenantID, g.kind, g.reason, g.createdByUserID)

def approvedTerms (rs : List GrantRequestRow) : List Terms :=
  (rs.filter fun r => r.state = .approved).map fun r => (r.tenantID, r.kind, r.reason, r.createdByUserID)

/-- Every decision is a second operator's, and the grants behind `old` are those of the approved requests. -/
structure Sound (old : List MasterGrantRow) (s : RequestDB) : Prop where
  ids : (s.requests.map GrantRequestRow.id).Nodup
  second : ∀ r ∈ s.requests, r.state ≠ .awaiting → ∃ a, r.requiresSecondApproverID = some a ∧ a ≠ r.createdByUserID
  promoted : ∃ new, s.db.grants = old ++ new ∧ (new.map grantTerms).Perm (approvedTerms s.requests)

/-- What is decided in `s` stands in `s'`. -/
def Stands (s s' : RequestDB) : Prop := ∀ r ∈ s.requests, r.state ≠ .awaiting → r ∈ s'.requests

variable {old : List MasterGrantRow} {s s' : RequestDB}

theorem Sound.file {row : GrantRequestRow} (hs : Sound old s) (hstate : row.state = .awaiting) (hid : ∀ r ∈ s.requests, r.id ≠ row.id) :
    Sound old { s with requests := s.requests ++ [row] } := by
  obtain ⟨hids, hsec, new, hnew, hperm⟩ := hs
  refine ⟨by simpa [nodup_append_comm] using ⟨hid, hids⟩, fun r hr hne => ?_, new, hnew, by simpa [approvedTerms, hstate] using hperm⟩
  rcases mem_append.mp hr with hr | hr
  · exact hsec r hr hne
  · exact absurd (mem_singleton.mp hr ▸ hstate) hne

/-- A decision is about the one row that has the identifier. -/
theorem Sound.decide {inp : DecideGrantRequestInput} {req : GrantRequest} {state : GrantRequestState} {now : Time} {gs : List MasterGrantRow} (hs : Sound old s)
    (h : undecided inp s = .ok req) (hreq : s'.requests = (s.markDecided inp.requestID inp.actorUserID state now).requests)
    (hdb : s'.db.grants = s.db.grants ++ gs)
    (hgs : gs.map grantTerms = if state = .approved then [(req.tenantID, req.kind, req.reason, req.createdByID)] else []) : Sound old s' ∧ Stands s s' := by
  unfold undecided RequestDB.scanRequest at h
  cases hf : s.findRequest inp.requestID with
  | none => rw [hf] at h; cases h
  | some row =>
  simp only [hf, decodeRequest] at h
  cases hd : decodePayload row.kind row.payload with
  | error e => rw [hd] at h; cases h
  | ok da =>
  rw [hd] at h
  dsimp only at h
  split_ifs at h with hstate hactor
  cases h
  rw [not_not] at hstate
  have hid : row.id = inp.requestID := by simpa using find?_some hf
  obtain ⟨l₁, l₂, hl⟩ := append_of_mem (mem_of_find?_eq_some hf)
  obtain ⟨hids, hsec, new, hnew, hperm⟩ := hs
  refine ⟨?_, fun r hr hne => hreq ▸ mem_map.mpr ⟨r, hr, if_neg fun h => hne h.2⟩⟩
  rw [hl] at hids hsec hperm
  have hrest : row.id ∉ (l₁ ++ l₂).map GrantRequestRow.id := by
    rw [map_append, map_cons, nodup_middle, nodup_cons, ← map_append] at hids
    exact hids.1
  have hother : ∀ l ⊆ l₁ ++ l₂, ∀ f : GrantRequestRow → GrantRequestRow,
      (l.map fun r => if r.id = inp.requestID ∧ r.state = .awaiting then f r else r) = l := fun l hsub f =>
    (map_congr_left fun r hr => if_neg fun h => hrest (mem_map.mpr ⟨r, hsub hr, h.1.trans hid.symm⟩)).trans (map_id' l)
  simp only [RequestDB.markDecided, hl, map_append, map_cons, if_pos (And.intro hid hstate), hother l₁ (subset_append_left ..),
    hother l₂ (subset_append_right ..)] at hreq
  refine ⟨by simpa [hreq] using hids, fun r hr hne => ?_, new ++ gs, by simp [hdb, hnew], ?_⟩
  · rw [hreq, mem_append, mem_cons] at hr
    rcases hr with hr | rfl | hr
    · exact hsec r (by simp [hr]) hne
    · exact ⟨_, rfl, Ne.symm hactor⟩
    · exact hsec r (by simp [hr]) hne
  have hbefore : approvedTerms (l₁ ++ row :: l₂) = approvedTerms (l₁ ++ l₂) := by simp [approvedTerms, hstate]
  rw [map_append, hgs, hreq]
  refine ((hbefore ▸ hperm).append_right _).trans ?_
  split_ifs with happ
  · simpa [approvedTerms, happ] using (perm_append_singleton _ _).trans perm_middle.symm
  · simp [approvedTerms, happ]

theorem Sound.call (hs : Sound old s) (c : RequestCall) : Sound old (s.call c) ∧ Stands s (s.call c) := by
  have hnone : Sound old s ∧ Stands s s := ⟨hs, fun _ hr _ => hr⟩
  cases c with
  | create inp id externalID now =>
    dsimp only [RequestDB.call, createGrantRequest]
    cases encodePayload inp.kind inp.periodDays inp.amount with
    | error e => split_ifs <;> exact hnone
    | ok payload =>
    split_ifs with _ hdup
    · exact hnone
    · exact hnone
    · exact ⟨hs.file rfl (by aesop), fun r hr _ => mem_append_left _ hr⟩
  | approve inp grantID externalID now =>
    dsimp only [RequestDB.call, approveGrantRequest]
    cases hu : undecided inp s with
    | error e => split_ifs <;> exact hnone
    | ok req =>
    dsimp only
    cases encodePayload req.kind req.periodDays req.amount with
    | error e => split_ifs <;> exact hnone
    | ok payload =>
    split_ifs
    · exact hnone
    · exact hnone
    · exact hs.decide hu rfl rfl rfl
  | reject inp now =>
    dsimp only [RequestDB.call, rejectGrantRequest]
    cases hu : undecided inp s with
    | error e => split_ifs <;> exact hnone
    | ok req =>
    split_ifs
    · exact hnone
    · exact hs.decide hu rfl (append_nil _).symm rfl

theorem Sound.run : ∀ (calls : List RequestCall) {s : RequestDB}, Sound old s → Sound old (calls.foldl RequestDB.call s) ∧ Stands s (calls.foldl RequestDB.call s)
  | [], _, hs => ⟨hs, fun _ hr _ => hr⟩
  | c :: calls, _, hs => by
    obtain ⟨hs1, hstands⟩ := hs.call c
    obtain ⟨hs2, hstands'⟩ := Sound.run calls hs1
    exact ⟨hs2, fun r hr hne => hstands' r (hstands r hr hne) hne⟩

/-- **Four eyes.**  However requests are filed and decided, every decision is a second operator's and stands, and the grants that are issued are
those of the approved requests, each once. -/
theorem four_eyes (db : DB) (calls calls' : List RequestCall) : Sound db.grants (calls.foldl RequestDB.call ⟨[], db⟩) ∧
    Stands (calls.foldl RequestDB.call ⟨[], db⟩) ((calls ++ calls').foldl RequestDB.call ⟨[], db⟩) := by
  have hempty : Sound db.grants ⟨[], db⟩ := ⟨nodup_nil, by simp, [], by simp [approvedTerms]⟩
  have hs := (hempty.run calls).1
  exact ⟨hs, foldl_append ▸ (hs.run calls').2⟩

end Crm.Grant
