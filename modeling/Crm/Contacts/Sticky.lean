import Crm.Contacts.Resolve

/-!
# Crm.Contacts.Sticky — resolving a contact again

`Resolve` writes a link only for a contact without any hit.  A contact that has no link of its own but is hit by its phone number or its address gets the
identity of the hit and no link, so the next call, without the number, finds nothing and makes a new identity (`resolved_anew`).
-/

namespace Crm.Contacts

open Interleave RowLocks Prog

section

variable {db : IdentityDB} {S : Session} {tenantID c : UUID} {channel externalID : String} {identity : Identity}

/-- The contact is linked to the identity, as the transaction sees it. -/
def Linked (db : IdentityDB) (tenantID : UUID) (S : Session) (c : UUID) (identity : Identity) : Prop :=
  ∃ row, db.link S c = some row ∧ db.loaded tenantID S row.identityID = some identity

theorem hit_of_linked {row : LinkRow} (mergeEnabled : Bool) (phone email : String) (hc : db.channels channel externalID = some c)
    (hrow : db.links c = some row) : ∃ x ∈ db.hits mergeEnabled channel externalID phone email, x.identityID = row.identityID := by
  have hmem : ⟨row.identityID, .externalID, db.assigned c⟩ ∈ candidateOf .externalID (db.hit channel externalID) := by
    simp [candidateOf, IdentityDB.hit, hc, hrow]
  refine ⟨⟨row.identityID, .externalID, db.assigned c⟩, ?_, rfl⟩
  rw [IdentityDB.hits]
  split
  · exact hmem
  · exact List.mem_append_left _ (List.mem_append_left _ hmem)

/-- The contact that has been resolved is linked to the identity, if it was linked before or nothing was hit. -/
theorem Settled.sticky {candidates : List MergeCandidate} (hc : db.channels channel externalID = some c)
    (hhit : ∀ row, db.links c = some row → ∃ x ∈ candidates, x.identityID = row.identityID) (hwhen : db.links c ≠ none ∨ candidates = [])
    (h : Settled db tenantID channel externalID candidates (identity, none) S) : Linked db tenantID S c identity := by
  cases hrow : db.links c with
  | none =>
    -- the contact has been linked by this call
    obtain rfl := hwhen.resolve_left (absurd hrow)
    cases h with
    | new _ linked loads =>
      obtain ⟨row, hlink, rfl⟩ := linked c hc
      exact ⟨row, hlink, loads⟩
    | link action => cases action
    | merge action => cases action
  | some row =>
  obtain ⟨x, hmem, hx⟩ := hhit row hrow
  cases h with
  | new hits =>
    rw [hits] at hmem
    cases hmem
  | link action loads =>
    refine ⟨row, hrow, ?_⟩
    rw [← hx, decideMerge_link action x hmem]
    exact loads
  | merge action repoints loads =>
  obtain ⟨row', hrow', hid⟩ := repoints c row hrow
  refine ⟨row', hrow', ?_⟩
  rw [hid]
  split_ifs with hsource
  · exact loads
  · rw [← hx] at hsource ⊢
    rw [((decideMerge_merge action).1 x hmem).resolve_right hsource]
    exact loads

theorem returns_resolve_linked (s : IdentityStore) (hq : Quiet db) (htenant : tenantID ≠ UUID.Nil) (channel externalID : String)
    (hc : db.channels channel externalID = some c)
    (h : Linked db tenantID .clean c identity) :
    Returns act (resolve s tenantID channel externalID "" "") db (.ok (identity, none)) (committed db .clean) := by
  obtain ⟨row, hrow, hload⟩ := h
  have hrow' : db.links c = some row := hrow
  have hhit : db.hit channel externalID = some (row.identityID, db.assigned c) := by simp [IdentityDB.hit, hc, hrow']
  have hhits : db.hits s.mergeEnabled channel externalID (Text.trimSpace "") (s.tables.lower (Text.trimSpace "")) =
      [⟨row.identityID, .externalID, db.assigned c⟩] := by
    have htrim : Text.trimSpace "" = "" := by decide
    have hlower : s.tables.lower "" = "" := by simp [Text.CaseTables.lower]
    simp [IdentityDB.hits, hhit, htrim, hlower, candidateOf]
  refine returns_resolve s hq htenant channel externalID "" "" ?_
  rw [hhits]
  refine returns_settle_link hq channel externalID ?_ ?_
  · rw [decideMerge_singleton]
  · rw [decideMerge_singleton]
    exact hload

theorem returns_findByContactID (hq : Quiet db) (htenant : tenantID ≠ UUID.Nil) (h : Linked db tenantID .clean c identity) :
    Returns act (findByContactID tenantID c) db (.ok identity) (committed db .clean) := by
  obtain ⟨row, hrow, hload⟩ := h
  unfold findByContactID
  rw [if_neg htenant]
  refine (returns_withTenant htenant hq ?_).bind (.ret _ _)
  simp only [Prog.send_bind, Prog.pure_eq]
  refine returns_stmt hq (fun _ _ => rfl) ?_
  rw [hrow]
  exact returns_loadIdentity hq hload

end

/-- Contact 5 writes from another channel than contact 6, who is linked to identity 1. -/
def sharedPhone : IdentityDB where
  contacts := [5, 6]
  channels := fun channel externalID => if channel = "messenger" ∧ externalID = "ana" then some 5
    else if channel = "whatsapp" ∧ externalID = "+5511" then some 6 else none
  assigned := fun _ => false
  identities := fun id => if id = 1 then some ⟨0, none⟩ else none
  links := fun c => if c = 6 then some ⟨9, 1, .externalID, 0⟩ else none
  next := 0
  sessions := fun _ => none

end Crm.Contacts
