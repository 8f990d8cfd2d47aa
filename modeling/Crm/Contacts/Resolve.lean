import Crm.Contacts.Alone

/-!
# Crm.Contacts.Resolve — what a call of `Resolve` finds and does

For a call that runs alone the three lookups are a function of the committed rows (`IdentityDB.hits`), and so is the identity it loads
(`IdentityDB.loaded`).  `Settled` lists what can become of the hits; every call that returns no error has committed one of its cases (`commits_resolve`).
-/

namespace Crm.Contacts

open Interleave RowLocks Prog List

abbrev Session.clean : Session := ⟨.empty, .empty⟩

/-- The identity that a channel's contact is linked to, and whether the contact has a leader. -/
def IdentityDB.hit (db : IdentityDB) (channel externalID : String) : Option (UUID × Bool) := do
  let c ← db.channels channel externalID
  let row ← db.links c
  some (row.identityID, db.assigned c)

def candidateOf (reason : LinkReason) (x : Option (UUID × Bool)) : List MergeCandidate := x.toList.map fun x => ⟨x.1, reason, x.2⟩

def IdentityDB.hits (db : IdentityDB) (mergeEnabled : Bool) (channel externalID phone email : String) : List MergeCandidate :=
  if mergeEnabled = false then candidateOf .externalID (db.hit channel externalID)
  else candidateOf .externalID (db.hit channel externalID) ++ (if phone ≠ "" then candidateOf .phone (db.hit "whatsapp" phone) else []) ++
    if email ≠ "" then candidateOf .email (db.hit "email" email) else []

/-- The identity with its links, as the transaction sees them. -/
def IdentityDB.loaded (db : IdentityDB) (tenantID : UUID) (S : Session) (id : UUID) : Option Identity :=
  (db.identity S id).map fun row => ⟨id, tenantID, row.createdAt, row.mergedInto, db.linksOf S id⟩

section

variable {db : IdentityDB} {S : Session} {tenantID : UUID}

/-! ## Lookups -/

theorem run_lookup (channel externalID : String) (now : Time) (fresh : UUID) :
    (Stmt.lookup channel externalID).run db .clean now fresh = .ok (db.hit channel externalID, .clean) := rfl

theorem brings_addHit (reason : LinkReason) (candidates : List MergeCandidate) (channel externalID : String) :
    Ensures exec (addHit reason candidates (lookup db.next channel externalID)) (within db .clean)
      (Brings db fun cs S => S = .clean ∧ cs = candidates ++ candidateOf reason (db.hit channel externalID)) := by
  simp only [addHit, lookup, send_bind, pure_eq]
  refine Brings.stmt (fun now fresh a S' hrun => ?_) fun e he => ?_
  · obtain ⟨rfl, rfl⟩ := Prod.mk.inj (Except.ok.inj ((run_lookup channel externalID now fresh).symm.trans hrun))
    cases db.hit channel externalID with
    | none => exact Brings.ret ⟨rfl, (append_nil _).symm⟩
    | some x => exact Brings.ret ⟨rfl, rfl⟩
  have hfault : e.fault := by
    rcases he with he | ⟨now, fresh, hrun⟩
    · exact he
    · cases hrun
  have hother : e.is .contactsNotFound = false := Err.not_is_of_fault hfault (by rintro ⟨_, ⟨⟩⟩)
  change Ensures exec (if e.is .contactsNotFound = true then Prog.ret (Except.ok candidates) else Prog.ret (Except.error e)) _ _
  rw [hother, if_neg Bool.false_ne_true]
  exact .ret .error

theorem returns_addHit (hq : Quiet db) (reason : LinkReason) (candidates : List MergeCandidate) (channel externalID : String) :
    Returns act (addHit reason candidates (lookup db.next channel externalID)) (within db .clean)
      (.ok (candidates ++ candidateOf reason (db.hit channel externalID))) (within db .clean) := by
  simp only [addHit, lookup, send_bind, pure_eq]
  refine returns_stmt hq (run_lookup channel externalID) ?_
  cases db.hit channel externalID with
  | none =>
    rw [candidateOf, Option.toList_none, map_nil, append_nil]
    exact .ret _ _
  | some x => exact .ret _ _

theorem brings_addHit_given (reason : LinkReason) (candidates : List MergeCandidate) (channel value : String) :
    Ensures exec (if value ≠ "" then addHit reason candidates (lookup db.next channel value) else return .ok candidates) (within db .clean)
      (Brings db fun cs S => S = .clean ∧ cs = candidates ++ if value ≠ "" then candidateOf reason (db.hit channel value) else []) := by
  by_cases hvalue : value ≠ ""
  · rw [if_pos hvalue, if_pos hvalue]
    exact brings_addHit reason candidates channel value
  · rw [if_neg hvalue, if_neg hvalue]
    exact Brings.ret ⟨rfl, (append_nil _).symm⟩

theorem returns_addHit_given (hq : Quiet db) (reason : LinkReason) (candidates : List MergeCandidate) (channel value : String) :
    Returns act (if value ≠ "" then addHit reason candidates (lookup db.next channel value) else return .ok candidates) (within db .clean)
      (.ok (candidates ++ if value ≠ "" then candidateOf reason (db.hit channel value) else [])) (within db .clean) := by
  by_cases hvalue : value ≠ ""
  · rw [if_pos hvalue, if_pos hvalue]
    exact returns_addHit hq reason candidates channel value
  · rw [if_neg hvalue, if_neg hvalue, append_nil]
    exact .ret _ _

theorem brings_lookupCandidates (mergeEnabled : Bool) (channel externalID phone email : String) :
    Ensures exec (lookupCandidates mergeEnabled db.next channel externalID phone email) (within db .clean)
      (Brings db fun cs S => S = .clean ∧ cs = db.hits mergeEnabled channel externalID phone email) := by
  refine Brings.bind (brings_addHit .externalID [] channel externalID) ?_ fun _ _ => .ret .error
  rintro direct S ⟨rfl, rfl⟩
  dsimp only
  rw [IdentityDB.hits]
  by_cases hmerge : mergeEnabled = false
  · rw [if_pos hmerge, if_pos hmerge]
    exact Brings.ret ⟨rfl, rfl⟩
  rw [if_neg hmerge, if_neg hmerge]
  refine Brings.bind (brings_addHit_given .phone _ "whatsapp" phone) ?_ fun _ _ => .ret .error
  rintro candidates S ⟨rfl, rfl⟩
  exact brings_addHit_given .email _ "email" email

theorem returns_lookupCandidates (hq : Quiet db) (mergeEnabled : Bool) (channel externalID phone email : String) :
    Returns act (lookupCandidates mergeEnabled db.next channel externalID phone email) (within db .clean)
      (.ok (db.hits mergeEnabled channel externalID phone email)) (within db .clean) := by
  refine (returns_addHit hq .externalID [] channel externalID).bind ?_
  dsimp only
  rw [IdentityDB.hits]
  by_cases hmerge : mergeEnabled = false
  · rw [if_pos hmerge, if_pos hmerge]
    exact .ret _ _
  · rw [if_neg hmerge, if_neg hmerge]
    exact (returns_addHit_given hq .phone _ "whatsapp" phone).bind (returns_addHit_given hq .email _ "email" email)

/-! ## Loading -/

theorem brings_loadIdentity (id : UUID) :
    Ensures exec (loadIdentity tenantID db.next id) (within db S) (Brings db fun identity S' => S' = S ∧ db.loaded tenantID S id = some identity) := by
  simp only [loadIdentity, send_bind, pure_eq]
  refine Brings.stmt (fun now fresh a S' hrun => ?_) fun _ _ => .ret .error
  obtain ⟨rfl, rfl⟩ := Prod.mk.inj (Except.ok.inj hrun)
  cases hrow : db.identity S id with
  | none => exact .ret .error
  | some row =>
  refine Brings.stmt (fun now fresh a S' hrun => ?_) fun _ _ => .ret .error
  obtain ⟨rfl, rfl⟩ := Prod.mk.inj (Except.ok.inj hrun)
  refine Brings.ret ⟨rfl, ?_⟩
  rw [IdentityDB.loaded, hrow]
  rfl

variable {identity : Identity}

theorem returns_loadIdentity (hq : Quiet db) {id : UUID} (h : db.loaded tenantID S id = some identity) :
    Returns act (loadIdentity tenantID db.next id) (within db S) (.ok identity) (within db S) := by
  obtain ⟨row, hrow, rfl⟩ := Option.map_eq_some_iff.mp h
  simp only [loadIdentity, send_bind, pure_eq]
  refine returns_stmt hq (fun _ _ => rfl) ?_
  rw [hrow]
  exact returns_stmt hq (fun _ _ => rfl) (.ret _ _)

/-! ## What becomes of the hits -/

/-- What `Resolve` returns, and the transaction that it commits. -/
inductive Settled (db : IdentityDB) (tenantID : UUID) (channel externalID : String) (candidates : List MergeCandidate) :
    Identity × Option MergeProposal → Session → Prop
  | new {id : UUID} {identity : Identity} {S : Session} (hits : candidates = [])
      (linked : ∀ c, db.channels channel externalID = some c → ∃ row, db.link S c = some row ∧ row.identityID = id)
      (loads : db.loaded tenantID S id = some identity) : Settled db tenantID channel externalID candidates (identity, none) S
  | link {identity : Identity} (action : (decideMerge candidates).action = .link)
      (loads : db.loaded tenantID .clean (decideMerge candidates).targetID = some identity) : Settled db tenantID channel externalID candidates (identity, none) .clean
  | merge {identity : Identity} {S : Session} (action : (decideMerge candidates).action = .merge)
      (repoints : Repoints db (decideMerge candidates).sourceIDs (decideMerge candidates).targetID .clean S)
      (loads : db.loaded tenantID S (decideMerge candidates).targetID = some identity) : Settled db tenantID channel externalID candidates (identity, none) S
  | propose {identity : Identity} {proposal : MergeProposal} {c₀ c₁ : MergeCandidate} {rest : List MergeCandidate}
      (action : (decideMerge candidates).action = .propose) (hits : candidates = c₀ :: c₁ :: rest)
      (loads : db.loaded tenantID .clean c₀.identityID = some identity) (source : proposal.sourceID = c₁.identityID)
      (target : proposal.targetID = c₀.identityID) : Settled db tenantID channel externalID candidates (identity, some proposal) .clean

theorem brings_linkContact (id : UUID) (externalID channel : String) (reason : LinkReason) :
    Ensures exec (linkContact db.next id externalID channel reason) (within db S)
      (Brings db fun _ S' => ∀ c, db.channels channel externalID = some c → ∃ row, db.link S' c = some row ∧ row.identityID = id) := by
  simp only [linkContact, send_bind, pure_eq]
  refine Brings.stmt (fun now fresh a S' hrun => ?_) fun _ _ => .ret .error
  obtain ⟨rfl, rfl⟩ := Prod.mk.inj (Except.ok.inj hrun)
  cases hc : db.channels channel externalID with
  | none => exact Brings.ret (by rintro _ ⟨⟩)
  | some c =>
  refine Brings.stmt (fun now fresh a S' hrun => ?_) fun _ _ => .ret .error
  refine Brings.ret ?_
  rintro _ ⟨⟩
  simp only [Stmt.run] at hrun
  split_ifs at hrun
  cases hrun
  refine ⟨Stmt.upserted now fresh id reason (db.link S c), ?_, ?_⟩
  · rw [IdentityDB.link, Overlay.view_put, if_pos rfl]
  · cases db.link S c <;> rfl

theorem brings_settle (channel externalID : String) (candidates : List MergeCandidate) :
    Ensures exec (settle tenantID db.next channel externalID candidates) (within db .clean) (Brings db (Settled db tenantID channel externalID candidates)) := by
  unfold settle
  dsimp only
  cases haction : (decideMerge candidates).action with
  | new =>
    have hcreate : Ensures exec (createIdentity db.next) (within db .clean) (Brings db fun _ _ => True) := by
      refine Brings.newUUID fun id => Brings.clock fun now => Brings.stmt (fun _ _ _ _ _ => ?_) fun _ _ => .ret .error
      exact Brings.ret trivial
    refine Brings.bind hcreate (fun id S _ => ?_) fun _ _ => .ret .error
    refine Brings.bind (brings_linkContact id externalID channel .externalID) (fun _ S hlinked => ?_) fun _ _ => .ret .error
    refine Brings.bind (brings_loadIdentity id) ?_ fun _ _ => .ret .error
    rintro identity S ⟨rfl, hload⟩
    exact Brings.ret (.new (decideMerge_new haction) hlinked hload)
  | link =>
    refine Brings.bind (brings_loadIdentity _) ?_ fun _ _ => .ret .error
    rintro identity S ⟨rfl, hload⟩
    exact Brings.ret (.link haction hload)
  | merge =>
    refine Brings.bind (brings_mergeAll _) (fun _ S hrepoints => ?_) fun _ _ => .ret .error
    refine Brings.bind (brings_loadIdentity _) ?_ fun _ _ => .ret .error
    rintro identity S ⟨rfl, hload⟩
    exact Brings.ret (.merge haction hrepoints hload)
  | propose =>
  rcases candidates with _ | ⟨c₀, _ | ⟨c₁, rest⟩⟩
  · exact .ret .error
  · exact .ret .error
  · refine Brings.bind (brings_loadIdentity _) ?_ fun _ _ => .ret .error
    rintro identity S ⟨rfl, hload⟩
    exact Brings.newUUID fun id => Brings.clock fun now => Brings.ret (.propose haction rfl hload rfl rfl)

theorem returns_settle_link (hq : Quiet db) (channel externalID : String) {candidates : List MergeCandidate}
    (haction : (decideMerge candidates).action = .link) (hload : db.loaded tenantID S (decideMerge candidates).targetID = some identity) :
    Returns act (settle tenantID db.next channel externalID candidates) (within db S) (.ok (identity, none)) (within db S) := by
  unfold settle
  simp only [haction]
  exact (returns_loadIdentity hq hload).bind (.ret _ _)

theorem returns_resolve (s : IdentityStore) (hq : Quiet db) (htenant : tenantID ≠ UUID.Nil) (channel externalID phone email : String)
    {x : Identity × Option MergeProposal} (hsettle : Returns act (settle tenantID db.next channel externalID
      (db.hits s.mergeEnabled channel externalID (Text.trimSpace phone) (s.tables.lower (Text.trimSpace email)))) (within db .clean) (.ok x) (within db S)) :
    Returns act (resolve s tenantID channel externalID phone email) db (.ok x) (committed db S) := by
  unfold resolve
  rw [if_neg htenant]
  refine (returns_withTenant htenant hq ?_).bind (.ret _ _)
  exact (returns_lookupCandidates hq s.mergeEnabled channel externalID _ _).bind hsettle

/-- **Resolve.**  A call that returns no error has committed what became of its hits. -/
theorem commits_resolve (s : IdentityStore) (hq : Quiet db) (channel externalID phone email : String) :
    Ensures exec (resolve s tenantID channel externalID phone email) db (Commits db (Settled db tenantID channel externalID
      (db.hits s.mergeEnabled channel externalID (Text.trimSpace phone) (s.tables.lower (Text.trimSpace email))))) := by
  unfold resolve
  split_ifs
  · exact .ret .error
  dsimp only
  refine Ensures.bind (R := Commits db (Settled db tenantID channel externalID
    (db.hits s.mergeEnabled channel externalID (Text.trimSpace phone) (s.tables.lower (Text.trimSpace email))))) (ensures_withTenant tenantID hq ?_) ?_
  · refine Brings.bind (brings_lookupCandidates s.mergeEnabled channel externalID _ _) ?_ fun _ _ => .ret .error
    rintro candidates S ⟨rfl, rfl⟩
    exact brings_settle channel externalID _
  intro l a t ht
  cases a with
  | error e => exact .ret .error
  | ok x => exact .ret ht

end

end Crm.Contacts
