import Mathlib.Data.List.Sort
import Crm.Lib.Interleave
import Crm.Lib.RowLocks
import Crm.Lib.Text
import Crm.Contacts.Merge

/-!
# Crm.Contacts.Store — identities of contacts

`internal/adapter/db/postgres/contacts/identity.go` for one tenant.  A call runs its statements in one transaction (`WithTenant`); the statements of
different calls interleave.  Every statement is one step at read committed: it sees what is committed at that moment under its transaction's own writes,
and waits as long as another transaction holds a row that it locks or writes.

The links are kept by contact, which is unique among them, and the tables of contacts, channels and assignments are only read.
-/

namespace Crm.Contacts

open Interleave RowLocks

structure IdentityLink where
  id : UUID
  identityID : UUID
  contactID : UUID
  reason : LinkReason
  createdAt : Time
  deriving DecidableEq, Repr

structure Identity where
  id : UUID
  tenantID : UUID
  createdAt : Time
  mergedIntoID : Option UUID
  links : List IdentityLink
  deriving DecidableEq, Repr

structure MergeProposal where
  id : UUID
  tenantID : UUID
  sourceID : UUID
  targetID : UUID
  reason : String
  createdAt : Time
  deriving DecidableEq, Repr

/-! ## Tables and transactions -/

structure IdentityRow where
  createdAt : Time
  mergedInto : Option UUID
  deriving DecidableEq, Repr

/-- A row of `contact_identity_link`, without its contact. -/
structure LinkRow where
  id : UUID
  identityID : UUID
  reason : LinkReason
  createdAt : Time
  deriving DecidableEq, Repr

structure Session where
  ids : Overlay UUID IdentityRow
  links : Overlay UUID LinkRow

/-- The committed rows and the open transactions; `assigned` says which contacts have a conversation in `assignment_history`. -/
structure IdentityDB where
  contacts : List UUID
  channels : String → String → Option UUID
  assigned : UUID → Bool
  identities : UUID → Option IdentityRow
  links : UUID → Option LinkRow
  next : ℕ
  sessions : ℕ → Option Session

namespace IdentityDB

variable (db : IdentityDB) (S : Session)

def identity : UUID → Option IdentityRow := S.ids.view db.identities

def link : UUID → Option LinkRow := S.links.view db.links

def contactOfLink (linkID : UUID) : Option UUID := db.contacts.find? fun c => ((db.link S c).map LinkRow.id) = some linkID

def linksOf (identityID : UUID) : List IdentityLink :=
  (db.contacts.filterMap fun c => (db.link S c).bind fun row =>
    if row.identityID = identityID then some ⟨row.id, identityID, c, row.reason, row.createdAt⟩ else none).insertionSort
      fun a b => a.createdAt ≤ b.createdAt

def setSession (tx : ℕ) (x : Option Session) : IdentityDB := { db with sessions := Function.update db.sessions tx x }

def commit (tx : ℕ) : IdentityDB := { db.setSession tx none with identities := db.identity S, links := db.link S }

end IdentityDB

/-! ## Statements -/

inductive Stmt : Type
  | lookup (channel externalID : String)
  | insertIdentity (id : UUID) (createdAt : Option Time)
  | contactOf (channel externalID : String)
  | upsertLink (identityID contactID : UUID) (reason : LinkReason)
  | selectIdentity (id : UUID)
  | selectLinks (identityID : UUID)
  | lockIdentities (sourceID targetID : UUID)
  | repointLinks (targetID sourceID : UUID)
  | setMergedInto (targetID sourceID : UUID)
  | lockLink (linkID : UUID)
  | deleteLink (linkID : UUID)
  | insertLink (identityID contactID : UUID)
  | identityOf (contactID : UUID)

abbrev Stmt.Result : Stmt → Type
  | .lookup _ _ => Option (UUID × Bool)
  | .insertIdentity _ _ => Unit
  | .contactOf _ _ => Option UUID
  | .upsertLink _ _ _ => Unit
  | .selectIdentity _ => Option IdentityRow
  | .selectLinks _ => List IdentityLink
  | .lockIdentities _ _ => Unit
  | .repointLinks _ _ => Unit
  | .setMergedInto _ _ => Unit
  | .lockLink _ => Option UUID
  | .deleteLink _ => Unit
  | .insertLink _ _ => Unit
  | .identityOf _ => Option UUID

namespace Stmt

variable (db : IdentityDB) (S : Session)

def pointsTo (identityID contactID : UUID) : Bool := (db.link S contactID).any fun row => row.identityID = identityID

def needsIdentity : Stmt → UUID → Bool
  | .insertIdentity id _, k => k = id
  | .lockIdentities sourceID targetID, k => (k = sourceID || k = targetID) && (db.identity S k).isSome
  | .setMergedInto _ sourceID, k => k = sourceID && (db.identity S k).isSome
  | _, _ => false

/-- The links, by contact, that the statement locks or writes. -/
def needsLink : Stmt → UUID → Bool
  | .upsertLink _ contactID _, c => c = contactID
  | .repointLinks _ sourceID, c => pointsTo db S sourceID c
  | .lockLink linkID, c => db.contactOfLink S linkID = some c
  | .deleteLink linkID, c => db.contactOfLink S linkID = some c
  | .insertLink _ contactID, c => c = contactID
  | _, _ => false

/-- The link of a contact after `ON CONFLICT (contact_id) DO UPDATE`. -/
def upserted (now : Time) (fresh identityID : UUID) (reason : LinkReason) : Option LinkRow → LinkRow
  | some row => { row with identityID := identityID, reason := reason }
  | none => ⟨fresh, identityID, reason, now⟩

/-- The links that point to the source are pointed to the target. -/
def repointed (targetID sourceID : UUID) (c : UUID) : Option (Option LinkRow) :=
  (db.link S c).bind fun row => if row.identityID = sourceID then some (some { row with identityID := targetID }) else none

def pgError (code : String) : Err := .other ("ERROR: SQLSTATE " ++ code)

/-- One statement, with the database's `now()` and the identifier it makes up for a new link.  A reference to a row that is not there and a key that
is there already are refused. -/
def run (now : Time) (fresh : UUID) : (s : Stmt) → Except Err (s.Result × Session)
  | .lookup channel externalID => .ok (do
      let c ← db.channels channel externalID
      let row ← db.link S c
      some (row.identityID, db.assigned c), S)
  | .insertIdentity id createdAt =>
    if (db.identity S id).isSome then .error (pgError "23505")
    else .ok ((), { S with ids := S.ids.put id (some ⟨timestamptz (createdAt.getD now), none⟩) })
  | .contactOf channel externalID => .ok (db.channels channel externalID, S)
  | .upsertLink identityID contactID reason =>
    if db.identity S identityID = none ∨ contactID ∉ db.contacts then .error (pgError "23503")
    else .ok ((), { S with links := S.links.put contactID (some (upserted now fresh identityID reason (db.link S contactID))) })
  | .selectIdentity id => .ok (db.identity S id, S)
  | .selectLinks identityID => .ok (db.linksOf S identityID, S)
  | .lockIdentities sourceID targetID => .ok ((), { S with ids := S.ids.lock (needsIdentity db S (.lockIdentities sourceID targetID)) })
  | .repointLinks targetID sourceID =>
    if db.identity S targetID = none ∧ db.contacts.any (pointsTo db S sourceID) then .error (pgError "23503")
    else .ok ((), { S with links := S.links.write (repointed db S targetID sourceID) })
  | .setMergedInto targetID sourceID =>
    match db.identity S sourceID with
    | none => .ok ((), S)
    | some row =>
      if db.identity S targetID = none then .error (pgError "23503")
      else .ok ((), { S with ids := S.ids.put sourceID (some { row with mergedInto := some targetID }) })
  | .lockLink linkID => .ok (db.contactOfLink S linkID, { S with links := S.links.lock (needsLink db S (.lockLink linkID)) })
  | .deleteLink linkID =>
    match db.contactOfLink S linkID with
    | none => .ok ((), S)
    | some c => .ok ((), { S with links := S.links.put c none })
  | .insertLink identityID contactID =>
    if db.identity S identityID = none ∨ contactID ∉ db.contacts then .error (pgError "23503")
    else if (db.link S contactID).isSome then .error (pgError "23505")
    else .ok ((), { S with links := S.links.put contactID (some ⟨fresh, identityID, .manual, now⟩) })
  | .identityOf contactID => .ok ((db.link S contactID).map LinkRow.identityID, S)

end Stmt

/-! ## Requests -/

inductive Req : Type
  | newUUID
  | clock
  | begin
  | setTenant (tx : ℕ) (tenantID : UUID)
  | stmt (tx : ℕ) (s : Stmt)
  | commit (tx : ℕ)
  | rollback (tx : ℕ)

abbrev Resp : Req → Type
  | .newUUID => UUID
  | .clock => Time
  | .begin => Except Err ℕ
  | .setTenant _ _ => Except Err Unit
  | .stmt _ s => Except Err s.Result
  | .commit _ => Except Err Unit
  | .rollback _ => Unit

abbrev Client (α : Type) : Type := Prog Req Resp α

/-- No other transaction holds a row that the statement needs. -/
def IdentityDB.Free (db : IdentityDB) (tx : ℕ) (S : Session) (s : Stmt) : Prop :=
  ∀ u S', u ≠ tx → db.sessions u = some S' →
    (∀ k, s.needsIdentity db S k = true → S'.ids.holds k = false) ∧ ∀ c, s.needsLink db S c = true → S'.links.holds c = false

/-- One request that does not fail.  The random source and the clock answer anything. -/
def act : (q : Req) → IdentityDB → Resp q → IdentityDB → Prop
  | .newUUID, db, _, db' => db' = db
  | .clock, db, _, db' => db' = db
  | .begin, db, r, db' => r = .ok db.next ∧ db' = { db.setSession db.next (some ⟨.empty, .empty⟩) with next := db.next + 1 }
  | .setTenant _ _, db, r, db' => r = .ok () ∧ db' = db
  | .stmt tx s, db, r, db' => ∃ S now fresh, db.sessions tx = some S ∧ db.Free tx S s ∧
      ((∃ a S', s.run db S now fresh = .ok (a, S') ∧ r = .ok a ∧ db' = db.setSession tx (some S')) ∨
        ∃ e, s.run db S now fresh = .error e ∧ r = .error e ∧ db' = db)
  | .commit tx, db, r, db' => ∃ S, db.sessions tx = some S ∧ r = .ok () ∧ db' = db.commit S tx
  | .rollback tx, db, _, db' => db' = db.setSession tx none

/-- The connection fails.  A commit may then have been done, and the transaction may stay open. -/
def Fails : (q : Req) → IdentityDB → Resp q → IdentityDB → Prop
  | .newUUID, _, _, _ => False
  | .clock, _, _, _ => False
  | .begin, db, r, db' => db' = db ∧ ∃ e : Err, e.fault ∧ r = .error e
  | .setTenant _ _, db, r, db' => db' = db ∧ ∃ e : Err, e.fault ∧ r = .error e
  | .stmt _ _, db, r, db' => db' = db ∧ ∃ e : Err, e.fault ∧ r = .error e
  | .commit tx, db, r, db' => (db' = db ∨ db' = db.setSession tx none ∨ ∃ S, db.sessions tx = some S ∧ db' = db.commit S tx) ∧
      ∃ e : Err, e.fault ∧ r = .error e
  | .rollback _, db, _, db' => db' = db

def exec (q : Req) (db : IdentityDB) (r : Resp q) (db' : IdentityDB) : Prop := act q db r db' ∨ Fails q db r db'

/-! ## The calls -/

/-- `postgres.WithTenant`: a transaction around `fn`, committed if it succeeds. -/
def withTenant {α : Type} (tenantID : UUID) (fn : ℕ → Client (Except Err α)) : Client (Except Err α) := do
  if tenantID = UUID.Nil then return .error (.other "postgres: tenantID must not be uuid.Nil")
  match ← .send Req.begin with
  | .error e => return .error (.wrap "postgres: WithTenant begin tx" e)
  | .ok tx =>
    match ← .send (Req.setTenant tx tenantID) with
    | .error e =>
      .send (Req.rollback tx)
      return .error (.wrap "postgres: WithTenant set tenant" e)
    | .ok () =>
      match ← fn tx with
      | .error e =>
        .send (Req.rollback tx)
        return .error e
      | .ok a =>
        match ← .send (Req.commit tx) with
        | .error e =>
          .send (Req.rollback tx)
          return .error (.wrap "postgres: WithTenant commit" e)
        | .ok () => return .ok a

/-- A lookup that finds the identity of a linked contact, and whether the contact has a leader. -/
def lookup (tx : ℕ) (channel externalID : String) : Client (Except Err (UUID × Bool)) := do
  match ← .send (Req.stmt tx (.lookup channel externalID)) with
  | .error e => return .error e
  | .ok none => return .error .contactsNotFound
  | .ok (some x) => return .ok x

def lookupByChannelExternal (tx : ℕ) (channel externalID : String) : Client (Except Err (UUID × Bool)) := lookup tx channel externalID

def lookupByPhone (tx : ℕ) (phone : String) : Client (Except Err (UUID × Bool)) := lookup tx "whatsapp" phone

def lookupByEmail (tx : ℕ) (email : String) : Client (Except Err (UUID × Bool)) := lookup tx "email" email

def addHit (reason : LinkReason) (candidates : List MergeCandidate) (p : Client (Except Err (UUID × Bool))) :
    Client (Except Err (List MergeCandidate)) := do
  match ← p with
  | .ok x => return .ok (candidates ++ [⟨x.1, reason, x.2⟩])
  | .error e =>
    if e.is .contactsNotFound then return .ok candidates
    return .error e

def lookupCandidates (mergeEnabled : Bool) (tx : ℕ) (channel externalID phone email : String) : Client (Except Err (List MergeCandidate)) := do
  match ← addHit .externalID [] (lookupByChannelExternal tx channel externalID) with
  | .error e => return .error e
  | .ok direct =>
    if mergeEnabled = false then return .ok direct
    match ← (if phone ≠ "" then addHit .phone direct (lookupByPhone tx phone) else return .ok direct) with
    | .error e => return .error e
    | .ok candidates => if email ≠ "" then addHit .email candidates (lookupByEmail tx email) else return .ok candidates

def createIdentity (tx : ℕ) : Client (Except Err UUID) := do
  let id ← .send Req.newUUID
  let now ← .send Req.clock
  match ← .send (Req.stmt tx (.insertIdentity id (some now))) with
  | .error e => return .error e
  | .ok () => return .ok id

def linkContact (tx : ℕ) (identityID : UUID) (contactID channel : String) (reason : LinkReason) : Client (Except Err Unit) := do
  match ← .send (Req.stmt tx (.contactOf channel contactID)) with
  | .error e => return .error e
  | .ok none => return .ok ()
  | .ok (some c) => .send (Req.stmt tx (.upsertLink identityID c reason))

def loadIdentity (tenantID : UUID) (tx : ℕ) (identityID : UUID) : Client (Except Err Identity) := do
  match ← .send (Req.stmt tx (.selectIdentity identityID)) with
  | .error e => return .error e
  | .ok none => return .error .contactsNotFound
  | .ok (some row) =>
    match ← .send (Req.stmt tx (.selectLinks identityID)) with
    | .error e => return .error e
    | .ok links => return .ok ⟨identityID, tenantID, row.createdAt, row.mergedInto, links⟩

def mergeInTx (tx : ℕ) (sourceID targetID : UUID) : Client (Except Err Unit) := do
  match ← .send (Req.stmt tx (.lockIdentities sourceID targetID)) with
  | .error e => return .error e
  | .ok () =>
    match ← .send (Req.stmt tx (.repointLinks targetID sourceID)) with
    | .error e => return .error e
    | .ok () => .send (Req.stmt tx (.setMergedInto targetID sourceID))

def mergeAll (tx : ℕ) (targetID : UUID) : List UUID → Client (Except Err Unit)
  | [] => return .ok ()
  | sourceID :: rest => do
    match ← mergeInTx tx sourceID targetID with
    | .error e => return .error e
    | .ok () => mergeAll tx targetID rest

def settle (tenantID : UUID) (tx : ℕ) (channel externalID : String) (candidates : List MergeCandidate) :
    Client (Except Err (Identity × Option MergeProposal)) := do
  let decision := decideMerge candidates
  match decision.action with
  | .new =>
    match ← createIdentity tx with
    | .error e => return .error e
    | .ok id =>
      match ← linkContact tx id externalID channel .externalID with
      | .error e => return .error e
      | .ok () =>
        match ← loadIdentity tenantID tx id with
        | .error e => return .error e
        | .ok identity => return .ok (identity, none)
  | .link =>
    match ← loadIdentity tenantID tx decision.targetID with
    | .error e => return .error e
    | .ok identity => return .ok (identity, none)
  | .merge =>
    match ← mergeAll tx decision.targetID decision.sourceIDs with
    | .error e => return .error e
    | .ok () =>
      match ← loadIdentity tenantID tx decision.targetID with
      | .error e => return .error e
      | .ok identity => return .ok (identity, none)
  | .propose =>
    match candidates with
    | c₀ :: c₁ :: _ =>
      match ← loadIdentity tenantID tx c₀.identityID with
      | .error e => return .error e
      | .ok identity =>
        let id ← .send Req.newUUID
        let now ← .send Req.clock
        return .ok (identity, some ⟨id, tenantID, c₁.identityID, c₀.identityID, "leader conflict during resolve", now⟩)
    | _ => return .error (.other "index out of range")

/-- The feature flag, and the case tables of `strings.ToLower`. -/
structure IdentityStore where
  mergeEnabled : Bool
  tables : Text.CaseTables

def resolve (s : IdentityStore) (tenantID : UUID) (channel externalID phone email : String) :
    Client (Except Err (Identity × Option MergeProposal)) := do
  if tenantID = UUID.Nil then return .error (.other "contacts/identity: Resolve: tenant id is nil")
  let phone := Text.trimSpace phone
  let email := s.tables.lower (Text.trimSpace email)
  let result ← withTenant tenantID fun tx => do
    match ← lookupCandidates s.mergeEnabled tx channel externalID phone email with
    | .error e => return .error e
    | .ok candidates => settle tenantID tx channel externalID candidates
  match result with
  | .error e => return .error (.wrap "contacts/identity: Resolve" e)
  | .ok x => return .ok x

def merge (tenantID sourceID targetID : UUID) : Client (Except Err Unit) := do
  if tenantID = UUID.Nil then return .error (.other "contacts/identity: Merge: tenant id is nil")
  match ← withTenant tenantID fun tx => mergeInTx tx sourceID targetID with
  | .error e => return .error (.wrap "contacts/identity: Merge" e)
  | .ok () => return .ok ()

def findByContactID (tenantID contactID : UUID) : Client (Except Err Identity) := do
  if tenantID = UUID.Nil then return .error (.other "contacts/identity: FindByContactID: tenant id is nil")
  let result ← withTenant tenantID fun tx => do
    match ← .send (Req.stmt tx (.identityOf contactID)) with
    | .error e => return .error e
    | .ok none => return .error .contactsNotFound
    | .ok (some identityID) => loadIdentity tenantID tx identityID
  match result with
  | .error e => return .error (.wrap "contacts/identity: FindByContactID" e)
  | .ok identity => return .ok identity

def split (tenantID linkID : UUID) : Client (Except Err Unit) := do
  if tenantID = UUID.Nil then return .error (.other "contacts/identity: Split: tenant id is nil")
  let result ← withTenant tenantID fun tx => do
    match ← .send (Req.stmt tx (.lockLink linkID)) with
    | .error e => return .error e
    | .ok none => return .error .contactsNotFound
    | .ok (some contactID) =>
      match ← .send (Req.stmt tx (.deleteLink linkID)) with
      | .error e => return .error e
      | .ok () =>
        let newID ← .send Req.newUUID
        match ← .send (Req.stmt tx (.insertIdentity newID none)) with
        | .error e => return .error e
        | .ok () => .send (Req.stmt tx (.insertLink newID contactID))
  match result with
  | .error e => return .error (.wrap "contacts/identity: Split" e)
  | .ok () => return .ok ()

inductive Call : Type
  | resolve (tenantID : UUID) (channel externalID phone email : String)
  | merge (tenantID sourceID targetID : UUID)
  | split (tenantID linkID : UUID)
  | findByContactID (tenantID contactID : UUID)

abbrev Res : Call → Type
  | .resolve _ _ _ _ _ => Except Err (Identity × Option MergeProposal)
  | .merge _ _ _ => Except Err Unit
  | .split _ _ => Except Err Unit
  | .findByContactID _ _ => Except Err Identity

abbrev Ev : Type := Event Req Resp IdentityDB Call Res

abbrev W : Type := World Req Resp IdentityDB Call Res

def body (s : IdentityStore) : (c : Call) → Client (Res c)
  | .resolve tenantID channel externalID phone email => resolve s tenantID channel externalID phone email
  | .merge tenantID sourceID targetID => merge tenantID sourceID targetID
  | .split tenantID linkID => split tenantID linkID
  | .findByContactID tenantID contactID => findByContactID tenantID contactID

def system (s : IdentityStore) (allow : W → Ev → Prop) : System Req Resp IdentityDB Call Res where
  exec := exec
  body := body s
  allow := allow

end Crm.Contacts
