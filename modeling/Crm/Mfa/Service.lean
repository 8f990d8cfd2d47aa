import Mathlib.Data.List.Sort
import Crm.Lib.Interleave
import Crm.Mfa.Totp

/-!
# Crm.Mfa.Service — the second factor

`internal/iam/mfa/service.go` over the two adapters of its stores.  Every store method is one transaction; the calls are sequences of them, with the
random source, the cipher, the hasher, the audit log and the alerter in between.

`codes_cases` says what a request can do to the recovery codes.  A row is never removed and never made active again (`Spent.kept`).
-/

namespace Crm.Mfa

open Interleave List

structure RecoveryCodeRecord where
  id : UUID
  hash : String
  deriving DecidableEq, Repr

structure RequestContext where
  ip : String
  userAgent : String
  route : String
  deriving DecidableEq, Repr

structure EnrollResult where
  otpAuthURI : String
  secretEncoded : String
  recoveryCodes : List String
  deriving DecidableEq, Repr

/-- The methods of the audit log that take the user alone. -/
inductive AuditEvent : Type
  | enrolled
  | verified
  | recoveryUsed
  | recoveryRegenerated
  deriving DecidableEq, Repr

/-- The alerts; only that of a used code has the index of the code. -/
structure Alert where
  userID : UUID
  codeIndex : Option ℕ
  ip : String
  userAgent : String
  route : String
  deriving DecidableEq, Repr

/-! ## Requests -/

inductive Req : Type
  | readRandom (n : ℕ)
  | encrypt (seed : Bytes)
  | decrypt (ciphertext : Bytes)
  | hash (plain : String)
  | verifyHash (stored plain : String)
  | clock
  | storeSeed (userID : UUID) (ciphertext : Bytes)
  | loadSeed (userID : UUID)
  | markVerified (userID : UUID)
  | markReenrollRequired (userID : UUID)
  | insertHashes (userID : UUID) (hashes : List String)
  | listActive (userID : UUID)
  | markConsumed (codeID : UUID)
  | invalidateAll (userID : UUID)
  | log (event : AuditEvent) (userID : UUID)
  | logMFARequired (userID : UUID) (route : String) (cause : Err)
  | alert (details : Alert)

abbrev Resp : Req → Type
  | .readRandom _ => Except Err Bytes
  | .encrypt _ => Except Err Bytes
  | .decrypt _ => Except Err Bytes
  | .hash _ => Except Err String
  | .verifyHash _ _ => Except Err Bool
  | .clock => Time
  | .storeSeed _ _ => Except Err Unit
  | .loadSeed _ => Except Err Bytes
  | .markVerified _ => Except Err Unit
  | .markReenrollRequired _ => Except Err Unit
  | .insertHashes _ _ => Except Err Unit
  | .listActive _ => Except Err (List RecoveryCodeRecord)
  | .markConsumed _ => Except Err Unit
  | .invalidateAll _ => Except Err ℕ
  | .log _ _ => Except Err Unit
  | .logMFARequired _ _ _ => Except Err Unit
  | .alert _ => Except Err Unit

abbrev Client (α : Type) : Type := Prog Req Resp α

/-! ## The calls -/

/-- `GenerateRecoveryCodes`: one read of the random source for each code. -/
def generateRecoveryCodes : ℕ → Client (Except Err (List String))
  | 0 => return .ok []
  | n + 1 => do
    match ← .send (Req.readRandom recoveryCodeRawBytes) with
    | .error e => return .error e
    | .ok raw =>
      match ← generateRecoveryCodes n with
      | .error e => return .error e
      | .ok codes => return .ok (recoveryCode raw :: codes)

def hashCodes (call : String) : ℕ → List String → Client (Except Err (List String))
  | _, [] => return .ok []
  | i, code :: codes => do
    match ← .send (Req.hash code) with
    | .error e => return .error (.wrap (call ++ ": hash code " ++ toString i) e)
    | .ok h =>
      match ← hashCodes call (i + 1) codes with
      | .error e => return .error e
      | .ok hs => return .ok (h :: hs)

def storeCodes (call generate : String) (userID : UUID) : Client (Except Err (List String)) := do
  match ← generateRecoveryCodes recoveryCodeCount with
  | .error e => return .error (.wrap (call ++ generate) e)
  | .ok plain =>
    match ← hashCodes call 0 plain with
    | .error e => return .error e
    | .ok hashes =>
      match ← .send (Req.insertHashes userID hashes) with
      | .error e => return .error (.wrap (call ++ ": insert hashes") e)
      | .ok () => return .ok plain

def enroll (issuer : String) (userID : UUID) (label : String) : Client (Except Err EnrollResult) := do
  if userID = UUID.Nil then return .error (.other "mfa: Enroll: userID is nil")
  if label = "" then return .error (.other "mfa: Enroll: label is empty")
  match ← .send (Req.readRandom totpSeedSize) with
  | .error e => return .error (.wrap "mfa: Enroll: new secret" (.wrap "mfa: read totp seed" e))
  | .ok seed =>
    match ← .send (Req.encrypt seed) with
    | .error e => return .error (.wrap "mfa: Enroll: encrypt seed" e)
    | .ok ciphertext =>
      match ← .send (Req.storeSeed userID ciphertext) with
      | .error e => return .error (.wrap "mfa: Enroll: store seed" e)
      | .ok () =>
        match ← .send (Req.invalidateAll userID) with
        | .error e => return .error (.wrap "mfa: Enroll: invalidate prior codes" e)
        | .ok _ =>
          match ← storeCodes "mfa: Enroll" ": generate recovery codes" userID with
          | .error e => return .error e
          | .ok plain =>
            match otpAuthURI issuer label seed with
            | .error e => return .error (.wrap "mfa: Enroll: otpauth uri" e)
            | .ok uri =>
              match encodeSecret seed with
              | .error e => return .error (.wrap "mfa: Enroll: encode secret" e)
              | .ok encoded =>
                match ← .send (Req.log .enrolled userID) with
                | .error e => return .error (.wrap "mfa: Enroll: audit" e)
                | .ok () => return .ok ⟨uri, encoded, plain⟩

variable (K : Crypto)

def verify (userID : UUID) (code : String) : Client (Except Err Unit) := do
  if userID = UUID.Nil then return .error (.other "mfa: Verify: userID is nil")
  match ← .send (Req.loadSeed userID) with
  | .error e =>
    if e.is .mfaNotEnrolled then return .error .mfaInvalidCode
    return .error (.wrap "mfa: Verify: load seed" e)
  | .ok ciphertext =>
    match ← .send (Req.decrypt ciphertext) with
    | .error e => return .error (.wrap "mfa: Verify: decrypt seed" (.detail .mfaSeedCipherDecode e))
    | .ok seed =>
      let now ← .send Req.clock
      match totpVerify K seed code now totpVerifyWindow with
      | .error _ => return .error .mfaInvalidCode
      | .ok () =>
        match ← .send (Req.markVerified userID) with
        | .error e => return .error (.wrap "mfa: Verify: mark verified" e)
        | .ok () =>
          match ← .send (Req.log .verified userID) with
          | .error e => return .error (.wrap "mfa: Verify: audit" e)
          | .ok () => return .ok ()

/-- The exhaustive walk: every row is verified, and the first match is kept with its index. -/
def walk (canonical : String) : ℕ → Option (ℕ × RecoveryCodeRecord) → List RecoveryCodeRecord →
    Client (Except Err (Option (ℕ × RecoveryCodeRecord)))
  | _, matched, [] => return .ok matched
  | i, matched, row :: rows => do
    match ← .send (Req.verifyHash row.hash canonical) with
    | .error e => return .error (.wrap "mfa: ConsumeRecovery: verify row" e)
    | .ok ok => walk canonical (i + 1) (if ok = true ∧ matched = none then some (i, row) else matched) rows

def alertOrRecord (details : Alert) : Client Unit := do
  match ← .send (Req.alert details) with
  | .ok () => return ()
  | .error e =>
    let _ ← .send (Req.logMFARequired details.userID details.route e)
    return ()

def consumeRecovery (userID : UUID) (submitted : String) (reqCtx : RequestContext) : Client (Except Err Unit) := do
  if userID = UUID.Nil then return .error (.other "mfa: ConsumeRecovery: userID is nil")
  match normalizeRecoveryCode submitted with
  | .error _ => return .error .mfaInvalidCode
  | .ok canonical =>
    match ← .send (Req.listActive userID) with
    | .error e => return .error (.wrap "mfa: ConsumeRecovery: list active" e)
    | .ok rows =>
      match ← walk canonical 0 none rows with
      | .error e => return .error e
      | .ok none => return .error .mfaInvalidCode
      | .ok (some (index, row)) =>
        match ← .send (Req.markConsumed row.id) with
        | .error e => return .error (.wrap "mfa: ConsumeRecovery: mark consumed" e)
        | .ok () =>
          match ← .send (Req.markReenrollRequired userID) with
          | .error e => return .error (.wrap "mfa: ConsumeRecovery: mark reenroll" e)
          | .ok () =>
            match ← .send (Req.log .recoveryUsed userID) with
            | .error e => return .error (.wrap "mfa: ConsumeRecovery: audit" e)
            | .ok () =>
              alertOrRecord ⟨userID, some index, reqCtx.ip, reqCtx.userAgent, reqCtx.route⟩
              return .ok ()

def regenerateRecovery (userID : UUID) (reqCtx : RequestContext) : Client (Except Err (List String)) := do
  if userID = UUID.Nil then return .error (.other "mfa: RegenerateRecovery: userID is nil")
  match ← .send (Req.invalidateAll userID) with
  | .error e => return .error (.wrap "mfa: RegenerateRecovery: invalidate prior" e)
  | .ok _ =>
    match ← storeCodes "mfa: RegenerateRecovery" ": generate codes" userID with
    | .error e => return .error e
    | .ok plain =>
      match ← .send (Req.log .recoveryRegenerated userID) with
      | .error e => return .error (.wrap "mfa: RegenerateRecovery: audit" e)
      | .ok () =>
        alertOrRecord ⟨userID, none, reqCtx.ip, reqCtx.userAgent, reqCtx.route⟩
        return .ok plain

/-! ## What the parts of a call send -/

section Sends

variable {P : Req → Prop}

theorem sends_generateRecoveryCodes (h : P (.readRandom recoveryCodeRawBytes)) : ∀ n : ℕ, (generateRecoveryCodes n).Sends P
  | 0 => .ret _
  | n + 1 => by
    refine .ask h fun r => ?_
    cases r with
    | error e => exact .ret _
    | ok raw =>
    refine (sends_generateRecoveryCodes h n).bind fun a => ?_
    cases a <;> exact .ret _

theorem sends_hashCodes (h : ∀ code, P (.hash code)) (call : String) : ∀ (codes : List String) (i : ℕ), (hashCodes call i codes).Sends P
  | [], _ => .ret _
  | code :: codes, i => by
    refine .ask (h code) fun r => ?_
    cases r with
    | error e => exact .ret _
    | ok hash =>
    refine (sends_hashCodes h call codes (i + 1)).bind fun a => ?_
    cases a <;> exact .ret _

theorem sends_alertOrRecord (halert : ∀ details, P (.alert details)) (hlog : ∀ userID route cause, P (.logMFARequired userID route cause))
    (details : Alert) : (alertOrRecord details).Sends P := by
  refine .ask (halert details) fun r => ?_
  cases r with
  | ok => exact .ret ()
  | error e => exact .ask (hlog _ _ e) fun _ => .ret ()

end Sends

/-! ## The tables -/

structure SeedRow where
  ciphertext : Bytes
  reenrollRequired : Bool
  lastVerifiedAt : Option Time
  deriving DecidableEq, Repr

structure CodeRow where
  id : UUID
  userID : UUID
  hash : String
  usedAt : Option Time
  deriving DecidableEq, Repr

/-- The tables of the seeds, by user, and of the recovery codes. -/
structure MfaDB where
  seeds : UUID → Option SeedRow
  codes : List CodeRow

def CodeRow.activeFor (row : CodeRow) (userID : UUID) : Bool := row.userID = userID && row.usedAt.isNone

/-- The code is used now, or was before. -/
def CodeRow.use (row : CodeRow) (now : Time) : CodeRow := { row with usedAt := some (row.usedAt.getD now) }

/-- The tables of the tenants' users or of the master operators; the adapters differ in their names. -/
inductive Plane : Type
  | tenant
  | master
  deriving DecidableEq

def Plane.mfa : Plane → String
  | .tenant => "postgres: TenantUserMFA"
  | .master => "postgres: MasterMFA"

def Plane.codes : Plane → String
  | .tenant => "postgres: TenantUserRecoveryCodes"
  | .master => "postgres: MasterRecoveryCodes"

namespace MfaDB

variable (P : Plane) (db : MfaDB)

def storeSeed (userID : UUID) (ciphertext : Bytes) : Except Err (Unit × MfaDB) :=
  if userID = UUID.Nil then .error (.other (P.mfa ++ ".StoreSeed: userID is nil"))
  else if ciphertext = [] then .error (.other (P.mfa ++ ".StoreSeed: empty ciphertext"))
  else .ok ((), { db with seeds := Function.update db.seeds userID (some ⟨ciphertext, false, none⟩) })

def loadSeed (userID : UUID) : Except Err Bytes :=
  match db.seeds userID with
  | none => .error .mfaNotEnrolled
  | some row => .ok row.ciphertext

def updateSeed (userID : UUID) (f : SeedRow → SeedRow) : Except Err (Unit × MfaDB) :=
  .ok ((), { db with seeds := Function.update db.seeds userID ((db.seeds userID).map f) })

/-- The rows get fresh identifiers; one that is taken violates the primary key. -/
def insertHashes (ids : List UUID) (userID : UUID) (hashes : List String) : Except Err (Unit × MfaDB) :=
  if userID = UUID.Nil then .error (.other (P.codes ++ ".InsertHashes: userID is nil"))
  else if hashes = [] then .error (.other (P.codes ++ ".InsertHashes: empty hashes slice"))
  else if ¬ ids.Nodup ∨ (∃ row ∈ db.codes, row.id ∈ ids) then .error (.other (P.codes ++ ".InsertHashes exec: 23505"))
  else .ok ((), { db with codes := db.codes ++ (ids.zip hashes).map fun x => ⟨x.1, userID, x.2, none⟩ })

def active (userID : UUID) : List CodeRow := db.codes.filter fun row => row.activeFor userID

def listActive (userID : UUID) : List RecoveryCodeRecord :=
  ((db.active userID).insertionSort fun a b => a.id ≤ b.id).map fun row => ⟨row.id, row.hash⟩

def markConsumed (now : Time) (codeID : UUID) : Except Err (Unit × MfaDB) :=
  if codeID = UUID.Nil then .error (.other (P.codes ++ ".MarkConsumed: codeID is nil"))
  else .ok ((), { db with codes := db.codes.map fun row => if row.id = codeID then row.use now else row })

def invalidateAll (now : Time) (userID : UUID) : Except Err (ℕ × MfaDB) :=
  if userID = UUID.Nil then .error (.other (P.codes ++ ".InvalidateAll: userID is nil"))
  else .ok ((db.active userID).length, { db with codes := db.codes.map fun row => if row.activeFor userID then row.use now else row })

end MfaDB

/-- One request.  The connection to the database can fail before or after a commit; the audit log, the alerter, the random source and the making of
ciphertexts and hashes answer anything. -/
def exec (P : Plane) : (q : Req) → MfaDB → Resp q → MfaDB → Prop
  | .readRandom n, db, r, db' => db' = db ∧ ∀ bytes, r = .ok bytes → bytes.length = n
  | .encrypt _, db, _, db' => db' = db
  | .decrypt ciphertext, db, r, db' => db' = db ∧ r = K.decrypt ciphertext
  | .hash _, db, _, db' => db' = db
  | .verifyHash stored plain, db, r, db' => db' = db ∧ r = K.verify stored plain
  | .clock, db, _, db' => db' = db
  | .storeSeed userID ciphertext, db, r, db' => Tx Err.fault db (db.storeSeed P userID ciphertext) r db'
  | .loadSeed userID, db, r, db' => Read Err.fault db (db.loadSeed userID) r db'
  | .markVerified userID, db, r, db' => ∃ now, Tx Err.fault db (db.updateSeed userID fun row => { row with lastVerifiedAt := some now }) r db'
  | .markReenrollRequired userID, db, r, db' => Tx Err.fault db (db.updateSeed userID fun row => { row with reenrollRequired := true }) r db'
  | .insertHashes userID hashes, db, r, db' => ∃ ids : List UUID, ids.length = hashes.length ∧ Tx Err.fault db (db.insertHashes P ids userID hashes) r db'
  | .listActive userID, db, r, db' => Read Err.fault db (.ok (db.listActive userID)) r db'
  | .markConsumed codeID, db, r, db' => ∃ now, Tx Err.fault db (db.markConsumed P now codeID) r db'
  | .invalidateAll userID, db, r, db' => ∃ now, Tx Err.fault db (db.invalidateAll P now userID) r db'
  | .log _ _, db, _, db' => db' = db
  | .logMFARequired _ _ _, db, _, db' => db' = db
  | .alert _, db, _, db' => db' = db

section Exec

variable {K} {P : Plane} {db db' : MfaDB} {q : Req} {r : Resp q}

/-- What a request can do to the recovery codes: nothing, use some of them, or add a batch of new ones. -/
theorem codes_cases (h : exec K P q db r db') : db'.codes = db.codes ∨
    (∃ (p : CodeRow → Bool) (now : Time), db'.codes = db.codes.map fun row => if p row = true then row.use now else row) ∨
    ∃ (ids : List UUID) (userID : UUID) (hashes : List String), q = .insertHashes userID hashes ∧ ids.length = hashes.length ∧ (∀ id ∈ ids, id ∉ db.codes.map CodeRow.id) ∧
      db'.codes = db.codes ++ (ids.zip hashes).map fun x => ⟨x.1, userID, x.2, none⟩ := by
  cases q with
  | insertHashes userID hashes =>
    obtain ⟨ids, hlen, htx⟩ := h
    rcases htx.store_cases with rfl | ⟨a, hput⟩
    · exact .inl rfl
    unfold MfaDB.insertHashes at hput
    split_ifs at hput with _ _ htaken
    cases hput
    refine .inr (.inr ⟨ids, userID, hashes, rfl, hlen, fun id hid hmem => ?_, rfl⟩)
    obtain ⟨row, hrow, rfl⟩ := mem_map.mp hmem
    exact htaken (.inr ⟨row, hrow, hid⟩)
  | markConsumed codeID =>
    obtain ⟨now, htx⟩ := h
    rcases htx.store_cases with rfl | ⟨a, hput⟩
    · exact .inl rfl
    unfold MfaDB.markConsumed at hput
    split_ifs at hput
    cases hput
    exact .inr (.inl ⟨fun row => row.id = codeID, now, by simp⟩)
  | invalidateAll userID =>
    obtain ⟨now, htx⟩ := h
    rcases htx.store_cases with rfl | ⟨a, hput⟩
    · exact .inl rfl
    unfold MfaDB.invalidateAll at hput
    split_ifs at hput
    cases hput
    exact .inr (.inl ⟨fun row => row.activeFor userID, now, rfl⟩)
  | storeSeed userID ciphertext =>
    rcases Tx.store_cases h with rfl | ⟨a, hput⟩
    · exact .inl rfl
    unfold MfaDB.storeSeed at hput
    split_ifs at hput
    cases hput
    exact .inl rfl
  | markVerified userID =>
    obtain ⟨now, htx⟩ := h
    rcases htx.store_cases with rfl | ⟨a, hput⟩
    · exact .inl rfl
    · cases hput
      exact .inl rfl
  | markReenrollRequired userID =>
    rcases Tx.store_cases h with rfl | ⟨a, hput⟩
    · exact .inl rfl
    · cases hput
      exact .inl rfl
  | readRandom n => exact .inl (congrArg MfaDB.codes h.1)
  | decrypt ciphertext => exact .inl (congrArg MfaDB.codes h.1)
  | verifyHash stored plain => exact .inl (congrArg MfaDB.codes h.1)
  | loadSeed userID => exact .inl (congrArg MfaDB.codes h.1)
  | listActive userID => exact .inl (congrArg MfaDB.codes h.1)
  | encrypt _ => exact .inl (congrArg MfaDB.codes h)
  | hash _ => exact .inl (congrArg MfaDB.codes h)
  | clock => exact .inl (congrArg MfaDB.codes h)
  | log _ _ => exact .inl (congrArg MfaDB.codes h)
  | logMFARequired _ _ _ => exact .inl (congrArg MfaDB.codes h)
  | alert _ => exact .inl (congrArg MfaDB.codes h)

@[simp] theorem CodeRow.use_id (row : CodeRow) (now : Time) : (row.use now).id = row.id := rfl

@[simp] theorem CodeRow.use_activeFor (row : CodeRow) (now : Time) (userID : UUID) : (row.use now).activeFor userID = false := by
  simp [CodeRow.use, CodeRow.activeFor]

theorem ids_kept (h : exec K P q db r db') {id : UUID} (hid : id ∈ db.codes.map CodeRow.id) : id ∈ db'.codes.map CodeRow.id := by
  rcases codes_cases h with heq | ⟨p, now, heq⟩ | ⟨ids, userID, hashes, -, -, -, heq⟩
  · rw [heq]
    exact hid
  · obtain ⟨row, hrow, rfl⟩ := mem_map.mp hid
    rw [heq, map_map]
    refine mem_map.mpr ⟨row, hrow, ?_⟩
    simp only [Function.comp_apply]
    split_ifs <;> rfl
  · rw [heq, map_append]
    exact mem_append_left _ hid

theorem active_use_sublist (userID : UUID) (p : CodeRow → Bool) (now : Time) : ∀ codes : List CodeRow,
    ((codes.map fun row => if p row = true then row.use now else row).filter fun row => row.activeFor userID).Sublist
      (codes.filter fun row => row.activeFor userID)
  | [] => .slnil
  | row :: codes => by
    have ih := active_use_sublist userID p now codes
    by_cases hp : p row = true
    · simp only [map_cons, hp, if_true, filter_cons, CodeRow.use_activeFor, Bool.false_eq_true, if_false]
      split_ifs
      · exact ih.cons row
      · exact ih
    simp only [map_cons, hp, if_false, filter_cons, Bool.false_eq_true]
    split_ifs
    · exact ih.cons_cons row
    · exact ih

/-- What a request can do to the active codes of a user: take some away, or add a batch of new ones. -/
theorem active_cases (h : exec K P q db r db') (userID : UUID) : (db'.active userID).Sublist (db.active userID) ∨
    ∃ (ids : List UUID) (hashes : List String), q = .insertHashes userID hashes ∧ ids.length = hashes.length ∧
      (∀ id ∈ ids, id ∉ db.codes.map CodeRow.id) ∧ db'.codes = db.codes ++ (ids.zip hashes).map (fun x => ⟨x.1, userID, x.2, none⟩) ∧
      db'.active userID = db.active userID ++ (ids.zip hashes).map fun x => ⟨x.1, userID, x.2, none⟩ := by
  rcases codes_cases h with heq | ⟨p, now, heq⟩ | ⟨ids, owner, hashes, hq, hlen, hfresh, heq⟩
  · refine .inl ?_
    rw [MfaDB.active, heq]
    exact .refl _
  · refine .inl ?_
    rw [MfaDB.active, heq]
    exact active_use_sublist userID p now db.codes
  by_cases howner : owner = userID
  · subst howner
    refine .inr ⟨ids, hashes, hq, hlen, hfresh, heq, ?_⟩
    rw [MfaDB.active, heq, filter_append]
    refine congrArg _ (filter_eq_self.mpr fun row hrow => ?_)
    obtain ⟨x, -, rfl⟩ := mem_map.mp hrow
    simp [CodeRow.activeFor]
  refine .inl ?_
  have hnew : ((ids.zip hashes).map fun x => (⟨x.1, owner, x.2, none⟩ : CodeRow)).filter (fun row => row.activeFor userID) = [] := by
    refine filter_eq_nil_iff.mpr fun row hrow => ?_
    obtain ⟨x, -, rfl⟩ := mem_map.mp hrow
    simp [CodeRow.activeFor, howner]
  rw [MfaDB.active, heq, filter_append, hnew, append_nil]
  exact .refl _

/-- The code is in the table and no active code of the user. -/
def Spent (userID id : UUID) (db : MfaDB) : Prop := id ∈ db.codes.map CodeRow.id ∧ ∀ row ∈ db.active userID, row.id ≠ id

theorem Spent.kept {userID id : UUID} (hs : Spent userID id db) (h : exec K P q db r db') : Spent userID id db' := by
  refine ⟨ids_kept h hs.1, fun row hrow => ?_⟩
  rcases active_cases h userID with hsub | ⟨ids, hashes, -, -, hfresh, -, heq⟩
  · exact hs.2 row (hsub.subset hrow)
  rw [heq] at hrow
  rcases mem_append.mp hrow with hrow | hrow
  · exact hs.2 row hrow
  -- a new row has an identifier that no row had
  obtain ⟨x, hx, rfl⟩ := mem_map.mp hrow
  rintro rfl
  exact hfresh x.1 (of_mem_zip hx).1 hs.1

theorem MfaDB.mem_listActive {userID : UUID} {rec : RecoveryCodeRecord} :
    rec ∈ db.listActive userID ↔ ∃ row ∈ db.active userID, (⟨row.id, row.hash⟩ : RecoveryCodeRecord) = rec := by
  simp [MfaDB.listActive]

end Exec

inductive Call : Type
  | enroll (userID : UUID) (label : String)
  | verify (userID : UUID) (code : String)
  | consumeRecovery (userID : UUID) (submitted : String) (reqCtx : RequestContext)
  | regenerateRecovery (userID : UUID) (reqCtx : RequestContext)

abbrev Res : Call → Type
  | .enroll _ _ => Except Err EnrollResult
  | .verify _ _ => Except Err Unit
  | .consumeRecovery _ _ _ => Except Err Unit
  | .regenerateRecovery _ _ => Except Err (List String)

abbrev Ev : Type := Event Req Resp MfaDB Call Res

abbrev W : Type := World Req Resp MfaDB Call Res

def body (issuer : String) : (c : Call) → Client (Res c)
  | .enroll userID label => enroll issuer userID label
  | .verify userID code => verify K userID code
  | .consumeRecovery userID submitted reqCtx => consumeRecovery userID submitted reqCtx
  | .regenerateRecovery userID reqCtx => regenerateRecovery userID reqCtx

def system (P : Plane) (issuer : String) (allow : W → Ev → Prop) : System Req Resp MfaDB Call Res where
  exec := exec K P
  body := body K issuer
  allow := allow

end Crm.Mfa
