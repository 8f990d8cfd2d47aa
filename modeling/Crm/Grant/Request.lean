import Crm.Grant.Issuer

/-!
# Crm.Grant.Request — the four-eyes path into master_grant

`GrantRequestStore` of `internal/adapter/db/postgres/master/grant_request_repository.go`: a request for a grant is stored with its
own payload encoding, and a second operator approves or rejects it.  An approval decodes the request and inserts the
grant with the same encoding, in one transaction.
-/

namespace Crm.Grant

open Crm.Store List

inductive GrantRequestState : Type
  | awaiting
  | approved
  | rejected
  deriving DecidableEq, Repr

structure GrantRequestRow where
  id : UUID
  externalID : String
  tenantID : UUID
  kind : GrantKind
  payload : JsonObject
  reason : String
  createdByUserID : UUID
  requiresSecondApproverID : Option UUID
  state : GrantRequestState
  decidedAt : Option Time
  createdAt : Time

structure GrantRequest where
  id : UUID
  externalID : String
  tenantID : UUID
  kind : GrantKind
  periodDays : ℤ
  amount : ℤ
  reason : String
  createdByID : UUID
  secondApproverID : Option UUID
  state : GrantRequestState
  decidedAt : Option Time
  createdAt : Time

structure CreateGrantRequestInput where
  actorUserID : UUID
  tenantID : UUID
  kind : GrantKind
  periodDays : ℤ
  amount : ℤ
  reason : String

structure DecideGrantRequestInput where
  actorUserID : UUID
  requestID : UUID

structure RequestDB where
  requests : List GrantRequestRow
  db : DB

/-! ## The payload encoding of this path -/

def numberToInt : Option Any → ℤ × ℤ
  | some (.float64 x) => (Float64.toInt64 x, Float64.toInt64 x)
  | some (.int n) => (n, n)
  | some (.int64 n) => (n, n)
  | _ => (0, 0)

def encodePayload (kind : GrantKind) (periodDays amount : ℤ) : Except Err JsonObject :=
  match kind with
  | .freeSubscriptionPeriod => .ok (marshal [("period_days", .int periodDays)])
  | .extraTokens => .ok (marshal [("tokens", .int64 amount)])
  | .unknown text => .error (.other ("master/postgres: unknown grant kind " ++ text.quote))

def decodePayload (kind : GrantKind) (raw : JsonObject) : Except Err (ℤ × ℤ) :=
  match unmarshal raw with
  | none => .error (.other "master/postgres: unmarshal payload")
  | some payload =>
    match kind with
    | .freeSubscriptionPeriod => .ok ((numberToInt (payload.lookup "period_days")).1, 0)
    | .extraTokens => .ok (0, (numberToInt (payload.lookup "tokens")).2)
    | .unknown _ => .ok (0, 0)

/-! ## The transactions -/

def decodeRequest (r : GrantRequestRow) : Except Err GrantRequest :=
  match decodePayload r.kind r.payload with
  | .error e => .error e
  | .ok (periodDays, amount) => .ok
    { id := r.id, externalID := r.externalID, tenantID := r.tenantID, kind := r.kind, periodDays, amount,
      reason := r.reason, createdByID := r.createdByUserID, secondApproverID := r.requiresSecondApproverID,
      state := r.state, decidedAt := r.decidedAt, createdAt := r.createdAt }

namespace RequestDB

def findRequest (id : UUID) (s : RequestDB) : Option GrantRequestRow := s.requests.find? fun r => r.id = id

def scanRequest (id : UUID) (s : RequestDB) : Except Err GrantRequest :=
  match s.findRequest id with
  | none => .error .grantRequestNotFound
  | some r => decodeRequest r

def markDecided (id actor : UUID) (state : GrantRequestState) (now : Time) (s : RequestDB) : RequestDB :=
  { s with requests := s.requests.map fun r =>
      if r.id = id ∧ r.state = .awaiting then
        { r with state, requiresSecondApproverID := some actor, decidedAt := some (timestamptz now) }
      else r }

end RequestDB

def createGrantRequest (inp : CreateGrantRequestInput) (id : UUID) (externalID : String) (now : Time) (s : RequestDB) :
    Except Err (GrantRequest × RequestDB) :=
  if inp.actorUserID = UUID.Nil then .error (.wrap "master/postgres: create grant request" .postgresZeroActor)
  else match encodePayload inp.kind inp.periodDays inp.amount with
    | .error e => .error e
    | .ok payload =>
      -- CHECK (char_length(reason) >= 10), PRIMARY KEY (id), UNIQUE (external_id)
      if inp.reason.length < 10 ∨ s.requests.any fun r => r.id = id ∨ r.externalID = externalID then
        .error (.other "master/postgres: insert master_grant_request")
      else
        let row : GrantRequestRow :=
          { id, externalID, tenantID := inp.tenantID, kind := inp.kind, payload, reason := inp.reason,
            createdByUserID := inp.actorUserID, requiresSecondApproverID := none, state := .awaiting, decidedAt := none,
            createdAt := timestamptz now }
        .ok ({ id, externalID, tenantID := inp.tenantID, kind := inp.kind, periodDays := inp.periodDays,
               amount := inp.amount, reason := inp.reason, createdByID := inp.actorUserID, secondApproverID := none,
               state := .awaiting, decidedAt := none, createdAt := now },
             { s with requests := s.requests ++ [row] })

def promotedRow (req : GrantRequest) (payload : JsonObject) (grantID : UUID) (externalID : String) (now : Time) :
    MasterGrantRow where
  id := grantID
  externalID := externalID
  tenantID := req.tenantID
  kind := req.kind
  payload := payload
  reason := req.reason
  createdByUserID := req.createdByID
  createdAt := timestamptz now
  consumedAt := none
  consumedRef := none
  revokedAt := none
  revokedByUserID := none
  revokeReason := none

def undecided (inp : DecideGrantRequestInput) (s : RequestDB) : Except Err GrantRequest :=
  match s.scanRequest inp.requestID with
  | .error e => .error e
  | .ok req =>
    if req.state ≠ .awaiting then .error .grantRequestAlreadyDecided
    else if req.createdByID = inp.actorUserID then .error .grantRequestApproverIsCreator
    else .ok req

def approveGrantRequest (inp : DecideGrantRequestInput) (grantID : UUID) (externalID : String) (now : Time) (s : RequestDB) :
    Except Err (GrantRow × RequestDB) :=
  if inp.actorUserID = UUID.Nil then .error (.wrap "master/postgres: approve grant request" .postgresZeroActor)
  else match undecided inp s with
    | .error e => .error e
    | .ok req =>
      let s := s.markDecided inp.requestID inp.actorUserID .approved now
      match encodePayload req.kind req.periodDays req.amount with
      | .error e => .error e
      | .ok payload =>
        -- CHECK (char_length(reason) >= 10), PRIMARY KEY (id), UNIQUE (external_id)
        if req.reason.length < 10 ∨ s.db.grants.any fun r => r.id = grantID ∨ r.externalID = externalID then
          .error (.other "master/postgres: insert master_grant (4-eyes approved)")
        else .ok
          ({ id := grantID, externalID, tenantID := req.tenantID, kind := req.kind, periodDays := req.periodDays,
             amount := req.amount, reason := req.reason, createdByID := req.createdByID, createdAt := now,
             consumed := false, consumedAt := none, revoked := false, revokedAt := none, revokeBy := none },
           { s with db := { s.db with grants := s.db.grants ++ [promotedRow req payload grantID externalID now] } })

def rejectGrantRequest (inp : DecideGrantRequestInput) (now : Time) (s : RequestDB) : Except Err (Unit × RequestDB) :=
  if inp.actorUserID = UUID.Nil then .error (.wrap "master/postgres: reject grant request" .postgresZeroActor)
  else match undecided inp s with
    | .error e => .error e
    | .ok _ => .ok ((), s.markDecided inp.requestID inp.actorUserID .rejected now)

/-! ## What the transactions leave behind -/

section Spec

variable {s s' : RequestDB} {now : Time}

theorem find?_concat {α : Type} {l : List α} {p : α → Bool} {x : α} (h : l.find? p = none) (hx : p x = true) :
    (l ++ [x]).find? p = some x := by
  rw [find?_append, h, Option.none_or, find?_singleton, hx]
  rfl

/-- **CreateGrantRequest**: the row found under the new id has the encoded payload. -/
theorem createGrantRequest_ok {inp : CreateGrantRequestInput} {id : UUID} {ext : String} {out : GrantRequest}
    (h : createGrantRequest inp id ext now s = .ok (out, s')) :
    ∃ payload row, encodePayload inp.kind inp.periodDays inp.amount = .ok payload ∧ s'.findRequest id = some row ∧
      row.kind = inp.kind ∧ row.payload = payload := by
  unfold createGrantRequest at h
  split at h
  · cases h
  split at h
  · cases h
  rename_i payload hp
  split_ifs at h with hdup
  cases h
  push Not at hdup
  have hfree : s.requests.find? (fun r => r.id = id) = none := by
    rw [find?_eq_none]
    intro r hr
    have hany := hdup.2
    simp only [Bool.not_eq_true, any_eq_false, decide_eq_true_eq, not_or] at hany
    simpa using (hany r hr).1
  exact ⟨payload, _, hp, find?_concat hfree (decide_eq_true rfl), rfl, rfl⟩

variable {inp : DecideGrantRequestInput}

theorem undecided_ok {req : GrantRequest} (h : undecided inp s = .ok req) :
    ∃ row d a, s.findRequest inp.requestID = some row ∧ row.state = .awaiting ∧ row.createdByUserID ≠ inp.actorUserID ∧
      decodePayload row.kind row.payload = .ok (d, a) ∧ req.kind = row.kind ∧ req.periodDays = d ∧ req.amount = a := by
  unfold undecided RequestDB.scanRequest at h
  cases hf : s.findRequest inp.requestID with
  | none => rw [hf] at h; cases h
  | some row =>
  simp only [hf, decodeRequest] at h
  cases hd : decodePayload row.kind row.payload with
  | error e => rw [hd] at h; cases h
  | ok da =>
  rw [hd] at h
  dsimp only at h
  split_ifs at h with hs hc
  cases h
  exact ⟨row, da.1, da.2, rfl, by simpa using hs, hc, hd, rfl, rfl, rfl⟩

/-- **ApproveGrantRequest**: an awaiting request of another operator is decoded and inserted, encoded again. -/
theorem approveGrantRequest_ok {grantID : UUID} {ext : String} {out : GrantRow} (h : approveGrantRequest inp grantID ext now s = .ok (out, s')) :
    ∃ row req d a payload, s.findRequest inp.requestID = some row ∧ row.state = .awaiting ∧
      row.createdByUserID ≠ inp.actorUserID ∧ decodePayload row.kind row.payload = .ok (d, a) ∧
      encodePayload row.kind d a = .ok payload ∧ req.kind = row.kind ∧
      s'.db.grants = s.db.grants ++ [promotedRow req payload grantID ext now] := by
  unfold approveGrantRequest at h
  split at h
  · cases h
  cases hu : undecided inp s with
  | error e => rw [hu] at h; cases h
  | ok req =>
  obtain ⟨row, d, a, hf, hs, hc, hd, hk, rfl, rfl⟩ := undecided_ok hu
  simp only [hu] at h
  split at h
  · cases h
  rename_i payload hp
  split_ifs at h
  cases h
  exact ⟨row, req, _, _, payload, hf, hs, hc, hd, by rw [← hk]; exact hp, hk, rfl⟩

end Spec

end Crm.Grant
