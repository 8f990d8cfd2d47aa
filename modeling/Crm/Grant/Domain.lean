import Crm.Basic
import Crm.Lib.Float64
import Crm.Lib.Uuid

/-!
# Crm.Grant.Domain — master grants and their payload

`MasterGrant` is the aggregate of `internal/wallet/master_grant.go`.  Its payload is an untyped map, written to a
JSON column and read back: `marshal` and `unmarshal` are the two conversions, `readInt64Payload` the reader shared
by the applier and the cap accounting.  A JSON number comes back as a 64-bit float.
-/

namespace Crm.Grant

open Int64Arith

/-! ## Payload maps -/

/-- A dynamically typed value, told apart as far as the payload reader tells them apart. -/
inductive Any : Type
  | int (n : ℤ)
  | int32 (n : ℤ)
  | int64 (n : ℤ)
  | float32 (x : ℚ)
  | float64 (x : ℚ)
  | other
  deriving DecidableEq

abbrev Payload : Type := List (String × Any)

/-- A JSON value: a number, exactly as its text denotes it, or anything else. -/
inductive JsonValue : Type
  | num (q : ℚ)
  | other
  deriving DecidableEq

abbrev JsonObject : Type := List (String × JsonValue)

def Any.toJson : Any → JsonValue
  | .int n => .num n
  | .int32 n => .num n
  | .int64 n => .num n
  -- the shortest decimal text of a float reads back as the same float
  | .float32 x => .num x
  | .float64 x => .num x
  | .other => .other

def marshal (p : Payload) : JsonObject := p.map fun kv => (kv.1, kv.2.toJson)

/-- `json.Unmarshal` into an untyped map; a number out of the range of a float is an error. -/
def unmarshal (j : JsonObject) : Option Payload :=
  j.mapM fun kv =>
    match kv.2 with
    | .num q => (Float64.ofRat q).map fun x => (kv.1, Any.float64 x)
    | .other => some (kv.1, Any.other)

/-- The integer under `key`, `0` when it is missing or no number. -/
def readInt64Payload (p : Payload) (key : String) : ℤ :=
  match p.lookup key with
  | some (.int n) => n
  | some (.int32 n) => n
  | some (.int64 n) => n
  | some (.float32 x) => Float64.toInt64 x
  | some (.float64 x) => Float64.toInt64 x
  | _ => 0

variable {key : String}

theorem unmarshal_int {n : ℤ} (h : Float64.Exact n) (hr : InRange n) : unmarshal [(key, .num n)] = some [(key, .float64 n)] := by
  simp [unmarshal, Float64.ofRat_intCast h hr]

theorem readInt64Payload_float64 {n : ℤ} (hr : InRange n) : readInt64Payload [(key, .float64 n)] key = n := by
  simp [readInt64Payload, Float64.toInt64_intCast hr]

theorem readInt64Payload_missing {key' : String} {x : Any} (h : key' ≠ key) : readInt64Payload [(key, x)] key' = 0 := by
  have hb : (key' == key) = false := beq_eq_false_iff_ne.mpr h
  simp [readInt64Payload, List.lookup_cons, hb]

/-! ## The aggregate -/

inductive MasterGrantKind : Type
  | freeSubscriptionPeriod
  | extraTokens
  | unknown (text : String)
  deriving DecidableEq, Repr

structure MasterGrant where
  id : UUID
  externalID : String
  tenantID : UUID
  kind : MasterGrantKind
  payload : Payload
  reason : String
  createdByUserID : UUID
  createdAt : Time
  consumedAt : Option Time
  consumedRef : String
  revokedAt : Option Time
  revokedByUserID : Option UUID
  revokeReason : String
  deriving DecidableEq

/-- The aggregate built from the fresh identifiers `id` and `externalID`. -/
def newMasterGrant (id : UUID) (externalID : String) (tenantID createdByUserID : UUID) (kind : MasterGrantKind)
    (payload : Payload) (reason : String) (now : Time) : Except Err MasterGrant :=
  if tenantID = UUID.Nil then .error .zeroTenant
  else if createdByUserID = UUID.Nil then .error .zeroActor
  else if kind ≠ .freeSubscriptionPeriod ∧ kind ≠ .extraTokens then .error .invalidGrantKind
  else if reason.utf8ByteSize < 10 then .error .grantReasonTooShort
  else .ok
    { id, externalID, tenantID, kind, payload, reason, createdByUserID, createdAt := now, consumedAt := none,
      consumedRef := "", revokedAt := none, revokedByUserID := none, revokeReason := "" }

namespace MasterGrant

def isRevoked (g : MasterGrant) : Bool := g.revokedAt.isSome

def isConsumed (g : MasterGrant) : Bool := g.consumedAt.isSome

def revoke (g : MasterGrant) (revokedByUserID : UUID) (revokeReason : String) (now : Time) :
    Except Err MasterGrant :=
  if g.isConsumed then .error .grantAlreadyConsumed
  else if g.isRevoked then .error .grantAlreadyRevoked
  else if revokedByUserID = UUID.Nil then .error .zeroActor
  else if revokeReason.utf8ByteSize < 10 then .error .grantReasonTooShort
  else .ok { g with revokedAt := some now, revokedByUserID := some revokedByUserID, revokeReason }

def consume (g : MasterGrant) (ref : String) (now : Time) : Except Err MasterGrant :=
  if g.isRevoked then .error .grantAlreadyRevoked
  else if g.isConsumed then .error .grantAlreadyConsumed
  else .ok { g with consumedAt := some now, consumedRef := ref }

end MasterGrant

end Crm.Grant
