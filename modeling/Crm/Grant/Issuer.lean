import Crm.Grant.Apply
import Crm.Store.Frame

/-!
# Crm.Grant.Issuer — issuing and revoking master grants under the cap policy

`WalletGrantPort` of `internal/web/master/grant_issuer_wallet.go` with the cap policy of `internal/web/master/grants.go`:
a grant is issued when it fits the per-grant cap and, together with the tenant's grants of the trailing window, the
per-tenant cap; then it is stored and, when an applier is attached, applied at once.
-/

namespace Crm.Grant

open Int64Arith Interleave Crm.Wallet Crm.Store List Prog

/-- The web layer's name of the kind; its texts are those of the wallet layer. -/
abbrev GrantKind : Type := MasterGrantKind

def perGrantCap : ℤ := 10000000

def perTenantWindowCap : ℤ := 100000000

def tenantWindow : ℤ := 365 * 24 * hour

def freeSubscriptionDayEquivalence : ℤ := 35000

structure IssueGrantInput where
  actorUserID : UUID
  tenantID : UUID
  kind : GrantKind
  periodDays : ℤ
  amount : ℤ
  reason : String
  deriving DecidableEq

structure GrantRow where
  id : UUID
  externalID : String
  tenantID : UUID
  kind : GrantKind
  periodDays : ℤ
  amount : ℤ
  reason : String
  createdByID : UUID
  createdAt : Time
  consumed : Bool
  consumedAt : Option Time
  revoked : Bool
  revokedAt : Option Time
  revokeBy : Option UUID

structure RevokeGrantInput where
  actorUserID : UUID
  grantID : UUID
  reason : String
  deriving DecidableEq

def capEquivalence (kind : GrantKind) (amount periodDays : ℤ) : ℤ :=
  match kind with
  | .extraTokens => amount
  | .freeSubscriptionPeriod => wrap (periodDays * freeSubscriptionDayEquivalence)
  | .unknown _ => 0

/-- The cap error of a grant worth `equivalent` on top of `cumulative`. -/
def enforceCap (equivalent cumulative : ℤ) : Option Err :=
  if perGrantCap < equivalent then some .perGrantCapExceeded
  else if perTenantWindowCap < wrap (cumulative + equivalent) then some .perTenantWindowCapExceeded
  else none

variable (g : MasterGrant)

def grantEquivalence : ℤ :=
  capEquivalence g.kind (readInt64Payload g.payload "amount") (readInt64Payload g.payload "period_days")

/-- The worth of the unrevoked grants created at `cutoff` or later. -/
def cumulativeEquivalentSince (grants : List MasterGrant) (cutoff : Time) : ℤ :=
  grants.foldl (fun sum g => if g.isRevoked ∨ g.createdAt < cutoff then sum else wrap (sum + grantEquivalence g)) 0

def buildGrantPayload (inp : IssueGrantInput) : Payload :=
  match inp.kind with
  | .freeSubscriptionPeriod => [("period_days", .int inp.periodDays)]
  | .extraTokens => [("amount", .int64 inp.amount)]
  | .unknown _ => []

def hydrateGrantRow : GrantRow where
  id := g.id
  externalID := g.externalID
  tenantID := g.tenantID
  kind := g.kind
  periodDays := readInt64Payload g.payload "period_days"
  amount := readInt64Payload g.payload "amount"
  reason := g.reason
  createdByID := g.createdByUserID
  createdAt := g.createdAt
  consumed := g.isConsumed
  consumedAt := g.consumedAt
  revoked := g.isRevoked
  revokedAt := g.revokedAt
  revokeBy := g.revokedByUserID

/-- `IssueGrant`; `applier` says whether an applier is attached. -/
def issueGrant (applier : Bool) (inp : IssueGrantInput) : Client (Except Err GrantRow) := do
  let now ← Port.clock
  match ← Port.listGrantsByTenant inp.tenantID with
  | .error e => return .error (.wrap "web/master: list grants for cap" e)
  | .ok existing =>
    let cumulative := cumulativeEquivalentSince existing (now - tenantWindow)
    let equivalent := capEquivalence inp.kind inp.amount inp.periodDays
    match enforceCap equivalent cumulative with
    | some e => return .error e
    | none =>
      let id ← Port.newUUID
      let externalID ← Port.newULID
      match newMasterGrant id externalID inp.tenantID inp.actorUserID inp.kind (buildGrantPayload inp) inp.reason now with
      | .error e => return .error (.wrap "web/master: build master grant" e)
      | .ok g =>
        match ← Port.createGrant g with
        | .error e => return .error (.wrap "web/master: persist master grant" e)
        | .ok () =>
          if applier then
            match ← apply g.id with
            | .error e => return .error (.wrap "web/master: apply master grant" e)
            | .ok _ => return .ok (hydrateGrantRow g)
          else return .ok (hydrateGrantRow g)

def revokeGrant (inp : RevokeGrantInput) : Client (Except Err Unit) := do
  let now ← Port.clock
  match ← Port.revokeGrant inp.grantID inp.actorUserID inp.reason now with
  | .ok () => return .ok ()
  | .error e =>
    if e.is .notFound then return .error .webGrantNotFound
    else if e.is .grantAlreadyConsumed then return .error .webGrantAlreadyConsumed
    else if e.is .grantAlreadyRevoked then return .error .webGrantAlreadyRevoked
    else return .error e

/-! ## The cap accounting as a sum -/

def counted (cutoff : Time) (g : MasterGrant) : Bool := !g.isRevoked && decide (cutoff ≤ g.createdAt)

/-- The accumulator is the sum up to wrapping, so the order of the grants does not matter. -/
theorem cumulativeEquivalentSince_eq (grants : List MasterGrant) (cutoff : Time) :
    cumulativeEquivalentSince grants cutoff = wrap (((grants.filter (counted cutoff)).map grantEquivalence).sum) := by
  have key : ∀ (l : List MasterGrant) (z : ℤ),
      l.foldl (fun sum g => if g.isRevoked ∨ g.createdAt < cutoff then sum else wrap (sum + grantEquivalence g)) (wrap z) =
        wrap (z + ((l.filter (counted cutoff)).map grantEquivalence).sum) := by
    intro l
    induction l with
    | nil => simp
    | cons g l ih =>
      intro z
      by_cases hc : g.isRevoked ∨ g.createdAt < cutoff
      · have hf : counted cutoff g = false := by
          rcases hc with hc | hc <;> simp [counted, hc]
        rw [foldl_cons, if_pos hc, ih, filter_cons_of_neg (by simp [hf])]
      have hf : counted cutoff g = true := by
        push Not at hc
        simp [counted, hc]
      rw [foldl_cons, if_neg hc, wrap_wrap_add, ih, filter_cons_of_pos hf, map_cons, sum_cons, add_assoc]
  have h0 : wrap 0 = 0 := rfl
  rw [cumulativeEquivalentSince, ← h0, key, zero_add]

/-- One counted grant adds its worth, wherever it stands. -/
theorem cumulativeEquivalentSince_insert {gs gs' : List MasterGrant} {g : MasterGrant} {cutoff : Time}
    (hg : counted cutoff g = true) :
    cumulativeEquivalentSince (gs ++ g :: gs') cutoff =
      wrap (cumulativeEquivalentSince (gs ++ gs') cutoff + grantEquivalence g) := by
  rw [cumulativeEquivalentSince_eq, cumulativeEquivalentSince_eq, wrap_wrap_add, filter_append,
    filter_cons_of_pos hg, filter_append]
  simp only [map_append, map_cons, sum_append, sum_cons]
  congr 1
  ring

/-! ## The grants that calls create -/

def creates : Req → Option MasterGrant
  | .createGrant g => some g
  | _ => none

theorem sends_applyFreePeriod (now : Time) :
    (applyFreePeriod g now).Sends fun q => q.writesGrants = false ∧ q.writesLedger = false := by
  simp only [applyFreePeriod, send_bind, pure_eq]
  split_ifs
  · exact .ret _
  refine .ask ⟨rfl, rfl⟩ fun ans => ?_
  cases ans with
  | error e => exact .ret _
  | ok fresh =>
  dsimp only
  split_ifs
  · exact .ret _
  · exact .ret _
  refine .ask ⟨rfl, rfl⟩ fun ans => ?_
  cases ans with
  | error e => exact .ret _
  | ok sub =>
  dsimp only
  split
  · exact .ret _
  refine .ask ⟨rfl, rfl⟩ fun ans => ?_
  cases ans <;> exact .ret _

theorem sends_applyExtraTokens (now : Time) :
    (applyExtraTokens g now).Sends fun q => q.writesSubs = false ∧ q.writesGrants = false := by
  simp only [applyExtraTokens, send_bind, pure_eq]
  split_ifs
  · exact .ret _
  refine .ask ⟨rfl, rfl⟩ fun ans => ?_
  cases ans with
  | error e => exact .ret _
  | ok w =>
  dsimp only
  split
  · exact .ret _
  refine .ask ⟨rfl, rfl⟩ fun entryID => .ask ⟨rfl, rfl⟩ fun ans => ?_
  cases ans <;> exact .ret _

theorem sends_sideEffect (now : Time) : (sideEffect g now).Sends fun q => q.writesGrants = false := by
  unfold sideEffect
  split
  · exact (sends_applyFreePeriod g now).mono fun _ h => h.1
  · exact (sends_applyExtraTokens g now).mono fun _ h => h.2
  · exact .ret _

theorem sends_revokeGrant (inp : RevokeGrantInput) : (revokeGrant inp).Sends fun q => creates q = none ∧ q.writesLedger = false := by
  simp only [revokeGrant, send_bind, pure_eq]
  refine .ask ⟨rfl, rfl⟩ fun now => .ask ⟨rfl, rfl⟩ fun ans => ?_
  cases ans with
  | ok _ => exact .ret _
  | error e =>
  dsimp only
  split_ifs <;> exact .ret _

theorem apply_creates (id : UUID) : (apply id).Always fun q _ _ => creates q = none := by
  simp only [apply, send_bind, pure_eq]
  split_ifs
  · trivial
  refine fun ans => ⟨rfl, ?_⟩
  cases ans with
  | error e => trivial
  | ok g =>
  dsimp only
  split_ifs
  · trivial
  refine fun now => ⟨rfl, Prog.Sends.bind ((sends_sideEffect g now).mono fun q hq => by cases q <;> first | rfl | cases hq) fun ref => ?_⟩
  cases ref with
  | error e => trivial
  | ok ref =>
  refine fun ans => ⟨rfl, ?_⟩
  cases ans <;> trivial

theorem issueGrant_creates (applier : Bool) (inp : IssueGrantInput) :
    (issueGrant applier inp).Always fun q _ _ => ∀ g, creates q = some g →
      g.kind = inp.kind ∧ g.payload = buildGrantPayload inp ∧ g.tenantID = inp.tenantID := by
  simp only [issueGrant, send_bind, pure_eq]
  refine fun now => ⟨?_, fun ans => ⟨?_, ?_⟩⟩
  · rintro _ ⟨⟩
  · rintro _ ⟨⟩
  cases ans with
  | error e => trivial
  | ok existing =>
  dsimp only
  split
  · trivial
  refine fun id => ⟨?_, fun externalID => ⟨?_, ?_⟩⟩
  · rintro _ ⟨⟩
  · rintro _ ⟨⟩
  dsimp only
  split
  · trivial
  rename_i g hg
  unfold newMasterGrant at hg
  split_ifs at hg
  cases hg
  refine fun ans => ⟨?_, ?_⟩
  · rintro g hg
    cases hg
    exact ⟨rfl, rfl, rfl⟩
  cases ans with
  | error e => trivial
  | ok _ =>
  dsimp only
  split_ifs
  · refine Prog.Always.bind (fun _ _ _ h g hg => by rw [h] at hg; cases hg) (fun ans => ?_) (apply_creates _)
    cases ans <;> trivial
  · trivial

end Crm.Grant
