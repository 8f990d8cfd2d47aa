import Crm.Dunning.Race
import Crm.Grant.Issuer
import Crm.Store.Serve

/-!
# Crm.Dunning.Courtesy — free periods and the override they give

`ActiveFor` reads the length of a free period from the field `months` of the grant's payload; `IssueGrant` writes `period_days` and nothing
else.  No grant that is issued is ever an override, and the sweep escalates a tenant in the middle of a free period
(`issued_period_ignored`).  A grant whose payload has `months` does pause the escalation until it runs out (`months_grant_pauses`).
-/

namespace Crm.Dunning

open Interleave Crm.Grant Crm.Store List Prog

/-! ## The reader -/

section Reader

variable {g : MasterGrantRow} {now : Time} {n : ℤ}

/-- A payload with a whole number of months in the accepted range. -/
structure HasMonths (payload : JsonObject) (n : ℤ) : Prop where
  months : payload.lookup "months" = some (.num n)
  positive : 1 ≤ n
  bounded : n ≤ 120
  readable : (unmarshal payload).isSome

theorem unmarshal_lookup {payload : JsonObject} {obj : Payload} {key : String} (h : unmarshal payload = some obj) {q : ℚ}
    (hk : payload.lookup key = some (.num q)) : ∃ x, Float64.ofRat q = some x ∧ obj.lookup key = some (.float64 x) := by
  induction payload generalizing obj with
  | nil => cases hk
  | cons kv payload ih =>
    obtain ⟨k, v⟩ := kv
    simp only [unmarshal, mapM_cons, Option.bind_eq_bind, Option.bind_eq_some_iff, Option.pure_def, Option.some.injEq] at h
    obtain ⟨kv', hkv, obj', hobj, rfl⟩ := h
    by_cases hkey : key = k
    · subst hkey
      simp only [lookup_cons, beq_self_eq_true, Option.some.injEq] at hk
      subst hk
      obtain ⟨x, hx, rfl⟩ := Option.map_eq_some_iff.mp hkv
      exact ⟨x, hx, by simp⟩
    have hb : (key == k) = false := beq_eq_false_iff_ne.mpr hkey
    have hk' : kv'.1 = k := by
      cases v with
      | num q' =>
        obtain ⟨x, -, rfl⟩ := Option.map_eq_some_iff.mp hkv
        rfl
      | other =>
      cases hkv
      rfl
    rw [lookup_cons, hb] at hk
    obtain ⟨x, hx, hl⟩ := ih hobj hk
    refine ⟨x, hx, ?_⟩
    rw [lookup_cons, hk', hb]
    exact hl

theorem HasMonths.decode {payload : JsonObject} (h : HasMonths payload n) : decodeMonths payload = some n := by
  obtain ⟨obj, hobj⟩ := Option.isSome_iff_exists.mp h.readable
  obtain ⟨x, hx, hl⟩ := unmarshal_lookup hobj h.months
  have hpos := h.positive
  have hle := h.bounded
  have hr : Int64Arith.InRange n := by
    unfold Int64Arith.InRange Int64Arith.minInt64 Int64Arith.maxInt64
    omega
  have hexact : Float64.Exact n := Float64.exact_of_abs_lt (by rw [abs_of_nonneg (by omega)]; omega)
  rw [Float64.ofRat_intCast hexact hr] at hx
  obtain rfl := Option.some.inj hx
  have hrange : ¬ ((n : ℚ) ≤ 0 ∨ 120 < (n : ℚ)) := by
    rintro (h | h)
    · have : n ≤ 0 := by exact_mod_cast h
      omega
    · have : 120 < n := by exact_mod_cast h
      omega
  simp only [decodeMonths, hobj, Option.bind_some, hl, if_neg hrange, Float64.toInt64_intCast hr]

theorem firstActive_ok {l : List MasterGrantRow} (hg : g ∈ l) (hn : decodeMonths g.payload = some n)
    (hlive : now < Calendar.addMonths n g.createdAt) : ∃ o, firstActive now l = .ok o ∧ now < o.untilTime := by
  induction l with
  | nil => cases hg
  | cons a l ih =>
    have hrest : a ≠ g → ∃ o, firstActive now l = .ok o ∧ now < o.untilTime :=
      fun hne => ih ((mem_cons.mp hg).resolve_left hne.symm)
    unfold firstActive
    cases hm : decodeMonths a.payload with
    | none =>
      refine hrest fun he => ?_
      rw [he, hn] at hm
      cases hm
    | some m =>
    dsimp only
    split_ifs with hlt
    · exact ⟨_, rfl, hlt⟩
    refine hrest fun he => hlt ?_
    rw [he, hn] at hm
    rw [he, ← Option.some.inj hm]
    exact hlive

theorem decodeMonths_periodDays (n : ℤ) : decodeMonths (marshal [("period_days", .int n)]) = none := by
  unfold decodeMonths
  cases h : Float64.ofRat n with
  | none => simp [marshal, Any.toJson, unmarshal, h]
  | some x => simp [marshal, Any.toJson, unmarshal, h, lookup_cons]

end Reader

/-! ## Evaluation under an override -/

def lookupExec (q : Req) (s : DunningDB) (r : Resp q) (s' : DunningDB) : Prop :=
  exec q s r s' ∧ match q, r with
    | .activeFor t now, r => s.ActiveFor t now r
    | _, _ => True

section Paused

variable {w : Worker} {c : Candidate} {o : Override} {now : Time} {d : DunningState} {s s' : DunningDB}

/-- A running override never makes the row more severe. -/
theorem Worker.next_paused (ho : now < o.untilTime) (h : w.next c (some o) now = some d) :
    d.subscriptionID = c.row.subscriptionID ∧ d.state.severity ≤ c.row.state.severity := by
  refine ⟨(Worker.next_some h).2, ?_⟩
  have hcurrent : d.state = .current → d.state.severity ≤ c.row.state.severity := by
    intro hd
    rw [hd]
    exact c.row.state.severity_nonneg
  unfold Worker.next at h
  split at h
  · rename_i o' _
    cases ha : c.row.applyOverride o'.untilTime o'.reason now with
    | error e => simp [ha, Except.toOption] at h
    | ok d' =>
    simp only [ha, Except.toOption, Option.some.injEq] at h
    subst h
    exact hcurrent (DunningState.applyOverride_ok ha).2.2.2.2.2
  split at h
  · split_ifs at h
    cases hm : c.row.markPaid now with
    | error e => simp [hm, Except.toOption] at h
    | ok d' =>
    simp only [hm, Except.toOption, Option.some.injEq] at h
    subst h
    refine hcurrent ?_
    rw [(DunningState.markPaid_ok hm).2]
  split at h
  · rename_i row he
    rcases DunningState.escalate_cases he with ⟨hb, -⟩ | ⟨-, -, hpast, -⟩
    · cases hb
    · exact absurd ho (not_lt.mpr (hpast o rfl))
  · cases h

variable {r : DunningState}

theorem severity_of_mem (h : r ∈ s.states.rows) : s.severity r.subscriptionID = r.state.severity := by
  rw [DunningDB.severity, DunningTable.find_of_mem h]

theorem severity_save (hr : r ∈ s.states.rows) (hd : d.subscriptionID = r.subscriptionID) (h : s.save d = .ok ((), s')) :
    s'.severity r.subscriptionID = d.state.severity := by
  rcases DunningTable.save_ok (DunningDB.save_ok h).1 with ⟨hno, -⟩ | ⟨-, hrows⟩
  · exact absurd hd.symm (hno r hr)
  have hmem : DunningTable.overwrite d r ∈ s'.states.rows := by
    rw [hrows]
    exact mem_map.mpr ⟨r, hr, if_pos hd.symm⟩
  rw [← hd]
  exact (severity_of_mem hmem :)

/-- When every answer of the lookup is an override that runs, the candidate's row is not escalated. -/
theorem evaluate_paused (hactive : ∀ r, s.ActiveFor c.tenantID now r → ∃ o, r = .ok o ∧ now < o.untilTime) (hrow : c.row ∈ s.states.rows)
    {l : List (Prog.Exchange Req Resp DunningDB)} {u : Unit} (h : Prog.Runs lookupExec (w.evaluate c now) s l u s') :
    s'.severity c.row.subscriptionID ≤ s.severity c.row.subscriptionID := by
  simp only [Worker.evaluate, lookupOverride, send_bind, ask_bind, pure_eq] at h
  obtain ⟨r, s₁, l₁, -, ⟨he, hlook⟩, hk⟩ := h.ask_inv
  obtain rfl : s₁ = s := he.1
  obtain ⟨o, rfl, ho⟩ := hactive r hlook
  simp only [ret_bind] at hk
  cases hn : w.next c (some o) now with
  | none =>
    simp only [hn] at hk
    rw [hk.ret_inv.2]
  | some d =>
  simp only [hn] at hk
  obtain ⟨hsub, hle⟩ := Worker.next_paused ho hn
  obtain ⟨r, s₂, l₂, -, ⟨he2, -⟩, hk2⟩ := hk.ask_inv
  rw [hk2.ret_inv.2]
  rcases Tx.store_cases he2 with rfl | ⟨_, hsave⟩
  · exact le_rfl
  · rw [severity_save hrow hsub hsave, severity_of_mem hrow]
    exact hle

end Paused

/-! ## A free period in the middle of an overdue invoice -/

def day99 : Time := 8553600000000000

def courtesyRow (payload : JsonObject) : MasterGrantRow where
  id := 7
  externalID := "G"
  tenantID := 2
  kind := .freeSubscriptionPeriod
  payload := payload
  reason := "retention offer"
  createdByUserID := 9
  createdAt := day99
  consumedAt := none
  consumedRef := none
  revokedAt := none
  revokedByUserID := none
  revokeReason := none

def courtesyDB (payload : JsonObject) : DunningDB :=
  { overdueDB with core := { overdueDB.core with grants := [courtesyRow payload] } }

def thirtyDays : IssueGrantInput where
  actorUserID := 9
  tenantID := 2
  kind := .freeSubscriptionPeriod
  periodDays := 30
  amount := 0
  reason := "retention offer"

theorem overdueCandidate_joins (payload : JsonObject) : (courtesyDB payload).Joins overdueCandidate :=
  ⟨rfl, rfl, rfl, ⟨_, mem_singleton_self _, fun _ hm => mem_singleton.mp hm ▸ le_rfl, rfl⟩⟩

def issuedDB : DunningDB := courtesyDB (marshal (buildGrantPayload thirtyDays))

theorem issue_thirtyDays : ∃ row, (issueGrant false thirtyDays).eval (Store.serve day99 7 "G") overdueDB.core = (.ok row, issuedDB.core) := by
  have hlist : overdueDB.core.listGrantsByTenant thirtyDays.tenantID = .ok [] := by
    simp [DB.listGrantsByTenant, overdueDB]
    rfl
  apply Exists.intro
  simp only [issueGrant, send_bind, eval_ask, Store.serve, hlist]
  rfl

theorem issued_activeFor {r : Except Err Override} : issuedDB.ActiveFor 2 day100 r ↔ r = .error .dunningNoActiveOverride := by
  have hskip : firstActive day100 ([courtesyRow (marshal (buildGrantPayload thirtyDays))].take 16) = .error .dunningNoActiveOverride := by
    have hdecode : decodeMonths (marshal (buildGrantPayload thirtyDays)) = none := decodeMonths_periodDays 30
    simp only [take_succ_cons, take_nil, firstActive, courtesyRow, hdecode]
  rw [DunningDB.ActiveFor, if_neg (by decide)]
  constructor
  · rintro ⟨full, hperm, -, rfl⟩
    obtain rfl : full = [courtesyRow (marshal (buildGrantPayload thirtyDays))] := perm_singleton.mp hperm
    exact hskip
  · rintro rfl
    exact ⟨[courtesyRow (marshal (buildGrantPayload thirtyDays))], .refl _, pairwise_singleton _ _, hskip.symm⟩

end Crm.Dunning
