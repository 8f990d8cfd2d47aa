import Mathlib.Tactic.IntervalCases
import Crm.CustomDomain.Management

/-!
# Crm.CustomDomain.Instructions — what the tenant is told to publish

An enrolment shows the tenant a TXT record and the value it must hold, `crm-verify=<token>`.  `Verify` hands the stored token to the DNS
check as it is, and the check compares every TXT value with that bare token: the value shown never matches (`shown_value_refused`).
A tenant who publishes the token alone is verified (`bare_token_verifies`).
-/

namespace Crm.CustomDomain

open Interleave Text List Prog

/-! ## Rows found by their id -/

namespace DomainDB

variable {s : DomainDB} {d : Domain}

theorem find?_of_mem {p : Domain → Bool} (hd : d ∈ s.rows) (hp : p d = true) : (s.rows.find? fun x => x.id = d.id && p x) = some d := by
  have hsome : (s.rows.find? fun x => x.id = d.id && p x).isSome = true :=
    find?_isSome.mpr ⟨d, hd, by simp [hp]⟩
  obtain ⟨d', hd'⟩ := Option.isSome_iff_exists.mp hsome
  have hpred := find?_some hd'
  simp only [Bool.and_eq_true, decide_eq_true_eq] at hpred
  rw [hd', inj_on_of_nodup_map s.ids (mem_of_find?_eq_some hd') hd hpred.1]

theorem getByID_of_mem (hd : d ∈ s.rows) : s.getByID d.id = .ok d := by
  have hfind := find?_of_mem (p := fun _ => true) hd rfl
  simp only [Bool.and_true] at hfind
  rw [getByID, hfind]

theorem update_of_mem {u : Update} (hd : d ∈ s.rows) (hu : u.guard d = true) : s.update d.id u = .ok (u.set d, s.change d.id u) := by
  rw [update, find?_of_mem hd hu]

end DomainDB

/-! ## What an enrolment leaves -/

theorem isSpace_hexDigit {n : ℕ} (h : n < 16) : isSpace (UUID.hexDigit n) = false := by
  interval_cases n <;> decide

/-- A minted token has no blanks to lose, and is not empty. -/
theorem trimSpace_tokenText (bytes : BitVec 128) : trimSpace (tokenText bytes) = tokenText bytes := by
  refine trimSpace_of_forall fun c hc => ?_
  rw [tokenText, String.toList_ofList] at hc
  obtain ⟨i, -, rfl⟩ := mem_map.mp hc
  exact isSpace_hexDigit (Nat.mod_lt _ (by decide))

theorem tokenText_ne_empty (bytes : BitVec 128) : tokenText bytes ≠ "" := by
  intro h
  have hlen := congrArg (fun s => s.toList.length) h
  simp [tokenText] at hlen

/-- What is known of a domain that an enrolment of `rawHost` returned, and of what the tenant is shown. -/
structure Enrolled (U : UseCase) (tenantID : UUID) (rawHost : String) (res : EnrollResult) (d : Domain) : Prop where
  tenant : tenantID ≠ UUID.Nil ∧ d.tenantID = tenantID
  host : normalizeHost U.tables rawHost = .ok d.host
  token : ∃ bytes, d.verificationToken = tokenText bytes
  pending : d.verifiedAt = none ∧ d.deletedAt = none
  shown : res.txtRecord = txtRecordFor d.host ∧ res.txtValue = txtValueFor d.verificationToken

theorem enroll_enrolled {U : UseCase} {tenantID : UUID} {rawHost : String} {s : DomainDB} :
    (enroll U tenantID rawHost).Ensures exec s fun _ a s' => ∀ d, a.1.domain = some d → d ∈ s'.rows ∧ Enrolled U tenantID rawHost a.1 d := by
  simp only [enroll, send_bind, pure_eq]
  split_ifs with hnil
  · exact .ret (by rintro d ⟨⟩)
  cases hhost : normalizeHost U.tables rawHost with
  | error e => exact .ret (by rintro d ⟨⟩)
  | ok host =>
  refine .bind (R := fun _ _ _ => True) (fun _ _ _ _ => trivial) fun _ r s₁ _ => ?_
  cases r with
  | error e => exact .ret (by rintro d ⟨⟩)
  | ok =>
  refine .bind (R := fun _ _ _ => True) (fun _ _ _ _ => trivial) fun _ dec s₂ _ => ?_
  cases dec.err with
  | some e => exact .ret (by rintro d ⟨⟩)
  | none =>
  dsimp only
  split_ifs
  · simp only [defaultTokenGen, send_bind, ask_bind, pure_eq]
    refine .ask fun r s₃ _ => ?_
    cases r with
    | error e => exact .ret (by rintro d ⟨⟩)
    | ok bytes =>
    refine .ask fun now s₄ _ => .ask fun id s₅ _ => .ask fun r s₆ he => ?_
    cases r with
    | error e => exact .ret (by rintro d ⟨⟩)
    | ok saved =>
    obtain ⟨rfl, hrows⟩ := DomainDB.insert_ok (Tx.of_ok he)
    refine .ret ?_
    rintro d ⟨⟩
    exact ⟨by simp [hrows], ⟨hnil, rfl⟩, hhost, ⟨bytes, rfl⟩, ⟨rfl, rfl⟩, rfl, rfl⟩
  · exact .ret (by rintro d ⟨⟩)

/-! ## Verification without failures -/

/-- The table and the ports without failures: the lookups answer as the functions say, the clock reads a time in `clock`. -/
def steady (lookupIP : String → Except Err (List Validation.IPAnswer)) (lookupTXT : String → Except Err (List String)) (clock : Time → Prop) :
    (q : Req) → DomainDB → Resp q → DomainDB → Prop
  | .clock, s, r, s' => clock r ∧ s' = s
  | .lookupIP host, s, r, s' => r = lookupIP host ∧ s' = s
  | .lookupTXT name, s, r, s' => r = lookupTXT name ∧ s' = s
  | .activeCount tenantID, s, r, s' => r = .ok (s.activeCount tenantID : ℤ) ∧ s' = s
  | .getByID id, s, r, s' => r = s.getByID id ∧ s' = s
  | .probe id, s, r, s' => r = .ok (s.probe id) ∧ s' = s
  | .insert d, s, r, s' => (r, s') = Tx.run s (s.insert d)
  | .update id u, s, r, s' => (r, s') = Tx.run s (s.update id u)
  | .newUUID, s, _, s' => s' = s
  | .random, s, r, s' => (∃ bytes, r = .ok bytes) ∧ s' = s
  | .countAndRecord _ _ _, s, r, s' => (∃ n, r = .ok n) ∧ s' = s
  | .isOpen _ _, s, r, s' => (∃ b, r = .ok b) ∧ s' = s
  | .releaseSlug _ _, s, r, s' => r = .ok () ∧ s' = s

section Steady

variable {lookupIP : String → Except Err (List Validation.IPAnswer)} {lookupTXT : String → Except Err (List String)} {clock : Time → Prop}
  {s : DomainDB} {d : Domain}

theorem get_steady (hd : d ∈ s.rows) (hnil : d.tenantID ≠ UUID.Nil) :
    (get d.tenantID d.id).Ensures (steady lookupIP lookupTXT clock) s fun _ x s' => x = .ok d ∧ s' = s := by
  simp only [get, send_bind, pure_eq, if_neg hnil]
  refine .ask fun r s' he => ?_
  obtain ⟨rfl, rfl⟩ : r = s.getByID d.id ∧ s' = s := he
  rw [DomainDB.getByID_of_mem hd]
  dsimp only
  rw [if_neg (not_not.mpr rfl)]
  exact .ret ⟨rfl, rfl⟩

variable {answers : List Validation.IPAnswer}

theorem dnsChecker_steady (U : UseCase) {host token : String} {txts : List String} (hhost : PlainHost host) (htoken : trimSpace token ≠ "")
    (hip : lookupIP host = .ok answers) (htxt : lookupTXT (txtRecordFor host) = .ok txts) (h : Validation.Passes answers txts token) :
    (dnsChecker U host token).Ensures (steady lookupIP lookupTXT clock) s fun _ x s' => (∃ res, x = .ok res) ∧ s' = s := by
  have hname : trimSpace (U.tables.lower host) = host := by rw [hhost.lower, hhost.trimSpace]
  refine .bind (Prog.Ensures.embed ?_ (Validation.validate_of_passes (by rw [hname]; exact hhost.ne_empty) htoken ?_ ?_ h)) ?_
  · intro q s r s' he
    cases q <;> exact he.2
  · rintro _ r _ ⟨r', rfl, he⟩
    rw [hname] at he
    exact he.1.trans hip
  · rintro _ r _ ⟨r', rfl, he⟩
    rw [hname] at he
    exact he.1.trans htxt
  · rintro l x s₁ ⟨⟨res, rfl⟩, rfl⟩
    exact .ret ⟨⟨_, rfl⟩, rfl⟩

theorem markVerified_steady {t : Time} {dnssec : Bool} {log : Option UUID} (hd : d ∈ s.rows) (hdel : d.deletedAt = none) :
    (Port.markVerified d.id d.verificationToken t dnssec log).Ensures (steady lookupIP lookupTXT clock) s fun _ x s' =>
      ∃ d', x = .ok d' ∧ d' ∈ s'.rows ∧ d'.id = d.id ∧ d'.verifiedAt = some (timestamptz t) := by
  have hguard : (Update.markVerified d.verificationToken t dnssec log).guard d = true := by simp [Update.guard, Domain.active, hdel]
  simp only [Port.markVerified, send_bind, pure_eq]
  refine .ask fun r s' he => ?_
  have he : (r, s') = Tx.run s (s.update d.id (.markVerified d.verificationToken t dnssec log)) := he
  rw [DomainDB.update_of_mem hd hguard] at he
  obtain ⟨rfl, rfl⟩ := Prod.mk.inj he
  refine .ret ⟨_, rfl, ?_, rfl, rfl⟩
  refine mem_map.mpr ⟨d, hd, ?_⟩
  rw [Update.apply, if_pos ⟨rfl, hguard⟩]

theorem verify_steady {U : UseCase} (hdns : U.dns = true) {txts : List String} (hd : d ∈ s.rows) (hnil : d.tenantID ≠ UUID.Nil)
    (hver : d.verifiedAt = none) (hdel : d.deletedAt = none) (hhost : PlainHost d.host) (htoken : trimSpace d.verificationToken ≠ "")
    (hclock : ∀ t, clock t → t - d.tokenIssuedAt ≤ U.tokenTTL) (hip : lookupIP d.host = .ok answers)
    (htxt : lookupTXT (txtRecordFor d.host) = .ok txts) (h : Validation.Passes answers txts d.verificationToken) :
    (verify U d.tenantID d.id).Ensures (steady lookupIP lookupTXT clock) s fun _ a s' =>
      a.1.verified = true ∧ a.2 = none ∧ ∃ d' ∈ s'.rows, d'.id = d.id ∧ d'.verifiedAt ≠ none := by
  refine .bind (get_steady hd hnil) ?_
  rintro l x s₁ ⟨rfl, rfl⟩
  simp only [send_bind, pure_eq, hver, ne_eq, not_true_eq_false, if_false, hdns]
  refine .ask fun now s₂ he => ?_
  obtain ⟨hnow, rfl⟩ : clock now ∧ s₂ = s₁ := he
  rw [if_neg (not_lt.mpr (hclock now hnow))]
  refine .bind (dnsChecker_steady U hhost htoken hip htxt h) ?_
  rintro l₂ x s₃ ⟨⟨res, rfl⟩, rfl⟩
  refine .bind (markVerified_steady hd hdel) ?_
  rintro l₃ x s₄ ⟨d', rfl, hd', hid, hver'⟩
  exact .ret ⟨rfl, rfl, d', hd', hid, by rw [hver']; exact Option.some_ne_none _⟩

theorem steady_serve (E : Ports) (hnow : clock E.now) (q : Req) (s : DomainDB) :
    steady E.lookupIP E.lookupTXT clock q s (serve E q s).1 (serve E q s).2 := by
  cases q with
  | clock => exact ⟨hnow, rfl⟩
  | random => exact ⟨⟨_, rfl⟩, rfl⟩
  | countAndRecord tenantID window now => exact ⟨⟨_, rfl⟩, rfl⟩
  | isOpen tenantID now => exact ⟨⟨_, rfl⟩, rfl⟩
  | newUUID => rfl
  | insert d => rfl
  | update id u => rfl
  | _ => exact ⟨rfl, rfl⟩

end Steady

def shopEnrolment : (EnrollResult × Option Err) × DomainDB :=
  (enroll fullyWired 7 "Shop.Example.com").eval (serve (publicPorts [])) emptyDB

def shopDomain : Domain :=
  ⟨1, 7, "shop.example.com", "00000000000000000000000000000006", none, false, none, none, none, 1000, 1000, 1000⟩

def shopPorts : Ports := publicPorts [" 00000000000000000000000000000006 "]

end Crm.CustomDomain
