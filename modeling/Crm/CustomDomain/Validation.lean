import Crm.Basic
import Crm.Lib.Interleave
import Crm.Lib.Netip
import Crm.Lib.Text

/-!
# Crm.CustomDomain.Validation — proof of ownership and the private networks

`Validator.Validate` of `internal/customdomain/validation`: a host is accepted when it resolves to addresses none of which lies in a
private network, and a TXT record below it carries the verification token.  The clock and the two DNS lookups are requests; what the
resolver answers to them is arbitrary.
-/

namespace Crm.CustomDomain.Validation

open Interleave Netip Text List Prog

/-! ## The block list -/

def blockedPrefixes : List Prefix :=
  [.v4 (ip4 10 0 0 0) 8, .v4 (ip4 172 16 0 0) 12, .v4 (ip4 192 168 0 0) 16, .v4 (ip4 127 0 0 0) 8, .v4 (ip4 169 254 0 0) 16,
    .v4 (ip4 100 64 0 0) 10, .v4 (ip4 0 0 0 0) 8, .v4 (ip4 224 0 0 0) 4,
    -- ::1/128, fc00::/7 and fe80::/10
    .v6 1 128, .v6 (0xfc00 <<< 112) 7, .v6 (0xfe80 <<< 112) 10]

def isBlocked (ip : Addr) : Bool :=
  if ¬ ip.isValid then true
  else blockedPrefixes.any fun p => p.contains ip.unmap

theorem blockedPrefixes_valid : ∀ p ∈ blockedPrefixes, p.isValid = true := by decide

/-- An address, whatever its zone, lies in a network of the block list; an IPv4-mapped one with its IPv4 address. -/
def Listed (ip : Addr) : Prop := ∃ p ∈ blockedPrefixes, p.Has ip.unmap

instance (ip : Addr) : Decidable (Listed ip) := inferInstanceAs (Decidable (∃ p ∈ blockedPrefixes, p.Has ip.unmap))

theorem isBlocked_v4 (a : BitVec 32) : isBlocked (.v4 a) = true ↔ ∃ p ∈ blockedPrefixes, p.Has (.v4 a) := by
  simp only [isBlocked, Addr.isValid, not_true_eq_false, if_false, any_eq_true]
  exact exists_congr fun p => and_congr_right fun hp => Prefix.contains_v4_iff (blockedPrefixes_valid p hp)

theorem isBlocked_v6 {a : BitVec 128} {zone : String} (h : (Addr.v6 a zone).embedded = none) :
    isBlocked (.v6 a zone) = true ↔ zone = "" ∧ ∃ p ∈ blockedPrefixes, p.Has (.v6 a zone) := by
  have hunmap : (Addr.v6 a zone).unmap = .v6 a zone := by rw [Addr.unmap, h]
  simp only [isBlocked, Addr.isValid, not_true_eq_false, if_false, any_eq_true, hunmap]
  constructor
  · rintro ⟨p, hp, hc⟩
    obtain ⟨hz, hhas⟩ := (Prefix.contains_v6_iff (blockedPrefixes_valid p hp)).mp hc
    exact ⟨hz, p, hp, hhas⟩
  · rintro ⟨hz, p, hp, hhas⟩
    exact ⟨p, hp, (Prefix.contains_v6_iff (blockedPrefixes_valid p hp)).mpr ⟨hz, hhas⟩⟩

theorem isBlocked_mapped {a : BitVec 128} {zone : String} {e : BitVec 32} (h : (Addr.v6 a zone).embedded = some e) :
    isBlocked (.v6 a zone) = isBlocked (.v4 e) := by
  have hunmap : (Addr.v6 a zone).unmap = .v4 e := by rw [Addr.unmap, h]
  rw [isBlocked, hunmap]
  rfl

/-- An address with a zone, other than an IPv4-mapped one. -/
def Zoned (ip : Addr) : Prop := ∃ a zone, ip = .v6 a zone ∧ zone ≠ "" ∧ ip.embedded = none

/-- **What is blocked**: the invalid address, and the listed addresses without a zone. -/
theorem isBlocked_iff (ip : Addr) : isBlocked ip = true ↔ ip = .invalid ∨ (¬ Zoned ip ∧ Listed ip) := by
  cases ip with
  | invalid => simp [isBlocked, Addr.isValid]
  | v4 a =>
    rw [isBlocked_v4]
    simp [Zoned, Listed, Addr.unmap, Addr.embedded]
  | v6 a zone =>
  cases h : (Addr.v6 a zone).embedded with
  | none =>
    rw [isBlocked_v6 h]
    simp [Zoned, Listed, Addr.unmap, h]
  | some e =>
  rw [isBlocked_mapped h, isBlocked_v4]
  simp [Zoned, Listed, Addr.unmap, h]

/-! ## The resolver -/

structure IPAnswer where
  ip : Addr
  verifiedWithDNSSEC : Bool
  deriving DecidableEq, Repr

inductive Req : Type
  | clock
  | lookupIP (host : String)
  | lookupTXT (name : String)

abbrev Resp : Req → Type
  | .clock => Time
  | .lookupIP _ => Except Err (List IPAnswer)
  | .lookupTXT _ => Except Err (List String)

abbrev Client (α : Type) : Type := Prog Req Resp α

namespace Port

abbrev clock : Client Time := .send Req.clock

abbrev lookupIP (host : String) : Client (Except Err (List IPAnswer)) := .send (Req.lookupIP host)

abbrev lookupTXT (name : String) : Client (Except Err (List String)) := .send (Req.lookupTXT name)

end Port

/-! ## The validator -/

structure Result where
  ip : Addr
  verifiedAt : Time
  verifiedWithDNSSEC : Bool
  deriving DecidableEq, Repr

def txtSubdomain : String := "_crm-verify."

/-- The loop over the answers: any blocked one ends it, the first is kept, and one unsigned answer clears the flag. -/
def scanAnswers (dnssecForPick : Bool) (pick : Option IPAnswer) : List IPAnswer → Except Err (Bool × Option IPAnswer)
  | [] => .ok (dnssecForPick, pick)
  | a :: answers =>
    if isBlocked a.ip then .error .validationPrivateIP
    else scanAnswers (dnssecForPick && a.verifiedWithDNSSEC) (pick.or (some a)) answers

def containsToken (txts : List String) (expected : String) : Bool := txts.any fun t => trimSpace t = expected

def quote (s : String) : String := "\"" ++ s ++ "\""

def validate (T : CaseTables) (host expectedToken : String) : Client (Except Err Result) := do
  let host := trimSpace (T.lower host)
  let expectedToken := trimSpace expectedToken
  let now ← Port.clock
  if host = "" then return .error .validationEmptyHost
  if expectedToken = "" then return .error .validationEmptyToken
  match ← Port.lookupIP host with
  | .error e => return .error (.wrap ("validation: lookup IP for " ++ quote host) e)
  | .ok answers =>
    if answers = [] then return .error .validationNoAddress
    match scanAnswers true none answers with
    | .error e => return .error e
    | .ok (dnssecForPick, pick) =>
      match ← Port.lookupTXT (txtSubdomain ++ host) with
      | .error e => return .error (.wrap ("validation: lookup TXT for " ++ quote (txtSubdomain ++ host)) e)
      | .ok txts =>
        if ¬ containsToken txts expectedToken then return .error .validationTokenMismatch
        return .ok ⟨(pick.map IPAnswer.ip).getD .invalid, now, dnssecForPick⟩

/-- `ValidateHostOnly`: the check of an enrolment, before there is a TXT record. -/
def validateHostOnly (T : CaseTables) (host : String) : Client (Except Err Unit) := do
  let host := trimSpace (T.lower host)
  let _ ← Port.clock
  if host = "" then return .error .validationEmptyHost
  match ← Port.lookupIP host with
  | .error e => return .error (.wrap ("validation: lookup IP for " ++ quote host) e)
  | .ok answers =>
    if answers = [] then return .error .validationNoAddress
    if answers.any fun a => isBlocked a.ip then return .error .validationPrivateIP
    return .ok ()

theorem scanAnswers_ok_iff {d d' : Bool} {p p' : Option IPAnswer} {l : List IPAnswer} :
    scanAnswers d p l = .ok (d', p') ↔
      (∀ a ∈ l, isBlocked a.ip = false) ∧ d' = (d && l.all IPAnswer.verifiedWithDNSSEC) ∧ p' = p.or l.head? := by
  induction l generalizing d p with
  | nil => simp [scanAnswers, @eq_comm _ d', @eq_comm _ p']
  | cons a l ih =>
    by_cases hb : isBlocked a.ip = true
    · simp [scanAnswers, hb]
    · rw [scanAnswers, if_neg hb, ih]
      simp only [Bool.not_eq_true] at hb
      cases p <;> simp [hb, Bool.and_assoc]

theorem containsToken_iff {txts : List String} {expected : String} : containsToken txts expected = true ↔ ∃ t ∈ txts, trimSpace t = expected := by
  simp [containsToken]

/-! ## Answers that change -/

section Answers

variable {S : Type} {exec : (q : Req) → S → Resp q → S → Prop} {T : CaseTables} {host expectedToken : String} {s : S}

/-- Addresses and TXT values that pass the check for `token`. -/
structure Passes (answers : List IPAnswer) (txts : List String) (token : String) : Prop where
  resolved : answers ≠ []
  unblocked : ∀ a ∈ answers, isBlocked a.ip = false
  proof : ∃ t ∈ txts, trimSpace t = trimSpace token

theorem validate_passes : (validate T host expectedToken).Ensures exec s fun l a _ => ∀ res, a = .ok res →
    ∃ answers txts pre post pre' post', ⟨.lookupIP (trimSpace (T.lower host)), .ok answers, pre, post⟩ ∈ l ∧
      ⟨.lookupTXT (txtSubdomain ++ trimSpace (T.lower host)), .ok txts, pre', post'⟩ ∈ l ∧ Passes answers txts expectedToken := by
  simp only [validate, send_bind, pure_eq]
  refine .ask fun now s₁ _ => ?_
  split_ifs
  · exact .ret (by rintro _ ⟨⟩)
  · exact .ret (by rintro _ ⟨⟩)
  refine .ask fun r s₂ _ => ?_
  cases r with
  | error e => exact .ret (by rintro _ ⟨⟩)
  | ok answers =>
  dsimp only
  split_ifs with hne
  · exact .ret (by rintro _ ⟨⟩)
  cases hscan : scanAnswers true none answers with
  | error e => exact .ret (by rintro _ ⟨⟩)
  | ok x =>
  refine .ask fun r' s₃ _ => ?_
  cases r' with
  | error e => exact .ret (by rintro _ ⟨⟩)
  | ok txts =>
  dsimp only
  split_ifs with htoken
  · exact .ret fun res _ => ⟨answers, txts, s₁, s₂, s₂, s₃, by simp, by simp, hne, (scanAnswers_ok_iff.mp hscan).1,
      containsToken_iff.mp htoken⟩
  · exact .ret (by rintro _ ⟨⟩)

theorem validate_of_passes {answers : List IPAnswer} {txts : List String} (hhost : trimSpace (T.lower host) ≠ "")
    (htoken : trimSpace expectedToken ≠ "") (hip : ∀ s r s', exec (.lookupIP (trimSpace (T.lower host))) s r s' → r = .ok answers)
    (htxt : ∀ s r s', exec (.lookupTXT (txtSubdomain ++ trimSpace (T.lower host))) s r s' → r = .ok txts)
    (h : Passes answers txts expectedToken) : (validate T host expectedToken).Ensures exec s fun _ a _ => ∃ res, a = .ok res := by
  have hscan := (scanAnswers_ok_iff (d := true) (p := none)).mpr ⟨h.unblocked, rfl, rfl⟩
  have hcont := containsToken_iff.mpr h.proof
  simp only [validate, send_bind, pure_eq]
  refine .ask fun now s₁ _ => ?_
  rw [if_neg hhost, if_neg htoken]
  refine .ask fun r s₂ he => ?_
  obtain rfl := hip _ _ _ he
  dsimp only
  rw [if_neg h.resolved, hscan]
  refine .ask fun r' s₃ he' => ?_
  obtain rfl := htxt _ _ _ he'
  dsimp only
  rw [if_neg (not_not.mpr hcont)]
  exact .ret ⟨_, rfl⟩

end Answers

/-! ## Answers that do not change -/

/-- A resolver and a clock that answer every request alike. -/
structure Resolver where
  now : Time
  lookupIP : String → Except Err (List IPAnswer)
  lookupTXT : String → Except Err (List String)

def Resolver.serve (R : Resolver) : (q : Req) → Unit → Resp q × Unit
  | .clock, _ => (R.now, ())
  | .lookupIP host, _ => (R.lookupIP host, ())
  | .lookupTXT name, _ => (R.lookupTXT name, ())

def Resolver.validate (R : Resolver) (T : CaseTables) (host expectedToken : String) : Except Err Result :=
  ((Validation.validate T host expectedToken).eval R.serve ()).1

/-- **When the check succeeds, and with what.** -/
theorem Resolver.validate_ok_iff (R : Resolver) (T : CaseTables) (host expectedToken : String) (res : Result) :
    R.validate T host expectedToken = .ok res ↔
      trimSpace (T.lower host) ≠ "" ∧ trimSpace expectedToken ≠ "" ∧ ∃ answers txts,
        R.lookupIP (trimSpace (T.lower host)) = .ok answers ∧ R.lookupTXT (txtSubdomain ++ trimSpace (T.lower host)) = .ok txts ∧
        answers ≠ [] ∧ (∀ a ∈ answers, isBlocked a.ip = false) ∧ (∃ t ∈ txts, trimSpace t = trimSpace expectedToken) ∧
        res = ⟨(answers.head?.map IPAnswer.ip).getD .invalid, R.now, answers.all IPAnswer.verifiedWithDNSSEC⟩ := by
  unfold Resolver.validate
  generalize hhost : trimSpace (T.lower host) = h
  generalize htok : trimSpace expectedToken = k
  simp only [Validation.validate, send_bind, pure_eq, hhost, htok, eval_ask, Resolver.serve]
  by_cases hempty : h = ""
  · simp [hempty]
  by_cases htoken : k = ""
  · simp [hempty, htoken]
  rw [if_neg hempty, if_neg htoken, eval_ask]
  simp only [Resolver.serve]
  cases hip : R.lookupIP h with
  | error e => simp
  | ok answers =>
  dsimp only
  by_cases hnil : answers = []
  · simp [hnil]
  rw [if_neg hnil]
  cases hscan : scanAnswers true none answers with
  | error e =>
    have hnone : ¬ ∀ a ∈ answers, isBlocked a.ip = false := by
      intro hall
      have hok := (scanAnswers_ok_iff (d := true) (p := none)).mpr ⟨hall, rfl, rfl⟩
      rw [hscan] at hok
      cases hok
    simp only [eval_ret, reduceCtorEq, false_iff]
    rintro ⟨-, -, answers', txts, hans, -, -, hall, -⟩
    cases hans
    exact hnone hall
  | ok x =>
  obtain ⟨d, p⟩ := x
  obtain ⟨hall, rfl, rfl⟩ := scanAnswers_ok_iff.mp hscan
  dsimp only
  rw [eval_ask]
  simp only [Resolver.serve]
  cases htxt : R.lookupTXT (txtSubdomain ++ h) with
  | error e => simp
  | ok txts =>
  dsimp only
  by_cases hcont : containsToken txts k = true
  · have hmem := containsToken_iff.mp hcont
    simp only [hcont, not_true_eq_false, if_false, eval_ret, Except.ok.injEq]
    constructor
    · rintro rfl
      exact ⟨hempty, htoken, answers, txts, rfl, rfl, hnil, hall, hmem, by simp⟩
    rintro ⟨-, -, answers', txts', hans, htx, -, -, -, rfl⟩
    cases hans
    cases htx
    simp
  have hmem := fun h => hcont (containsToken_iff.mpr h)
  simp only [hcont, not_false_eq_true, if_true, eval_ret, reduceCtorEq, false_iff]
  rintro ⟨-, -, answers', txts', -, htx, -, -, hm, -⟩
  cases htx
  exact hmem hm

/-- **The check is exact.**  It succeeds when host and token are not blank, both lookups answer, there is an answer, every answer is a valid
address and those without a zone lie in no network of the block list, and a TXT value is the token; it then returns the first answer and
the conjunction of the DNSSEC flags.  Blocked are an IPv4 address in a listed network, an IPv4-mapped address with its IPv4 address, any
other IPv6 address without a zone in a listed network, and the invalid address. -/
theorem validate_exact (R : Resolver) (T : CaseTables) (host expectedToken : String) :
    ((∃ res, R.validate T host expectedToken = .ok res) ↔
      trimSpace (T.lower host) ≠ "" ∧ trimSpace expectedToken ≠ "" ∧ ∃ answers txts,
        R.lookupIP (trimSpace (T.lower host)) = .ok answers ∧ R.lookupTXT (txtSubdomain ++ trimSpace (T.lower host)) = .ok txts ∧
        answers ≠ [] ∧ (∀ a ∈ answers, a.ip ≠ .invalid ∧ (Zoned a.ip ∨ ¬ Listed a.ip)) ∧
        ∃ t ∈ txts, trimSpace t = trimSpace expectedToken) ∧
    (∀ res, R.validate T host expectedToken = .ok res → ∃ a answers, R.lookupIP (trimSpace (T.lower host)) = .ok (a :: answers) ∧
      res.ip = a.ip ∧ res.verifiedWithDNSSEC = (a :: answers).all IPAnswer.verifiedWithDNSSEC) ∧
    (∀ a, isBlocked (.v4 a) = true ↔ ∃ p ∈ blockedPrefixes, p.Has (.v4 a)) ∧
    (∀ a zone e, (Addr.v6 a zone).embedded = some e → (isBlocked (.v6 a zone) = true ↔ ∃ p ∈ blockedPrefixes, p.Has (.v4 e))) ∧
    (∀ a, (Addr.v6 a "").embedded = none → (isBlocked (.v6 a "") = true ↔ ∃ p ∈ blockedPrefixes, p.Has (.v6 a ""))) ∧
    isBlocked .invalid = true := by
  have hblocked : ∀ ip, isBlocked ip = false ↔ ip ≠ .invalid ∧ (Zoned ip ∨ ¬ Listed ip) := by
    intro ip
    rw [← Bool.not_eq_true, isBlocked_iff]
    tauto
  refine ⟨?_, ?_, isBlocked_v4, ?_, ?_, rfl⟩
  · simp only [R.validate_ok_iff, hblocked]
    constructor
    · rintro ⟨res, hhost, htok, answers, txts, hip, htxt, hne, hall, hmem, -⟩
      exact ⟨hhost, htok, answers, txts, hip, htxt, hne, hall, hmem⟩
    · rintro ⟨hhost, htok, answers, txts, hip, htxt, hne, hall, hmem⟩
      exact ⟨_, hhost, htok, answers, txts, hip, htxt, hne, hall, hmem, rfl⟩
  · intro res h
    obtain ⟨-, -, answers, txts, hip, -, hne, -, -, rfl⟩ := (R.validate_ok_iff T host expectedToken res).mp h
    obtain ⟨a, l, rfl⟩ := exists_cons_of_ne_nil hne
    exact ⟨a, l, hip, rfl, rfl⟩
  · intro a zone e h
    rw [isBlocked_mapped h, isBlocked_v4]
  · intro a h
    rw [isBlocked_v6 h, and_iff_right rfl]

/-- A resolver that answers with one address, and with the token `t`. -/
def oneAnswer (ip : Addr) : Resolver := ⟨0, fun _ => .ok [⟨ip, false⟩], fun _ => .ok ["t"]⟩

/-- **Two unusual answers.**  The invalid address lies in no network of the list and is refused; `fe80::1%eth0` lies in one and is let
through. -/
theorem unusual_answers :
    (¬ Listed .invalid ∧ (oneAnswer .invalid).validate .ascii "a.example" "t" = .error .validationPrivateIP) ∧
    (Listed (.v6 ((0xfe80 <<< 112) + 1) "eth0") ∧ (oneAnswer (.v6 ((0xfe80 <<< 112) + 1) "eth0")).validate .ascii "a.example" "t" =
      .ok ⟨.v6 ((0xfe80 <<< 112) + 1) "eth0", 0, false⟩) := by
  refine ⟨⟨?_, ?_⟩, ?_, ?_⟩
  all_goals decide +kernel

end Crm.CustomDomain.Validation
