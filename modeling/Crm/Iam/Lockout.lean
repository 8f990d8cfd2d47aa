import Crm.Iam.Guesses

/-!
# Crm.Iam.Lockout — the rate-limit middleware in front of the lockout

`internal/adapter/httpapi/ratelimit` and the login handlers behind it.  A POST passes the IP bucket and the e-mail bucket of its policy, under the
e-mail as it was typed, and only then reaches the login, whose failures are counted under the normalised e-mail.
-/

namespace Crm.Iam

open Interleave Text SlidingWindow Unwinding Prog List

/-! ## The middleware -/

structure Post where
  host : Option String
  /-- The remote address without its port. -/
  ip : String
  /-- The form field as it was sent. -/
  email : String
  password : String
  req : RequestInfo
  deriving DecidableEq

abbrev KeyExtractor : Type := Post → String

def ipKeyExtractor : KeyExtractor := Post.ip

def emailExtractor : KeyExtractor := Post.email

/-- The checks of `New` at startup, and the buckets with their extractors. -/
def newMiddleware (policy : Policy) (buckets : List (String × KeyExtractor)) : Except Err (List (Bucket × KeyExtractor)) := do
  if policy.buckets = [] then throw (.other ("httpapi/ratelimit: policy " ++ quoted policy.name ++ " has no buckets"))
  if buckets.isEmpty then throw (.other ("httpapi/ratelimit: policy " ++ quoted policy.name ++ " has no extractors wired"))
  let pairs ← pair [] buckets
  match policy.buckets.find? fun b => !(buckets.map Prod.fst).contains b.name with
  | some b => throw (.other ("httpapi/ratelimit: policy " ++ quoted policy.name ++ " bucket " ++ quoted b.name ++ " has no extractor"))
  | none => return pairs
where
  /-- The loop over the extractors, with the names wired so far. -/
  pair : List String → List (String × KeyExtractor) → Except Err (List (Bucket × KeyExtractor))
    | _, [] => .ok []
    | wired, (name, extractor) :: buckets =>
      match policy.buckets.reverse.find? fun b => b.name = name with
      | none => .error (.other ("httpapi/ratelimit: policy " ++ quoted policy.name ++ " does not declare bucket " ++ quoted name))
      | some b =>
        if name ∈ wired then .error (.other ("httpapi/ratelimit: policy " ++ quoted policy.name ++ " bucket " ++ quoted name ++ " wired twice"))
        else do
          let rest ← pair (name :: wired) buckets
          return (b, extractor) :: rest

/-- The first bucket that is full, with the wait it suggests.  A bucket without a key is skipped, and so is one whose limiter fails. -/
def throttle (policyName : String) (p : Post) : List (Bucket × KeyExtractor) → Client (Option ℤ)
  | [] => return none
  | (b, extractor) :: pairs =>
    if extractor p = "" then throttle policyName p pairs
    else do
      match ← .send (Req.allow (policyName ++ ":" ++ b.name ++ ":" ++ extractor p) b.window b.max) with
      | .error _ => throttle policyName p pairs
      | .ok (true, _) => throttle policyName p pairs
      | .ok (false, retryAfter) => return some retryAfter

def retryAfterSeconds (retryAfter : ℤ) : ℤ := max ((retryAfter + 999999999) / second) 1

/-- `429` with its `Retry-After`, or the result of the login. -/
inductive Response : Type
  | rateLimited (seconds : ℤ)
  | login (result : Except Err Session)
  deriving DecidableEq

variable (Δ : Deployment)

def Post.policy (p : Post) : Policy :=
  match p.host with
  | some _ => Δ.login
  | none => Δ.mLogin

/-- The call of the handler.  Only that of the tenants trims the e-mail. -/
def Post.call (p : Post) : Call :=
  match p.host with
  | some host => .login host (trimSpace p.email) p.password p.req
  | none => .masterLogin p.email p.password p.req

/-- The middleware of both entries, as the router builds it at startup. -/
structure Front where
  login : List (Bucket × KeyExtractor)
  mLogin : List (Bucket × KeyExtractor)

def extractors : List (String × KeyExtractor) := [("ip", ipKeyExtractor), ("email", emailExtractor)]

def newFront : Except Err Front := do
  let login ← newMiddleware Δ.login extractors
  let mLogin ← newMiddleware Δ.mLogin extractors
  return ⟨login, mLogin⟩

def Front.pairs (F : Front) (p : Post) : List (Bucket × KeyExtractor) :=
  match p.host with
  | some _ => F.login
  | none => F.mLogin

def servePost (F : Front) (p : Post) : Client Response := do
  match ← throttle (p.policy Δ).name p (F.pairs p) with
  | some retryAfter => return .rateLimited (retryAfterSeconds retryAfter)
  | none =>
    let result ← body Δ p.call
    return .login result

/-! ## Timed sequences of POSTs -/

def failedCheck (x : Exchange Req Resp LockDB) : Bool :=
  match x with
  | ⟨.verifyPassword _ _, .ok (true, _), _, _⟩ => false
  | ⟨.verifyPassword _ _, _, _, _⟩ => true
  | _ => false

def locksOut (x : Exchange Req Resp LockDB) : Bool :=
  match x with
  | ⟨.lock _ _ _ _, .ok (), _, _⟩ => true
  | _ => false

/-- The POST reaches the login and fails the password check. -/
def fails (F : Front) (a : Env × Post) (db : LockDB) : Bool := ((servePost Δ F a.2).served (serve Δ a.1) db).any failedCheck

def post (F : Front) (a : Env × Post) (db : LockDB) : Response × LockDB := (servePost Δ F a.2).eval (serve Δ a.1) db

def posts (F : Front) (l : List (Env × Post)) (db : LockDB) : LockDB := l.foldl (fun db a => (post Δ F a db).2) db

def failures (F : Front) : List (Env × Post) → LockDB → List Time
  | [], _ => []
  | a :: l, db => (if fails Δ F a db = true then [a.1.now] else []) ++ failures F l (post Δ F a db).2

/-! ## What one POST does -/

variable (u : User)

def atInstant (E : Env) (q : Req) (db : LockDB) (r : Resp q) (db' : LockDB) : Prop := (r, db') = serve Δ E q db

def hit (E : Env) (db : LockDB) : Bool × List ℤ :=
  accept (span Δ u) (policyOf Δ u).lockout.threshold (unixMilli E.now) (db.redis (failedLoginKey Δ u.email))

/-- What a POST for the account of `u` does to its counter and its lockout, and whether it has failed the password check. -/
inductive Effect (E : Env) (db : LockDB) : Bool → LockDB → Prop
  | idle {db' : LockDB} (hcount : db'.redis (failedLoginKey Δ u.email) = db.redis (failedLoginKey Δ u.email))
      (hrow : db'.lockouts u.id = db.lockouts u.id) : Effect E db false db'
  | cleared {db' : LockDB} (hcount : db'.redis (failedLoginKey Δ u.email) = db.redis (failedLoginKey Δ u.email))
      (hfree : db.isLocked u.tenantID u.id E.now = none) (hrow : db'.lockouts u.id = none) : Effect E db false db'
  | counted {db' : LockDB} (hfree : db.isLocked u.tenantID u.id E.now = none) (hin : (hit Δ u E db).1 = true)
      (hcount : db'.redis (failedLoginKey Δ u.email) = (hit Δ u E db).2) (hrow : db'.lockouts u.id = db.lockouts u.id) : Effect E db true db'
  | locked {db' : LockDB} {row : LockoutRow} (hfree : db.isLocked u.tenantID u.id E.now = none) (hin : (hit Δ u E db).1 = false)
      (hcount : db'.redis (failedLoginKey Δ u.email) = (hit Δ u E db).2) (hrow : db'.lockouts u.id = some row)
      (hscope : row.tenantID = u.tenantID) (huntil : row.lockedUntil = timestamptz (E.now + (policyOf Δ u).lockout.duration)) :
      Effect E db true db'

/-- The effect of these requests, of which a lockout is written only after a failed check that finds the counter full. -/
def Does (E : Env) (db : LockDB) (l : List (Exchange Req Resp LockDB)) (db' : LockDB) : Prop :=
  Effect Δ u E db (l.any failedCheck) db' ∧ (l.any locksOut = true → l.any failedCheck = true ∧ (hit Δ u E db).1 = false)

section Effects

variable {Δ u} {E : Env} {db : LockDB} {α : Type}

theorem serve_quiet {q : Req} (hq : Quiet q = true) (E : Env) (db : LockDB) : (serve Δ E q db).2 = db := by
  cases q with
  | isLocked _ _ => cases hq
  | lock _ _ _ _ => cases hq
  | clear _ _ => cases hq
  | allow _ _ _ => cases hq
  | verifyPassword _ _ => cases hq
  | _ => rfl

theorem checks_of_quiet {q : Req} (hq : Quiet q = true) (r : Resp q) (db db' : LockDB) :
    failedCheck ⟨q, r, db, db'⟩ = false ∧ locksOut ⟨q, r, db, db'⟩ = false := by
  cases q with
  | verifyPassword _ _ => cases hq
  | lock _ _ _ _ => cases hq
  | _ => exact ⟨rfl, rfl⟩

theorem ensures_quiet : ∀ {p : Client α} {db : LockDB}, p.Sends (fun q => Quiet q = true) →
    Ensures (atInstant Δ E) p db fun l _ db' => db' = db ∧ l.any failedCheck = false ∧ l.any locksOut = false
  | .ret _, _, _ => .ret ⟨rfl, rfl, rfl⟩
  | .ask q k, db, hp => by
    refine .ask fun r db' he => ?_
    have hdb : db' = db := (congrArg Prod.snd he).trans (serve_quiet (hp r).1 E db)
    obtain ⟨hfailed, hlocks⟩ := checks_of_quiet (hp r).1 r db db'
    refine (ensures_quiet (hp r).2).mono fun l _ _ h => ⟨h.1.trans hdb, ?_, ?_⟩
    · rw [any_cons, hfailed, h.2.1]
      rfl
    · rw [any_cons, hlocks, h.2.2]
      rfl

theorem ensures_throttle {policyName : String} {p : Post} {key : String} (hkey : ∀ x, policyName ++ x ≠ key) :
    ∀ {pairs : List (Bucket × KeyExtractor)} {db : LockDB}, Ensures (atInstant Δ E) (throttle policyName p pairs) db fun l _ db' =>
      db'.redis key = db.redis key ∧ db'.lockouts = db.lockouts ∧ l.any failedCheck = false
  | [], _ => .ret ⟨rfl, rfl, rfl⟩
  | (b, extractor) :: pairs, db => by
    rw [throttle]
    split_ifs
    · exact ensures_throttle hkey
    refine .ask fun r db' he => ?_
    have hred : db'.redis key = db.redis key := by
      rw [show db' = _ from congrArg Prod.snd he]
      refine Redis.allow_of_ne fun hk => hkey (":" ++ b.name ++ ":" ++ extractor p) ?_
      rw [hk]
      simp only [String.append_assoc]
    have hlock : db'.lockouts = db.lockouts := by rw [show db' = _ from congrArg Prod.snd he]; rfl
    have hrest : Ensures (atInstant Δ E) (throttle policyName p pairs) db' fun l _ db'' =>
        db''.redis key = db.redis key ∧ db''.lockouts = db.lockouts ∧ l.any failedCheck = false :=
      (ensures_throttle hkey).mono fun l a db'' h => ⟨h.1.trans hred, h.2.1.trans hlock, h.2.2⟩
    rcases r with e | ⟨_ | _, wait⟩
    · exact hrest
    · exact .ret ⟨hred, hlock, rfl⟩
    · exact hrest

/-- The effect is read off the counter and the row alone. -/
theorem Effect.of_same {db₁ db' : LockDB} {b : Bool} (hred : db₁.redis (failedLoginKey Δ u.email) = db.redis (failedLoginKey Δ u.email))
    (hlock : db₁.lockouts = db.lockouts) (h : Effect Δ u E db₁ b db') : Effect Δ u E db b db' := by
  have hfree : db₁.isLocked u.tenantID u.id E.now = db.isLocked u.tenantID u.id E.now := by rw [LockDB.isLocked, LockDB.isLocked, hlock]
  have hhit : hit Δ u E db₁ = hit Δ u E db := by rw [hit, hit, hred]
  cases h with
  | idle hcount hrow => exact .idle (hcount.trans hred) (hrow.trans (congrFun hlock _))
  | cleared hcount hf hrow => exact .cleared (hcount.trans hred) (hfree.symm.trans hf) hrow
  | counted hf hin hcount hrow =>
    exact .counted (hfree.symm.trans hf) (hhit ▸ hin) (hhit ▸ hcount) (hrow.trans (congrFun hlock _))
  | locked hf hin hcount hrow hscope huntil =>
  exact .locked (hfree.symm.trans hf) (hhit ▸ hin) (hhit ▸ hcount) hrow hscope huntil

theorem Effect.realm {db' : LockDB} {b : Bool} (h : Effect Δ u E db b db') (hrealm : Homed u db) :
    Homed u db' := by
  cases h with
  | idle _ hrow => exact fun row h => hrealm row (hrow ▸ h)
  | cleared _ _ hrow => simp [Homed, hrow]
  | counted _ _ _ hrow => exact fun row h => hrealm row (hrow ▸ h)
  | locked _ _ _ hrow hscope _ => simp [Homed, hrow, hscope]

variable {S : Service} {tenantID : UUID} {req : RequestInfo}

theorem ensures_recordLoginFailure {email : String} (hid : u.id ≠ UUID.Nil) (henabled : (policyOf Δ u).lockoutEnabled = true)
    (hnow : zeroTime ≤ E.now) (hrealm : Homed u db)
    (hfree : db.isLocked u.tenantID u.id E.now = none) (hS : Serves Δ u S) (hkey : failedLoginKey Δ email = failedLoginKey Δ u.email) :
    Ensures (atInstant Δ E) (recordLoginFailure Δ S tenantID u.id email req) db fun l _ db' =>
      Effect Δ u E db true db' ∧ (l.any locksOut = true → (hit Δ u E db).1 = false) := by
  obtain ⟨hn, hd⟩ := of_decide_eq_true henabled
  obtain ⟨lockouts, limiter, policy, alerter, masterUsers, rehash, ttl⟩ := S
  obtain ⟨(rfl : limiter = true), (rfl : policy = policyOf Δ u), (rfl : lockouts = some u.tenantID)⟩ := hS
  simp only [recordLoginFailure, send_bind, pure_eq, henabled]
  rw [if_neg (by simp)]
  refine .ask fun r db₁ he => ?_
  obtain ⟨wait, hallow⟩ := Redis.allow_eq (t := E.now) (R := db.redis) (failedLoginKey_ne_empty Δ email) hd hn
  simp only [atInstant, serve, hallow] at he
  rw [hkey] at he
  obtain ⟨hr, hdb⟩ := Prod.mk.inj he
  have hcount : db₁.redis (failedLoginKey Δ u.email) = (hit Δ u E db).2 := by
    rw [hdb]
    exact Function.update_self ..
  have hlock : db₁.lockouts = db.lockouts := by rw [hdb]
  cases hin : (hit Δ u E db).1 with
  | true =>
    obtain rfl : r = .ok (true, wait) := hr.trans (congrArg (fun b => Except.ok (b, wait)) hin)
    exact .ret ⟨.counted hfree hin hcount (congrFun hlock _), by rintro ⟨⟩⟩
  | false =>
  obtain rfl : r = .ok (false, wait) := hr.trans (congrArg (fun b => Except.ok (b, wait)) hin)
  refine .ask fun now db₂ he2 => ?_
  obtain ⟨rfl, rfl⟩ := Prod.mk.inj he2
  refine .ask fun r db₃ he3 => ?_
  have hz : E.now + (policyOf Δ u).lockout.duration ≠ zeroTime := ne_of_gt (lt_of_le_of_lt hnow (Int.lt_add_of_pos_right _ hd))
  obtain ⟨row, hscope, huntil, hput⟩ := LockDB.lock_eq
    ("ratelimit: " ++ toString (policyOf Δ u).lockout.threshold ++ " failed login attempts") hid hz (show Homed u db₂ from fun row h => hrealm row (hlock ▸ h))
  obtain ⟨rfl, hdb3⟩ := Prod.mk.inj (he3.trans hput)
  have heffect : Effect Δ u E db true db₃ := by
    refine .locked hfree hin ?_ ?_ hscope huntil
    · rw [hdb3]
      exact hcount
    · rw [hdb3]
      exact Function.update_self ..
  dsimp only
  split
  · refine .ask fun _ db₄ he4 => .ret ⟨?_, fun _ => rfl⟩
    obtain rfl : db₄ = db₃ := congrArg Prod.snd he4
    exact heffect
  · exact .ret ⟨heffect, fun _ => rfl⟩

theorem ensures_checkPassword {precheck : String} {email password : String} (hid : u.id ≠ UUID.Nil) (henabled : (policyOf Δ u).lockoutEnabled = true)
    (hnow : zeroTime ≤ E.now) (hrealm : Homed u db) (hS : Serves Δ u S)
    (hkey : failedLoginKey Δ email = failedLoginKey Δ u.email) :
    Ensures (atInstant Δ E) (checkPassword Δ S precheck tenantID u.id u.passwordHash email password req) db fun l _ db' => Does Δ u E db l db' := by
  simp only [checkPassword, isLocked, clear, hS.scope, send_bind, pure_eq]
  refine .ask fun r db₁ he => ?_
  obtain ⟨hr, hdb1⟩ := Prod.mk.inj he
  subst hdb1
  cases hfree : db₁.isLocked u.tenantID u.id E.now with
  | some lockedUntil =>
    obtain rfl : r = .ok (some lockedUntil) := hr.trans (congrArg Except.ok hfree)
    refine .ask fun _ db₂ he2 => .ret ?_
    obtain rfl : db₂ = db₁ := congrArg Prod.snd he2
    exact ⟨.idle rfl rfl, by rintro ⟨⟩⟩
  | none =>
  obtain rfl : r = .ok none := hr.trans (congrArg Except.ok hfree)
  refine .ask fun r db₂ he2 => ?_
  obtain ⟨rfl, rfl⟩ := Prod.mk.inj he2
  have hfail : Ensures (atInstant Δ E)
      (recordLoginFailure Δ S tenantID u.id email req >>= fun locked => .ret (.error (rejection locked) : Except Err Bool)) db₂
      fun l _ db' => Effect Δ u E db₂ true db' ∧ (l.any locksOut = true → true = true ∧ (hit Δ u E db₂).1 = false) :=
    Ensures.bind (ensures_recordLoginFailure hid henabled hnow hrealm hfree hS hkey) fun l _ _ h =>
      .ret ⟨h.1, fun hl => ⟨rfl, h.2 (append_nil l ▸ hl)⟩⟩
  rcases Δ.verify u.passwordHash password with e | ⟨_ | _, needsRehash⟩
  · exact hfail
  · exact hfail
  · refine .ask fun _ db₃ he3 => .ret ?_
    obtain rfl : db₃ = db₂.clear u.tenantID u.id := congrArg Prod.snd he3
    exact ⟨.cleared (congrFun (LockDB.clear_redis _ _) _) hfree (LockDB.clear_eq hrealm), by rintro ⟨⟩⟩

theorem sends_openSession {userID : UUID} {password : String} {needsRehash : Bool} :
    (openSession S tenantID userID password needsRehash req).Sends fun q => Quiet q = true := by
  simp only [openSession, resolveSessionRole, send_bind, pure_eq]
  refine .ask rfl fun r => ?_
  cases r with
  | error e => exact .ret _
  | ok id =>
  refine .ask rfl fun r => ?_
  cases r with
  | error e => exact .ret _
  | ok csrfToken =>
  refine .ask rfl fun now => .ask rfl fun r => Sends.bind ?_ fun role => .ask rfl fun r => ?_
  · rcases r with e | role
    · exact .ret _
    · cases role <;> exact .ret _
  cases r with
  | error e => exact .ret _
  | ok =>
  dsimp only
  split
  · exact .ask rfl fun _ => .ret _
  · exact .ret _

theorem ensures_body {c : Call} (henabled : (policyOf Δ u).lockoutEnabled = true) (hc : c.user Δ = some u) (hnow : zeroTime ≤ E.now)
    (hrealm : Homed u db) :
    Ensures (atInstant Δ E) (body Δ c) db fun l _ db' => Does Δ u E db l db' := by
  have hkey := Call.user_key hc
  have hrealmOf := (Call.user_realm hc).2
  -- what follows the check shows nothing
  have htail : ∀ {β : Type} {p : Client β} {l₁ : List (Exchange Req Resp LockDB)} {db₁ : LockDB},
      Does Δ u E db l₁ db₁ → p.Sends (fun q => Quiet q = true) → Ensures (atInstant Δ E) p db₁ fun l _ db' => Does Δ u E db (l₁ ++ l) db' := by
    intro β p l₁ db₁ h hp
    refine (ensures_quiet hp).mono fun l _ db' h' => ?_
    rw [Does, any_append, h'.2.1, Bool.or_false, any_append, h'.2.2, Bool.or_false, h'.1]
    exact h
  cases c with
  | login host email password req =>
    cases hhost : Δ.hosts host with
    | error e =>
      rw [Call.user, hhost] at hc
      cases hc
    | ok tenantID =>
    rw [Call.user, hhost] at hc
    rw [Call.realm, hhost] at hrealmOf
    have hfind : findUser Δ tenantID email = some u := hc
    have htenant : u.tenantID = some tenantID := (Option.some.inj hrealmOf).symm
    have hpolicy : (tenantService Δ tenantID).loginPolicy = policyOf Δ u := by rw [policyOf, htenant]; rfl
    simp only [body, iamAdapterLogin, login, send_bind, pure_eq]
    refine .ask fun r db₁ he => ?_
    obtain rfl : r = .ok tenantID := (congrArg Prod.fst he).trans hhost
    obtain rfl : db₁ = db := congrArg Prod.snd he
    dsimp only
    split
    · exact .ret ⟨.idle rfl rfl, by rintro ⟨⟩⟩
    refine .ask fun r db₂ he2 => ?_
    obtain rfl : r = .ok tenantID := (congrArg Prod.fst he2).trans hhost
    obtain rfl : db₂ = db₁ := congrArg Prod.snd he2
    refine .ask fun r db₃ he3 => ?_
    obtain rfl : r = .ok (u.id, u.passwordHash) :=
      (congrArg Prod.fst he3).trans (congrArg (fun o => Except.ok (credentials o)) hfind)
    obtain rfl : db₃ = db₂ := congrArg Prod.snd he3
    dsimp only
    split_ifs with hid
    · refine .ask fun _ db₄ he4 => .ret ?_
      obtain rfl : db₄ = db₃ := congrArg Prod.snd he4
      exact ⟨.idle rfl rfl, by rintro ⟨⟩⟩
    refine Ensures.bind (ensures_checkPassword hid henabled hnow hrealm ⟨rfl, hpolicy, congrArg some htenant.symm⟩ hkey) fun l₁ a db₄ h => ?_
    cases a with
    | error e => exact htail h (.ret _)
    | ok needsRehash => exact htail h sends_openSession
  | masterLogin email password req =>
  have hfind : findMaster Δ email = some u := hc
  have htenant : u.tenantID = none := (Option.some.inj hrealmOf).symm
  have hpolicy : (masterService Δ).loginPolicy = policyOf Δ u := by rw [policyOf, htenant]; rfl
  simp only [body, masterLogin, send_bind, pure_eq]
  rw [if_neg (by simp [masterService])]
  refine .ask fun r db₁ he => ?_
  obtain rfl : r = .ok (u.id, u.passwordHash) := (congrArg Prod.fst he).trans (congrArg (fun o => Except.ok (credentials o)) hfind)
  obtain rfl : db₁ = db := congrArg Prod.snd he
  dsimp only
  split_ifs with hid
  · refine .ask fun _ db₂ he2 => .ret ?_
    obtain rfl : db₂ = db₁ := congrArg Prod.snd he2
    exact ⟨.idle rfl rfl, by rintro ⟨⟩⟩
  refine Ensures.bind (ensures_checkPassword hid henabled hnow hrealm ⟨rfl, hpolicy, congrArg some htenant.symm⟩ hkey) fun l₁ a db₂ h => ?_
  cases a <;> exact htail h (.ret _)

theorem ensures_post {F : Front} {p : Post} (henabled : (policyOf Δ u).lockoutEnabled = true) (hp : p.call.user Δ = some u)
    (hname : ∀ x, (p.policy Δ).name ++ x ≠ failedLoginKey Δ u.email) (hnow : zeroTime ≤ E.now)
    (hrealm : Homed u db) :
    Ensures (atInstant Δ E) (servePost Δ F p) db fun l _ db' => Effect Δ u E db (l.any failedCheck) db' := by
  refine Ensures.bind (ensures_throttle hname) fun l₁ a db₁ h => ?_
  obtain ⟨hred, hlock, hquiet⟩ := h
  cases a with
  | some retryAfter =>
    refine .ret ?_
    rw [append_nil, hquiet]
    exact .idle hred (congrFun hlock _)
  | none =>
  refine Ensures.bind (ensures_body henabled hp hnow fun row h => hrealm row (hlock ▸ h)) fun l₂ result db₂ h2 => .ret ?_
  rw [append_nil, any_append, hquiet]
  exact h2.1.of_same hred hlock

end Effects

/-! ## Sequences of POSTs for one account -/

/-- Every failure of the log that is still in a window has been counted, or the account is locked beyond that window. -/
structure Tracks (t : Time) (db : LockDB) (log : List ℤ) : Prop where
  realm : ∀ row, db.lockouts u.id = some row → row.tenantID = u.tenantID
  held : ∀ c, unixMilli t - span Δ u ≤ c → since c log ≤ since c (db.redis (failedLoginKey Δ u.email)) ∨
    ∃ row, db.lockouts u.id = some row ∧ c + span Δ u < unixMilli row.lockedUntil

section Sequences

variable {Δ u} {E : Env} {t : Time} {db db' : LockDB} {log : List ℤ} {F : Front}

theorem Tracks.later {t' : Time} (h : Tracks Δ u t db log) (ht : t ≤ t') : Tracks Δ u t' db log :=
  ⟨h.realm, fun c hc => h.held c (by have := unixMilli_mono ht; omega)⟩

/-- While the account is not locked everything has been counted. -/
theorem Tracks.counted (h : Tracks Δ u t db log) (ht : t ≤ E.now) (hfree : db.isLocked u.tenantID u.id E.now = none) {c : ℤ}
    (hc : unixMilli E.now - span Δ u ≤ c) : since c log ≤ since c (db.redis (failedLoginKey Δ u.email)) := by
  rcases (h.later ht).held c hc with hle | ⟨row, hrow, hlong⟩
  · exact hle
  rw [LockDB.isLocked_eq hrow (h.realm row hrow)] at hfree
  have hexp : row.lockedUntil ≤ E.now := not_lt.mp fun hlt => by simp [hlt] at hfree
  have := unixMilli_mono hexp
  omega

theorem since_append_ite (c x : ℤ) (b : Bool) : since c (log ++ if b = true then [x] else []) = since c log + if b = true ∧ c < x then 1 else 0 := by
  cases b with
  | false => simp
  | true => simp [since_append_singleton]

theorem Tracks.step {b : Bool} (h : Tracks Δ u t db log) (ht : t ≤ E.now) (hd : 0 ≤ (policyOf Δ u).lockout.duration)
    (he : Effect Δ u E db b db') : Tracks Δ u E.now db' (log ++ if b = true then [unixMilli E.now] else []) := by
  refine ⟨he.realm h.realm, fun c hc => ?_⟩
  cases he with
  | idle hcount hrow =>
    rw [hcount, hrow, since_append_ite]
    simpa using (h.later ht).held c hc
  | cleared hcount hfree hrow =>
    refine .inl ?_
    rw [hcount, since_append_ite]
    simpa using h.counted ht hfree hc
  | counted hfree hin hcount hrow =>
    refine .inl ?_
    have hle := h.counted ht hfree hc
    have hnew : since c (hit Δ u E db).2 = _ := since_accept hc
    rw [hcount, since_append_ite, hnew]
    simp only [hit] at hin
    simpa [hin] using hle
  | locked hfree hin hcount hrow hscope huntil =>
  have hdead := unixMilli_deadline hd E.now
  by_cases hlt : c < unixMilli E.now
  · refine .inr ⟨_, hrow, ?_⟩
    rw [huntil]
    unfold span
    omega
  refine .inl ?_
  have hle := h.counted ht hfree hc
  have hnew : since c (hit Δ u E db).2 = _ := since_accept hc
  rw [hcount, since_append_ite, hnew]
  simpa [hlt] using hle

/-- Texts with different first characters. -/
theorem append_ne_append {a b : String} (x y : String) (ha : a.toList ≠ []) (hb : b.toList ≠ []) (h : a.toList.head? ≠ b.toList.head?) :
    a ++ x ≠ b ++ y := by
  intro heq
  have hhead := congrArg (fun s => s.toList.head?) heq
  simp only [String.toList_append, head?_append_of_ne_nil _ ha, head?_append_of_ne_nil _ hb] at hhead
  exact h hhead

/-- No bucket of the two policies counts under the key of the failures. -/
theorem policyName_ne (hlogin : Δ.login = loginPolicy) (hmLogin : Δ.mLogin = mLoginPolicy) (p : Post) (email x : String) :
    (p.policy Δ).name ++ x ≠ failedLoginKey Δ email := by
  unfold Post.policy failedLoginKey
  cases p.host with
  | some host =>
    dsimp only
    rw [hlogin]
    exact append_ne_append _ _ (by decide) (by decide) (by decide)
  | none =>
  dsimp only
  rw [hmLogin]
  exact append_ne_append _ _ (by decide) (by decide) (by decide)

theorem policyOf_enabled (hlogin : Δ.login = loginPolicy) (hmLogin : Δ.mLogin = mLoginPolicy) (u : User) :
    (policyOf Δ u).lockoutEnabled = true ∧ 0 < span Δ u := by
  unfold span policyOf
  cases u.tenantID with
  | some tenantID =>
    dsimp only
    rw [hlogin]
    decide
  | none =>
  dsimp only
  rw [hmLogin]
  decide

theorem post_effect {a : Env × Post} (hlogin : Δ.login = loginPolicy) (hmLogin : Δ.mLogin = mLoginPolicy) (ha : a.2.call.user Δ = some u)
    (hnow : zeroTime ≤ a.1.now) (hrealm : Homed u db) :
    Effect Δ u a.1 db (fails Δ F a db) (post Δ F a db).2 :=
  ensures_post (policyOf_enabled hlogin hmLogin u).1 ha (policyName_ne hlogin hmLogin a.2 u.email) hnow hrealm _ _ _
    (Runs.served (fun _ _ => rfl) _ _)

theorem Tracks.posts (hlogin : Δ.login = loginPolicy) (hmLogin : Δ.mLogin = mLoginPolicy) {t' : Time} :
    ∀ {l : List (Env × Post)} {t : Time} {db : LockDB} {log : List ℤ}, Tracks Δ u t db log → t ≤ t' →
      (∀ a ∈ l, a.2.call.user Δ = some u ∧ zeroTime ≤ a.1.now ∧ t ≤ a.1.now ∧ a.1.now ≤ t') → l.Pairwise (fun a b => a.1.now ≤ b.1.now) →
      Tracks Δ u t' (posts Δ F l db) (log ++ (failures Δ F l db).map unixMilli)
  | [], t, db, log, h, ht, _, _ => by
    rw [failures, map_nil, append_nil]
    exact h.later ht
  | a :: l, t, db, log, h, ht, hl, hsorted => by
    obtain ⟨ha, hzero, hta, hat'⟩ := hl a mem_cons_self
    have hd := (of_decide_eq_true (policyOf_enabled hlogin hmLogin u).1).2.le
    have hstep := h.step hta hd (post_effect (F := F) hlogin hmLogin ha hzero h.realm)
    have hrest := hstep.posts hlogin hmLogin (l := l) hat' (fun b hb => by
      obtain ⟨hb1, hb2, -, hb4⟩ := hl b (mem_cons_of_mem _ hb)
      exact ⟨hb1, hb2, rel_of_pairwise_cons hsorted hb, hb4⟩) hsorted.of_cons
    have hlog : (log ++ if fails Δ F a db = true then [unixMilli a.1.now] else []) ++ (failures Δ F l (post Δ F a db).2).map unixMilli =
        log ++ (failures Δ F (a :: l) db).map unixMilli := by
      rw [failures, map_append, append_assoc]
      cases fails Δ F a db <;> rfl
    rw [← hlog]
    exact hrest

end Sequences

/-- **The lockout fires.**  A POST for the account that fails the password check, when `Threshold` earlier ones have failed it within one `Duration`
as the limiter counts it, leaves the account locked. -/
theorem lockout_fires (Δ : Deployment) (hlogin : Δ.login = loginPolicy) (hmLogin : Δ.mLogin = mLoginPolicy) (F : Front) (u : User)
    (l : List (Env × Post)) (a : Env × Post) (db : LockDB) (haccount : ∀ b ∈ l ++ [a], b.2.call.user Δ = some u)
    (hsorted : (l ++ [a]).Pairwise fun b b' => b.1.now ≤ b'.1.now) (hzero : ∀ b ∈ l ++ [a], zeroTime ≤ b.1.now)
    (hrealm : ∀ row, db.lockouts u.id = some row → row.tenantID = u.tenantID) (hlast : fails Δ F a (posts Δ F l db) = true)
    (hcount : (policyOf Δ u).lockout.threshold ≤
      ((failures Δ F l db).countP fun t => unixMilli a.1.now - milliseconds (policyOf Δ u).lockout.duration < unixMilli t : ℕ)) :
    ((posts Δ F (l ++ [a]) db).isLocked u.tenantID u.id a.1.now).isSome := by
  obtain ⟨henabled, hspan⟩ := policyOf_enabled hlogin hmLogin u
  have hbefore : ∀ b ∈ l, b.1.now ≤ a.1.now := fun b hb => (pairwise_append.mp hsorted).2.2 b hb a (mem_singleton_self a)
  have hmem : a ∈ l ++ [a] := mem_append_right l (mem_singleton_self a)
  have hstart : Tracks Δ u zeroTime db [] := ⟨hrealm, fun c _ => .inl (Nat.zero_le _)⟩
  have htrack := hstart.posts (F := F) hlogin hmLogin (hzero a hmem)
    (fun b hb => ⟨haccount b (mem_append_left _ hb), hzero b (mem_append_left _ hb), hzero b (mem_append_left _ hb), hbefore b hb⟩)
    (pairwise_append.mp hsorted).1
  have heffect := post_effect (F := F) hlogin hmLogin (haccount a hmem) (hzero a hmem) htrack.realm
  have hposts : posts Δ F (l ++ [a]) db = (post Δ F a (posts Δ F l db)).2 := foldl_append ..
  rw [hlast] at heffect
  rw [hposts]
  cases heffect with
  | counted hfree hin _ _ =>
    -- the counter holds the earlier failures, and has no room
    have hheld := htrack.counted le_rfl hfree le_rfl
    have hroom := accept_iff.mp hin
    rw [nil_append, since, countP_map] at hheld
    exact absurd (hcount.trans (Nat.cast_le.mpr hheld)) (not_le.mpr hroom)
  | locked hfree hin hnew hrow hscope huntil =>
  have hdead := unixMilli_deadline (of_decide_eq_true henabled).2.le a.1.now
  have hafter : a.1.now < timestamptz (a.1.now + (policyOf Δ u).lockout.duration) := by
    refine not_le.mp fun hle => ?_
    have := unixMilli_mono hle
    unfold span at hspan
    omega
  rw [LockDB.isLocked_eq hrow hscope, huntil, if_pos hafter]
  rfl

/-! ## Failures that do not lock -/

def front : Front where
  login := [(⟨"ip", minute, 5⟩, ipKeyExtractor), (⟨"email", hour, 10⟩, emailExtractor)]
  mLogin := [(⟨"ip", minute, 3⟩, ipKeyExtractor), (⟨"email", hour, 5⟩, emailExtractor)]

/-- A wrong password for the user of the second tenant, at the first instant. -/
def anaPost (ip email : String) : Env × Post := (⟨0, .ok 0, .ok "", .ok (), .ok ()⟩, ⟨some "b", ip, email, "guess", ⟨none, "", "/login"⟩⟩)

def tenPosts : List (Env × Post) := List.replicate 5 (anaPost "10.0.0.1" "ana@x.com") ++ List.replicate 5 (anaPost "10.0.0.2" "ana@x.com")

/-- The eleventh comes with a capital letter, under which the bucket of the e-mail is still empty. -/
theorem lockout_fires_ana :
    ((posts twoTenants front (tenPosts ++ [anaPost "10.0.0.3" "Ana@x.com"]) emptyDB).isLocked (some 2) 12 0).isSome :=
  lockout_fires twoTenants rfl rfl front ana tenPosts (anaPost "10.0.0.3" "Ana@x.com") emptyDB (by decide) (by decide) (by decide)
    (by rintro _ ⟨⟩) (by decide +kernel) (by decide +kernel)

/-- **One short.**  Ten failed password checks at one instant, where the policy locks after ten, leave the account unlocked; and the next POST with the
same e-mail does not reach the login. -/
theorem threshold_not_locked : newFront twoTenants = .ok front ∧ loginPolicy.lockout.threshold = 10 ∧
    failures twoTenants front tenPosts emptyDB = List.replicate 10 0 ∧
    (posts twoTenants front tenPosts emptyDB).isLocked (some 2) 12 0 = none ∧
    (post twoTenants front (anaPost "10.0.0.3" "ana@x.com") (posts twoTenants front tenPosts emptyDB)).1 = .rateLimited 3600 :=
  ⟨rfl, rfl, by decide +kernel, by decide +kernel, by decide +kernel⟩

/-! ## What a lockout has behind it -/

section Logins

variable (Δ : Deployment)

def failsLogin (a : Env × Call) (db : LockDB) : Bool := ((body Δ a.2).served (serve Δ a.1) db).any failedCheck

def locks (a : Env × Call) (db : LockDB) : Bool := ((body Δ a.2).served (serve Δ a.1) db).any locksOut

def logins (l : List (Env × Call)) (db : LockDB) : LockDB := l.foldl (fun db a => (attempt Δ a db).2) db

/-- The instants of the logins that fail the password check, as the limiter counts them. -/
def loginFailures : List (Env × Call) → LockDB → List ℤ
  | [], _ => []
  | a :: l, db => (if failsLogin Δ a db = true then [unixMilli a.1.now] else []) ++ loginFailures l (attempt Δ a db).2

structure Logged (u : User) (t : Time) (db : LockDB) (log : List ℤ) : Prop where
  realm : ∀ row, db.lockouts u.id = some row → row.tenantID = u.tenantID
  counted : ∀ c, unixMilli t - span Δ u ≤ c → since c (db.redis (failedLoginKey Δ u.email)) ≤ since c log

variable {Δ} {u : User} {t t' : Time} {a : Env × Call} {db : LockDB} {log : List ℤ}

theorem loginFailures_append : ∀ (l₁ l₂ : List (Env × Call)) (db : LockDB),
    loginFailures Δ (l₁ ++ l₂) db = loginFailures Δ l₁ db ++ loginFailures Δ l₂ (logins Δ l₁ db)
  | [], _, _ => rfl
  | _ :: l₁, l₂, _ => by
    rw [cons_append, loginFailures, loginFailures_append l₁, loginFailures, append_assoc]
    rfl

theorem login_effect (henabled : (policyOf Δ u).lockoutEnabled = true) (hc : a.2.user Δ = some u) (hnow : zeroTime ≤ a.1.now)
    (hrealm : Homed u db) :
    Effect Δ u a.1 db (failsLogin Δ a db) (attempt Δ a db).2 ∧ (locks Δ a db = true → failsLogin Δ a db = true ∧ (hit Δ u a.1 db).1 = false) :=
  ensures_body henabled hc hnow hrealm _ _ _ (Runs.served (fun _ _ => rfl) _ db)

theorem Logged.step {E : Env} {b : Bool} {db' : LockDB} (h : Logged Δ u t db log) (ht : t ≤ E.now) (he : Effect Δ u E db b db') :
    Logged Δ u E.now db' (log ++ if b = true then [unixMilli E.now] else []) := by
  refine ⟨he.realm h.realm, fun c hc => ?_⟩
  have hold := h.counted c (by have := unixMilli_mono ht; omega)
  have hnew : since c (hit Δ u E db).2 = _ := since_accept hc
  rw [since_append_ite]
  cases he with
  | idle hcount _ => simpa [hcount] using hold
  | cleared hcount _ _ => simpa [hcount] using hold
  | counted _ _ hcount _ =>
    rw [hcount, hnew]
    split_ifs <;> simp_all
    omega
  | locked _ _ hcount _ _ _ =>
  rw [hcount, hnew]
  split_ifs <;> simp_all
  omega

theorem Logged.logins (henabled : (policyOf Δ u).lockoutEnabled = true) : ∀ {l : List (Env × Call)} {t : Time} {db : LockDB} {log : List ℤ},
    Logged Δ u t db log → zeroTime ≤ t → (∀ b ∈ l, b.2.user Δ = some u) → (t :: (l.map (·.1.now) ++ [t'])).Pairwise (· ≤ ·) →
      Logged Δ u t' (logins Δ l db) (log ++ loginFailures Δ l db)
  | [], t, db, log, h, _, _, hsorted => by
    have hmono := unixMilli_mono (rel_of_pairwise_cons hsorted mem_cons_self)
    rw [loginFailures, append_nil]
    exact ⟨h.realm, fun c hc => h.counted c (by omega)⟩
  | a :: l, t, db, log, h, hzero, hl, hsorted => by
    have ht := rel_of_pairwise_cons hsorted mem_cons_self
    have hnow := hzero.trans ht
    have hstep := h.step ht (login_effect henabled (hl a mem_cons_self) hnow h.realm).1
    rw [loginFailures, ← append_assoc]
    exact hstep.logins henabled hnow (fun b hb => hl b (mem_cons_of_mem _ hb)) hsorted.of_cons

end Logins

/-- **What a lockout has behind it.**  A login on the account writes a lockout: the window of its failed check holds `Threshold` earlier ones.  So, from any
point of the history on, the last successful login for one, there are `Threshold` of them if the window holds at most one of before that point. -/
theorem lock_counts (Δ : Deployment) (u : User) (hpolicy : 0 < (policyOf Δ u).lockout.threshold → 0 < (policyOf Δ u).lockout.duration)
    (l₁ l₂ : List (Env × Call)) (a : Env × Call) (db : LockDB) (haccount : ∀ b ∈ l₁ ++ l₂ ++ [a], b.2.user Δ = some u)
    (hsorted : (zeroTime :: (l₁ ++ l₂ ++ [a]).map (·.1.now)).Pairwise (· ≤ ·)) (hrealm : ∀ row, db.lockouts u.id = some row → row.tenantID = u.tenantID)
    (hempty : db.redis (failedLoginKey Δ u.email) = []) (hlock : locks Δ a (logins Δ (l₁ ++ l₂) db) = true) :
    let edge := unixMilli a.1.now - milliseconds (policyOf Δ u).lockout.duration
    (policyOf Δ u).lockout.threshold ≤ since edge (loginFailures Δ (l₁ ++ l₂) db) ∧
      (since edge (loginFailures Δ l₁ db) ≤ 1 → (policyOf Δ u).lockout.threshold ≤ (loginFailures Δ (l₂ ++ [a]) (logins Δ l₁ db)).length) := by
  intro edge
  rcases le_or_gt (policyOf Δ u).lockout.threshold 0 with hnone | hn
  · exact ⟨by omega, fun _ => by omega⟩
  have henabled : (policyOf Δ u).lockoutEnabled = true := decide_eq_true ⟨hn, hpolicy hn⟩
  have hstart : Logged Δ u zeroTime db [] := ⟨hrealm, fun c _ => by rw [hempty]⟩
  rw [map_append] at hsorted
  have hlog := hstart.logins henabled le_rfl (fun b hb => haccount b (mem_append_left _ hb)) hsorted
  have hlast : a ∈ l₁ ++ l₂ ++ [a] := mem_append_right _ (mem_singleton_self a)
  have hnow : zeroTime ≤ a.1.now := rel_of_pairwise_cons hsorted (by simp)
  obtain ⟨hfails, hfull⟩ := (login_effect henabled (haccount a hlast) hnow hlog.realm).2 hlock
  have hroom : ¬ _ := mt accept_iff.mpr (Bool.eq_false_iff.mp hfull)
  have hcount : since edge _ ≤ since edge _ := hlog.counted _ le_rfl
  have hle : (policyOf Δ u).lockout.threshold ≤ since edge (loginFailures Δ (l₁ ++ l₂) db) := (not_lt.mp hroom).trans (Nat.cast_le.mpr hcount)
  refine ⟨hle, fun hone => ?_⟩
  have hown : (loginFailures Δ [a] (logins Δ l₂ (logins Δ l₁ db))).length = 1 := by
    have hsplit : logins Δ l₂ (logins Δ l₁ db) = logins Δ (l₁ ++ l₂) db := (foldl_append ..).symm
    rw [hsplit, loginFailures, hfails]
    rfl
  have hstreak : since edge (loginFailures Δ l₂ (logins Δ l₁ db)) ≤ _ := countP_le_length
  rw [loginFailures_append, since, countP_append] at hle
  rw [loginFailures_append, length_append, hown]
  unfold since at hone hstreak
  omega

theorem lock_counts_ana : locks twoTenants (atStart anaGuess) (logins twoTenants (List.replicate 10 (atStart anaGuess)) emptyDB) = true ∧
    (10 : ℤ) ≤ (loginFailures twoTenants (List.replicate 10 (atStart anaGuess) ++ [atStart anaGuess]) emptyDB).length := by
  have hlock : locks twoTenants (atStart anaGuess) (logins twoTenants (List.replicate 10 (atStart anaGuess)) emptyDB) = true := by decide +kernel
  exact ⟨hlock, (lock_counts twoTenants ana (by decide) [] _ _ emptyDB (by decide) (by decide) (by rintro _ ⟨⟩) rfl hlock).2 (Nat.zero_le _)⟩

/-- **Locked after a success.**  Ten wrong passwords, a successful login, and one more wrong password, which locks the account. -/
theorem locked_after_success :
    let hidden : Env × Call := atStart (.login "b" "ana@x.com" "hidden" ⟨none, "", ""⟩)
    let before := List.replicate 10 (atStart anaGuess)
    let db := logins twoTenants (before ++ [hidden]) emptyDB
    hidden.2.user twoTenants = some ana ∧ anaGuess.user twoTenants = some ana ∧ (attempt twoTenants hidden (logins twoTenants before emptyDB)).1.isOk = true ∧
      locks twoTenants (atStart anaGuess) db = true ∧ (loginFailures twoTenants [atStart anaGuess] db).length = 1 ∧ loginPolicy.lockout.threshold = 10 :=
  ⟨by decide, by decide, by decide +kernel, by decide +kernel, by decide +kernel, rfl⟩

end Crm.Iam
