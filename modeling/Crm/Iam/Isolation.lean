import Mathlib.Data.List.Nodup
import Crm.Iam.Login
import Crm.Lib.Unwinding

/-!
# Crm.Iam.Isolation — what one realm's logins see of another's

A login reads and writes the lockout row of the user it has found, which is a user of its own realm, and one counter.  The key of the counter is made
of the e-mail alone, so realms share it.
-/

namespace Crm.Iam

open Interleave Text Unwinding List Prog LockDB

variable (Δ : Deployment)

def attempt (a : Env × Call) (db : LockDB) : Except Err Session × LockDB := (body Δ a.2).eval (serve Δ a.1) db

def against (B : Option UUID) (a : Env × Call) : Bool := a.2.realm Δ = some B

/-! ## What a login touches -/

def Answers : (q : Req) → Resp q → Prop
  | .tenantFromContext host, r => r = Δ.hosts host
  | .resolveByHost host, r => r = Δ.hosts host
  | .lookupCredentials tenantID email, r => r = .ok (credentials (findUser Δ tenantID email))
  | .lookupMasterCredentials email, r => r = .ok (credentials (findMaster Δ email))
  | _, _ => True

theorem answers_serve (E : Env) (q : Req) (db : LockDB) : Answers Δ q (serve Δ E q db).1 := by
  cases q <;> first | rfl | trivial

/-- The request touches no user outside `U` and no counter outside `K`. -/
def Confined (U : UUID → Prop) (K : String → Prop) : Req → Prop
  | .isLocked _ userID => U userID
  | .lock _ userID _ _ => U userID
  | .clear _ userID => U userID
  | .allow key _ _ => K key
  | _ => True

/-- The stores agree on the users in `U` and the counters in `K`. -/
def Same (U : UUID → Prop) (K : String → Prop) (s t : LockDB) : Prop :=
  (∀ u, U u → s.lockouts u = t.lockouts u) ∧ ∀ key, K key → s.redis key = t.redis key

section Confinement

variable {Δ} {U : UUID → Prop} {K : String → Prop} {E : Env} {s t : LockDB} {q : Req}

theorem LockDB.lock_redis (scope : Option UUID) (u : UUID) (lockedUntil : Time) (reason : String) :
    (s.lock scope u lockedUntil reason).2.redis = s.redis := by
  unfold LockDB.lock
  split_ifs
  · rfl
  · rfl
  dsimp only
  split
  · rfl
  · split_ifs <;> rfl

variable {scope : Option UUID} {u tenantID userID : UUID} {S : Service} {req : RequestInfo}

theorem LockDB.lock_of_ne {v : UUID} {lockedUntil : Time} {reason : String} (h : v ≠ u) :
    (s.lock scope u lockedUntil reason).2.lockouts v = s.lockouts v := by
  unfold LockDB.lock
  split_ifs
  · rfl
  · rfl
  dsimp only
  split
  · exact Function.update_of_ne h _ _
  · split_ifs
    · rfl
    · exact Function.update_of_ne h _ _

theorem LockDB.lock_congr (scope : Option UUID) (lockedUntil : Time) (reason : String) (h : s.lockouts u = t.lockouts u) :
    (s.lock scope u lockedUntil reason).1 = (t.lock scope u lockedUntil reason).1 ∧
      (s.lock scope u lockedUntil reason).2.lockouts u = (t.lock scope u lockedUntil reason).2.lockouts u := by
  unfold LockDB.lock
  rw [h]
  split_ifs
  · exact ⟨rfl, h⟩
  · exact ⟨rfl, h⟩
  dsimp only
  split
  · exact ⟨rfl, by simp⟩
  · split_ifs
    · exact ⟨rfl, h⟩
    · exact ⟨rfl, by simp⟩

theorem LockDB.clear_redis (scope : Option UUID) (u : UUID) : (s.clear scope u).redis = s.redis := by
  unfold LockDB.clear
  split
  · rfl
  · split_ifs <;> rfl

theorem LockDB.clear_of_ne {v : UUID} (h : v ≠ u) : (s.clear scope u).lockouts v = s.lockouts v := by
  unfold LockDB.clear
  split
  · rfl
  · split_ifs
    · exact Function.update_of_ne h _ _
    · rfl

theorem LockDB.clear_congr (h : s.lockouts u = t.lockouts u) : (s.clear scope u).lockouts u = (t.clear scope u).lockouts u := by
  unfold LockDB.clear
  rw [h]
  split
  · exact h
  · split_ifs
    · simp
    · exact h

/-- A request inside the common part is answered alike, and leaves it common. -/
theorem serve_same (hq : Confined U K q) (h : Same U K s t) :
    (serve Δ E q s).1 = (serve Δ E q t).1 ∧ Same U K (serve Δ E q s).2 (serve Δ E q t).2 := by
  cases q with
  | isLocked scope u => exact ⟨by simp only [serve, LockDB.isLocked, h.1 u hq], h⟩
  | lock scope u lockedUntil reason =>
    obtain ⟨hans, hrow⟩ := lock_congr scope lockedUntil reason (h.1 u hq)
    refine ⟨hans, fun v hv => ?_, fun key hkey => ?_⟩
    · by_cases hvu : v = u
      · rw [hvu]
        exact hrow
      · exact (lock_of_ne hvu).trans ((h.1 v hv).trans (lock_of_ne hvu).symm)
    · simp only [serve, lock_redis]
      exact h.2 key hkey
  | clear scope u =>
    refine ⟨rfl, fun v hv => ?_, fun key hkey => ?_⟩
    · by_cases hvu : v = u
      · rw [hvu]
        exact clear_congr (h.1 u hq)
      · exact (clear_of_ne hvu).trans ((h.1 v hv).trans (clear_of_ne hvu).symm)
    · simp only [serve, clear_redis]
      exact h.2 key hkey
  | allow key window max =>
    obtain ⟨hans, hhits⟩ := Redis.allow_congr window max E.now (h.2 key hq)
    refine ⟨hans, h.1, fun key' hkey => ?_⟩
    by_cases hk : key' = key
    · rw [hk]
      exact hhits
    · exact (Redis.allow_of_ne hk).trans ((h.2 key' hkey).trans (Redis.allow_of_ne hk).symm)
  | _ => exact ⟨rfl, h⟩

theorem serve_hidden (hq : Confined (fun u => ¬ U u) (fun key => ¬ K key) q) (h : Same U K s t) : Same U K (serve Δ E q s).2 t := by
  cases q with
  | lock scope u lockedUntil reason =>
    refine ⟨fun v hv => ?_, fun key hkey => ?_⟩
    · have hvu : v ≠ u := fun hvu => hq (hvu ▸ hv)
      exact (lock_of_ne hvu).trans (h.1 v hv)
    · simp only [serve, lock_redis]
      exact h.2 key hkey
  | clear scope u =>
    refine ⟨fun v hv => ?_, fun key hkey => ?_⟩
    · have hvu : v ≠ u := fun hvu => hq (hvu ▸ hv)
      exact (clear_of_ne hvu).trans (h.1 v hv)
    · simp only [serve, clear_redis]
      exact h.2 key hkey
  | allow key window max =>
    refine ⟨h.1, fun key' hkey => ?_⟩
    have hk : key' ≠ key := fun hk => hq (hk ▸ hkey)
    exact (Redis.allow_of_ne hk).trans (h.2 key' hkey)
  | _ => exact h

/-! ## What a login asks for -/

theorem asks_recordLoginFailure {email : String} (hu : U userID) (hk : K (failedLoginKey Δ email)) :
    Asks (Answers Δ) (Confined U K) (recordLoginFailure Δ S tenantID userID email req) := by
  simp only [recordLoginFailure, send_bind, pure_eq]
  split
  · trivial
  refine ⟨hk, fun r _ => ?_⟩
  rcases r with e | ⟨_ | _, wait⟩
  · trivial
  · cases S.lockouts with
    | none => trivial
    | some scope =>
      refine ⟨trivial, fun now _ => ⟨hu, fun r _ => ?_⟩⟩
      cases r with
      | error e => trivial
      | ok =>
      dsimp only
      split_ifs
      · exact ⟨trivial, fun _ _ => trivial⟩
      · trivial
  · trivial

theorem asks_checkPassword {precheck : String} {encoded email password : String} (hu : U userID) (hk : K (failedLoginKey Δ email)) :
    Asks (Answers Δ) (Confined U K) (checkPassword Δ S precheck tenantID userID encoded email password req) := by
  simp only [checkPassword, send_bind, pure_eq]
  refine Asks.bind (fun r => ?_) ?_
  · rcases r with e | _ | lockedUntil
    · trivial
    · refine ⟨trivial, fun r _ => ?_⟩
      have hfail : Asks (Answers Δ) (Confined U K)
          (recordLoginFailure Δ S tenantID userID email req >>= fun locked => .ret (.error (rejection locked) : Except Err Bool)) :=
        Asks.bind (fun _ => Asks.ret _) (asks_recordLoginFailure hu hk)
      rcases r with e | ⟨_ | _, needsRehash⟩
      · exact hfail
      · exact hfail
      refine Asks.bind (fun _ => Asks.ret _) ?_
      unfold clear
      cases S.lockouts with
      | none => trivial
      | some scope => exact ⟨hu, fun _ _ => trivial⟩
    · exact ⟨trivial, fun _ _ => trivial⟩
  unfold isLocked
  cases S.lockouts with
  | none => trivial
  | some scope => exact ⟨hu, fun _ _ => trivial⟩

theorem asks_resolveSessionRole : Asks (Answers Δ) (Confined U K) (resolveSessionRole tenantID userID) := by
  refine ⟨trivial, fun r _ => ?_⟩
  rcases r with e | role
  · trivial
  · cases role <;> trivial

theorem asks_openSession {password : String} {needsRehash : Bool} :
    Asks (Answers Δ) (Confined U K) (openSession S tenantID userID password needsRehash req) := by
  simp only [openSession, send_bind, pure_eq]
  refine ⟨trivial, fun r _ => ?_⟩
  cases r with
  | error e => trivial
  | ok id =>
  refine ⟨trivial, fun r _ => ?_⟩
  cases r with
  | error e => trivial
  | ok csrfToken =>
  refine ⟨trivial, fun now _ => Asks.bind (fun role => ?_) asks_resolveSessionRole⟩
  refine ⟨trivial, fun r _ => ?_⟩
  cases r with
  | error e => trivial
  | ok =>
  dsimp only
  split
  · exact ⟨trivial, fun _ _ => trivial⟩
  · trivial

end Confinement

section Asked

variable {Δ} {U : UUID → Prop} {K : String → Prop} {c : Call}

theorem credentials_ne_nil {o : Option User} (h : (credentials o).1 ≠ UUID.Nil) : ∃ u, o = some u ∧ u.id = (credentials o).1 := by
  cases o with
  | none => exact absurd rfl h
  | some u => exact ⟨u, rfl, rfl⟩

/-- A login touches the user it finds and the counter of its e-mail. -/
theorem asks_body (hu : ∀ u, c.user Δ = some u → U u.id) (hk : K (failedLoginKey Δ c.email)) :
    Asks (Answers Δ) (Confined U K) (body Δ c) := by
  cases c with
  | login host email password req =>
    simp only [body, iamAdapterLogin, login, send_bind, pure_eq]
    refine ⟨trivial, ?_⟩
    rintro _ rfl
    cases hhost : Δ.hosts host with
    | error e => trivial
    | ok tenantID =>
    dsimp only
    split_ifs
    · trivial
    refine ⟨trivial, ?_⟩
    rintro _ rfl
    rw [hhost]
    refine ⟨trivial, ?_⟩
    rintro _ rfl
    dsimp only
    split_ifs with hnil
    · exact ⟨trivial, fun _ _ => trivial⟩
    obtain ⟨u, hfind, hid⟩ := credentials_ne_nil hnil
    have hU : U (credentials (findUser Δ tenantID email)).1 := by
      rw [← hid]
      refine hu u ?_
      rw [Call.user, hhost]
      exact hfind
    refine Asks.bind (fun r => ?_) (asks_checkPassword hU hk)
    cases r with
    | error e => trivial
    | ok needsRehash => exact asks_openSession
  | masterLogin email password req =>
  simp only [body, masterLogin, send_bind, pure_eq]
  split
  · trivial
  refine ⟨trivial, ?_⟩
  rintro _ rfl
  dsimp only
  split_ifs with hnil
  · exact ⟨trivial, fun _ _ => trivial⟩
  obtain ⟨u, hfind, hid⟩ := credentials_ne_nil hnil
  refine Asks.bind (fun r => ?_) (asks_checkPassword (hid ▸ hu u hfind) hk)
  cases r <;> trivial

end Asked

def RealmUser (B : Option UUID) (x : UUID) : Prop := ∃ u ∈ Δ.users, u.id = x ∧ u.tenantID = B

theorem realmUser_unique {B B' : Option UUID} {x : UUID} (h : RealmUser Δ B x) (h' : RealmUser Δ B' x) : B = B' := by
  obtain ⟨u, hu, rfl, rfl⟩ := h
  obtain ⟨u', hu', hid, rfl⟩ := h'
  rw [inj_on_of_nodup_map Δ.ids hu' hu hid]

/-- **Isolation.**  Two histories of logins agree on the logins against `B`, and the others count their failures under other keys.  Then every login
against `B` has the same result in both. -/
theorem lockout_isolated (B : Option UUID) (l l' : List (Env × Call)) (db : LockDB)
    (hagree : l.filter (against Δ B) = l'.filter (against Δ B))
    (hkeys : ∀ a ∈ l ++ l', against Δ B a = false → ∀ b ∈ l, against Δ B b = true → failedLoginKey Δ a.2.email ≠ failedLoginKey Δ b.2.email) :
    (outputs (attempt Δ) l db).filter (fun x => against Δ B x.1) = (outputs (attempt Δ) l' db).filter (fun x => against Δ B x.1) := by
  -- what the realm can see: its users' rows, and the counters of its own logins
  let K : String → Prop := fun key => ∃ b ∈ l, against Δ B b = true ∧ key = failedLoginKey Δ b.2.email
  let ok : Env × Call → Prop := fun a =>
    if against Δ B a = true then K (failedLoginKey Δ a.2.email) else ¬ K (failedLoginKey Δ a.2.email)
  have hmem : ∀ a ∈ l', against Δ B a = true → a ∈ l := fun a ha hv =>
    (mem_filter.mp (hagree ▸ mem_filter.mpr ⟨ha, hv⟩ : a ∈ l.filter (against Δ B))).1
  have hok : ∀ a ∈ l ++ l', ok a := by
    intro a ha
    by_cases hv : against Δ B a = true
    · simp only [ok, hv, if_true]
      rcases mem_append.mp ha with ha | ha
      · exact ⟨a, ha, hv, rfl⟩
      · exact ⟨a, hmem a ha hv, hv, rfl⟩
    · simp only [ok, hv]
      rintro ⟨b, hb, hbv, hkey⟩
      exact hkeys a ha (Bool.not_eq_true _ ▸ hv) b hb hbv hkey
  have hokl : ∀ a ∈ l, ok a := fun a ha => hok a (mem_append_left _ ha)
  have hokl' : ∀ a ∈ l', ok a := fun a ha => hok a (mem_append_right _ ha)
  refine noninterference (R := Same (RealmUser Δ B) K) ?_ ?_ ⟨fun _ _ => rfl, fun _ _ => rfl⟩ hokl hokl' hagree
  · intro a s t ha hv hR
    have hkey : ¬ K (failedLoginKey Δ a.2.email) := by simpa [ok, hv] using ha
    refine Asks.eval_keeps (answers_serve Δ a.1) (fun q s t hq hR => serve_hidden hq hR) (asks_body ?_ hkey) hR
    intro u hu hU
    obtain ⟨hmem, hrealm⟩ := Call.user_realm hu
    have hB := realmUser_unique Δ hU ⟨u, hmem, rfl, rfl⟩
    have : against Δ B a = true := by rw [against, hrealm, hB]; exact decide_eq_true rfl
    exact absurd this (by rw [hv]; exact Bool.false_ne_true)
  intro a s t ha hv hR
  have hkey : K (failedLoginKey Δ a.2.email) := by simpa [ok, hv] using ha
  refine Asks.eval_same (answers_serve Δ a.1) (fun q s t hq hR => serve_same hq hR) (asks_body ?_ hkey) hR
  intro u hu
  obtain ⟨hmem, hrealm⟩ := Call.user_realm hu
  have hB : u.tenantID = B := Option.some.inj (hrealm.symm.trans (of_decide_eq_true hv))
  exact ⟨u, hmem, rfl, hB⟩

/-! ## One e-mail in two tenants -/

def wrongPassword (host email : String) : Call := .login host email "guess" ⟨none, "", "/login"⟩

def atStart (c : Call) : Env × Call := (⟨0, .ok 0, .ok "", .ok (), .ok ()⟩, c)

def twoTenants : Deployment where
  tables := .ascii
  space := CaseTables.ascii_space
  sha256 := id
  login := loginPolicy
  mLogin := mLoginPolicy
  hosts := fun host => if host = "a" then .ok 1 else if host = "b" then .ok 2 else .error .iamTenantNotFound
  users := [⟨11, some 1, "ana@x.com", "secret", .tenantCommon, false, false⟩, ⟨12, some 2, "ana@x.com", "hidden", .tenantCommon, false, false⟩]
  ids := by decide
  verify := fun encoded password => .ok (encoded = password, false)

def emptyDB : LockDB := ⟨fun _ => [], fun _ => none⟩

theorem lockout_isolated_bia :
    (outputs (attempt twoTenants) [atStart (wrongPassword "a" "bia@x.com"), atStart (wrongPassword "b" "ana@x.com")] emptyDB).filter
        (fun x => against twoTenants (some 2) x.1) =
      (outputs (attempt twoTenants) [atStart (wrongPassword "b" "ana@x.com")] emptyDB).filter (fun x => against twoTenants (some 2) x.1) :=
  lockout_isolated twoTenants (some 2) _ _ emptyDB rfl (by decide)

/-- Ten wrong passwords in the first tenant, and then one in the second. -/
def guesses : List (Env × Call) := List.replicate 10 (atStart (wrongPassword "a" "ana@x.com")) ++ [atStart (wrongPassword "b" "ana@x.com")]

/-- **The counter is shared.**  The first wrong password in the second tenant locks its account, although the history of that tenant is this one
login; without the first tenant's logins it is a plain rejection. -/
theorem shared_counter : guesses.filter (against twoTenants (some 2)) = [atStart (wrongPassword "b" "ana@x.com")] ∧
    ((outputs (attempt twoTenants) guesses emptyDB).filter fun x => against twoTenants (some 2) x.1).map Prod.snd =
      [.error (.iamAccountLocked (15 * minute))] ∧
    (outputs (attempt twoTenants) [atStart (wrongPassword "b" "ana@x.com")] emptyDB).map Prod.snd = [.error .iamInvalidCredentials] :=
  ⟨rfl, by decide +kernel, by decide +kernel⟩

end Crm.Iam
