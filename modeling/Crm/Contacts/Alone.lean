import Crm.Contacts.Store

/-!
# Crm.Contacts.Alone — one call at a time

A call that runs while no transaction is open is alone with the committed rows: they stay as they are until its commit, and a statement answers from them
and from what the call's own transaction has written (`exec_within`).  So what the call does is read off its statements one by one.
-/

namespace Crm.Contacts

open Interleave RowLocks Prog List

def Quiet (db : IdentityDB) : Prop := ∀ tx, db.sessions tx = none

/-- The database in the next transaction, which has come to `S`. -/
def within (db : IdentityDB) (S : Session) : IdentityDB := { db.setSession db.next (some S) with next := db.next + 1 }

def committed (db : IdentityDB) (S : Session) : IdentityDB := { db with identities := db.identity S, links := db.link S, next := db.next + 1 }

/-- A part of the call that succeeds has brought its transaction to a session in `R`. -/
def Brings {α : Type} (db : IdentityDB) (R : α → Session → Prop) (_ : List (Exchange Req Resp IdentityDB)) (a : Except Err α) (db' : IdentityDB) : Prop :=
  ∀ x, a = .ok x → ∃ S, R x S ∧ db' = within db S

def Commits {α : Type} (db : IdentityDB) (R : α → Session → Prop) (_ : List (Exchange Req Resp IdentityDB)) (a : Except Err α) (db' : IdentityDB) : Prop :=
  ∀ x, a = .ok x → ∃ S, R x S ∧ db' = committed db S

section

variable {db db' : IdentityDB} {S S' : Session} {st : Stmt}

@[simp] theorem within_sessions : (within db S).sessions db.next = some S := Function.update_self ..

theorem within_setSession : (within db S).setSession db.next (some S') = within db S' := by simp [within, IdentityDB.setSession]

theorem Quiet.committed (h : Quiet db) (S : Session) : Quiet (committed db S) := h

theorem commit_within (h : Quiet db) : (within db S).commit S db.next = Contacts.committed db S := by
  have hsessions : Function.update db.sessions db.next none = db.sessions := by rw [← h db.next, Function.update_eq_self]
  simp only [IdentityDB.commit, within, IdentityDB.setSession, Contacts.committed, Function.update_idem, hsessions]
  rfl

theorem run_within (now : Time) (fresh : UUID) : st.run (within db S) S' now fresh = st.run db S' now fresh := by
  cases st <;> rfl

theorem exec_within {r : Except Err st.Result} (h : exec (.stmt db.next st) (within db S) r db') :
    (∃ now fresh a S', st.run db S now fresh = .ok (a, S') ∧ r = .ok a ∧ db' = within db S') ∨
      ∃ e, r = .error e ∧ db' = within db S ∧ (e.fault ∨ ∃ now fresh, st.run db S now fresh = .error e) := by
  rcases h with ⟨S₁, now, fresh, hS, -, ⟨a, S', hrun, hr, rfl⟩ | ⟨e, hrun, hr, rfl⟩⟩ | ⟨rfl, e, he, hr⟩
  · rw [within_sessions] at hS
    cases hS
    rw [run_within] at hrun
    exact .inl ⟨now, fresh, a, S', hrun, hr, within_setSession⟩
  · rw [within_sessions] at hS
    cases hS
    rw [run_within] at hrun
    exact .inr ⟨e, hr, rfl, .inr ⟨now, fresh, hrun⟩⟩
  · exact .inr ⟨e, hr, rfl, .inl he⟩

theorem act_within (hq : Quiet db) {now : Time} {fresh : UUID} {a : st.Result} (hrun : st.run db S now fresh = .ok (a, S')) :
    act (.stmt db.next st) (within db S) (.ok a) (within db S') := by
  refine ⟨S, now, fresh, within_sessions, fun u S₁ hne hu => ?_, .inl ⟨a, S', ?_, rfl, within_setSession.symm⟩⟩
  · have hu' : db.sessions u = some S₁ := (Function.update_of_ne hne _ _).symm.trans hu
    rw [hq u] at hu'
    cases hu'
  · rw [run_within]
    exact hrun

variable {α : Type}

/-- **Statements.**  A statement whose answer the rows determine. -/
theorem returns_stmt {k : Except Err st.Result → Client α} {a : st.Result} {b : α} (hq : Quiet db)
    (hrun : ∀ now fresh, st.run db S now fresh = .ok (a, S')) (hk : Returns act (k (.ok a)) (within db S') b db') :
    Returns act (.ask (.stmt db.next st) k) (within db S) b db' := by
  refine .ask (act_within hq (hrun 0 0)) (fun r t ht => ?_) hk
  obtain ⟨S₁, now, fresh, hS, -, hcases⟩ := ht
  rw [within_sessions] at hS
  cases hS
  rw [run_within, hrun now fresh] at hcases
  rcases hcases with ⟨a', S₁, heq, rfl, rfl⟩ | ⟨e, heq, -, -⟩
  · cases heq
    exact ⟨rfl, within_setSession⟩
  · cases heq

variable {fn : ℕ → Client (Except Err α)} {R : α → Session → Prop} {l : List (Exchange Req Resp IdentityDB)}

theorem returns_withTenant {a : α} {tenantID : UUID} (htenant : tenantID ≠ UUID.Nil) (hq : Quiet db)
    (hfn : Returns act (fn db.next) (within db ⟨.empty, .empty⟩) (.ok a) (within db S)) :
    Returns act (withTenant tenantID fn) db (.ok a) (committed db S) := by
  simp only [withTenant, send_bind, pure_eq]
  rw [if_neg htenant]
  refine .ask ⟨rfl, rfl⟩ (fun _ _ h => h) ?_
  refine .ask ⟨rfl, rfl⟩ (fun _ _ h => h) (hfn.bind ?_)
  refine .ask ⟨S, within_sessions, rfl, rfl⟩ ?_ ?_
  · rintro r t ⟨S₁, hS, rfl, rfl⟩
    rw [within_sessions] at hS
    cases hS
    exact ⟨rfl, rfl⟩
  · rw [commit_within hq]
    exact .ret _ _

theorem Brings.error {e : Err} : Brings db R l (.error e) db' := by rintro _ ⟨⟩

theorem Commits.error {e : Err} : Commits db R l (.error e) db' := by rintro _ ⟨⟩

theorem Brings.ret {x : α} (h : R x S) : Ensures exec (.ret (.ok x)) (within db S) (Brings db R) :=
  .ret (by rintro _ ⟨⟩; exact ⟨S, h, rfl⟩)

theorem Brings.stmt {k : Except Err st.Result → Client (Except Err α)}
    (hok : ∀ now fresh a S', st.run db S now fresh = .ok (a, S') → Ensures exec (k (.ok a)) (within db S') (Brings db R))
    (herror : ∀ e, (e.fault ∨ ∃ now fresh, st.run db S now fresh = .error e) → Ensures exec (k (.error e)) (within db S) (Brings db R)) :
    Ensures exec (.ask (.stmt db.next st) k) (within db S) (Brings db R) := by
  refine .ask fun r t ht => ?_
  rcases exec_within ht with ⟨now, fresh, a, S', hrun, rfl, rfl⟩ | ⟨e, rfl, rfl, he⟩
  · exact hok now fresh a S' hrun
  · exact herror e he

theorem Brings.newUUID {k : UUID → Client (Except Err α)} (h : ∀ id, Ensures exec (k id) (within db S) (Brings db R)) :
    Ensures exec (.ask .newUUID k) (within db S) (Brings db R) := by
  refine .ask fun id t ht => ?_
  obtain rfl := ht.resolve_right fun hf => hf
  exact h id

theorem Brings.clock {k : Time → Client (Except Err α)} (h : ∀ now, Ensures exec (k now) (within db S) (Brings db R)) :
    Ensures exec (.ask .clock k) (within db S) (Brings db R) := by
  refine .ask fun now t ht => ?_
  obtain rfl := ht.resolve_right fun hf => hf
  exact h now

theorem Brings.bind {β : Type} {R' : β → Session → Prop} {p : Client (Except Err α)} {f : Except Err α → Client (Except Err β)}
    (hp : Ensures exec p (within db S) (Brings db R)) (hf : ∀ x S', R x S' → Ensures exec (f (.ok x)) (within db S') (Brings db R'))
    (herror : ∀ e t, Ensures exec (f (.error e)) t (Brings db R')) : Ensures exec (p >>= f) (within db S) (Brings db R') := by
  refine Ensures.bind hp fun l a t ht => ?_
  cases a with
  | error e => exact herror e t
  | ok x =>
  obtain ⟨S', hR, rfl⟩ := ht x rfl
  exact hf x S' hR

theorem ensures_withTenant (tenantID : UUID) (hq : Quiet db) (hfn : Ensures exec (fn db.next) (within db ⟨.empty, .empty⟩) (Brings db R)) :
    Ensures exec (withTenant tenantID fn) db (Commits db R) := by
  have hfails : ∀ {t : IdentityDB} {tx : ℕ} {e : Err}, Ensures exec (.ask (.rollback tx) fun _ => .ret (.error e)) t (Commits db R) :=
    .ask fun _ _ _ => .ret .error
  simp only [withTenant, send_bind, pure_eq]
  split_ifs
  · exact .ret .error
  refine .ask fun r t ht => ?_
  cases r with
  | error e => exact .ret .error
  | ok tx =>
  rcases ht with ⟨hr, rfl⟩ | ⟨-, e, -, hr⟩
  · cases hr
    refine .ask fun r t ht => ?_
    obtain rfl := ht.elim And.right And.left
    cases r with
    | error e => exact hfails
    | ok =>
    refine Ensures.bind hfn fun l a t ht => ?_
    cases a with
    | error e => exact hfails
    | ok a =>
    obtain ⟨S, hR, rfl⟩ := ht a rfl
    refine .ask fun r t ht => ?_
    cases r with
    | error e => exact hfails
    | ok =>
    refine .ret ?_
    rintro _ ⟨⟩
    rcases ht with ⟨S₁, hS, -, rfl⟩ | ⟨-, e, -, hr⟩
    · rw [within_sessions] at hS
      cases hS
      exact ⟨S, hR, commit_within hq⟩
    · cases hr
  · cases hr

/-- What the requests of a transaction satisfy. -/
theorem ensures_withTenant_requests (tenantID : UUID) {P : Req → Prop} (hbegin : P .begin)
    (hframe : ∀ tx, P (.setTenant tx tenantID) ∧ P (.commit tx) ∧ P (.rollback tx))
    (hfn : Ensures exec (fn db.next) (within db ⟨.empty, .empty⟩) fun l _ _ => ∀ x ∈ l, P x.q) :
    Ensures exec (withTenant tenantID fn) db fun l _ _ => ∀ x ∈ l, P x.q := by
  have hrollback : ∀ (tx : ℕ) (a : Except Err α), (.ask (.rollback tx) fun _ => .ret a : Client (Except Err α)).Sends P :=
    fun tx _ => .ask (hframe tx).2.2 fun _ => .ret _
  simp only [withTenant, send_bind, pure_eq]
  split_ifs
  · exact .ret (by simp)
  refine .ask fun r t ht => ?_
  cases r with
  | error e => exact .ret (by simpa using hbegin)
  | ok tx =>
  rcases ht with ⟨hr, rfl⟩ | ⟨-, e, -, hr⟩
  · cases hr
    refine .ask fun r t ht => ?_
    obtain rfl := ht.elim And.right And.left
    have hstart : ∀ {l}, (∀ x ∈ l, P x.q) → ∀ x ∈ (⟨.begin, .ok db.next, db, within db ⟨.empty, .empty⟩⟩ : Exchange Req Resp IdentityDB) ::
        ⟨.setTenant db.next tenantID, r, within db ⟨.empty, .empty⟩, within db ⟨.empty, .empty⟩⟩ :: l, P x.q :=
      fun hl => forall_mem_cons.mpr ⟨hbegin, forall_mem_cons.mpr ⟨(hframe _).1, hl⟩⟩
    cases r with
    | error e => exact (hrollback _ _).ensures.mono fun _ _ _ h => hstart h
    | ok =>
    refine Ensures.bind hfn fun l a t hl => ?_
    have hrest : ∀ {p : Client (Except Err α)}, p.Sends P → Ensures exec p t fun l₂ _ _ => ∀ x ∈ (⟨.begin, .ok db.next, db, within db ⟨.empty, .empty⟩⟩ :
        Exchange Req Resp IdentityDB) :: ⟨.setTenant db.next tenantID, .ok (), within db ⟨.empty, .empty⟩, within db ⟨.empty, .empty⟩⟩ :: (l ++ l₂), P x.q :=
      fun hp => hp.ensures.mono fun _ _ _ h => hstart (forall_mem_append.mpr ⟨hl, h⟩)
    cases a with
    | error e => exact hrest (hrollback _ _)
    | ok a =>
    refine hrest (.ask (hframe _).2.1 fun r => ?_)
    cases r with
    | error e => exact hrollback _ _
    | ok => exact .ret _
  · cases hr

end

/-! ## Merge -/

def mergingStore : IdentityStore := ⟨true, Text.CaseTables.ascii⟩

def LinkRow.repoint (sourceID targetID : UUID) (row : LinkRow) : LinkRow := if row.identityID = sourceID then { row with identityID := targetID } else row

section

variable {db : IdentityDB} {S S' : Session} {tx : ℕ} {sourceID targetID : UUID}

theorem link_repointed (c : UUID) : db.link { S with links := S.links.write (Stmt.repointed db S targetID sourceID) } c =
    (db.link S c).map (.repoint sourceID targetID) := by
  rw [IdentityDB.link, Overlay.view_write, Stmt.repointed]
  change Option.getD _ (db.link S c) = _
  cases db.link S c with
  | none => rfl
  | some row =>
  rw [Option.bind_some, Option.map_some, LinkRow.repoint]
  split_ifs <;> rfl

/-- The links of the sources have been pointed to the target. -/
def Repoints (db : IdentityDB) (sourceIDs : List UUID) (targetID : UUID) (S S' : Session) : Prop :=
  ∀ c row, db.link S c = some row → ∃ row', db.link S' c = some row' ∧ row'.identityID = if row.identityID ∈ sourceIDs then targetID else row.identityID

theorem links_setMergedInto {now : Time} {fresh : UUID} {u : Unit} (h : (Stmt.setMergedInto targetID sourceID).run db S now fresh = .ok (u, S')) :
    S'.links = S.links := by
  simp only [Stmt.run] at h
  cases hrow : db.identity S sourceID with
  | none =>
    rw [hrow] at h
    cases h
    rfl
  | some row =>
  rw [hrow] at h
  dsimp only at h
  split_ifs at h
  cases h
  rfl

theorem brings_mergeInTx : Ensures exec (mergeInTx db.next sourceID targetID) (within db S) (Brings db fun _ S' => Repoints db [sourceID] targetID S S') := by
  simp only [mergeInTx, send_bind, pure_eq]
  refine Brings.stmt ?_ fun _ _ => .ret .error
  rintro now fresh _ S₁ ⟨⟩
  refine Brings.stmt (fun now fresh _ S₂ hrepoint => ?_) fun _ _ => .ret .error
  simp only [Stmt.run] at hrepoint
  split_ifs at hrepoint
  cases hrepoint
  refine Brings.stmt (fun now fresh _ S₃ hset => ?_) fun _ _ => .ret .error
  refine Brings.ret fun c row hrow => ⟨row.repoint sourceID targetID, ?_, ?_⟩
  · rw [IdentityDB.link, links_setMergedInto hset]
    refine (link_repointed c).trans ?_
    rw [show db.link _ c = some row from hrow]
    rfl
  rw [LinkRow.repoint]
  by_cases hpoints : row.identityID = sourceID
  · rw [if_pos hpoints, if_pos (mem_singleton.mpr hpoints)]
  · rw [if_neg hpoints, if_neg (by simpa using hpoints)]

theorem brings_mergeAll (sourceIDs : List UUID) :
    Ensures exec (mergeAll db.next targetID sourceIDs) (within db S) (Brings db fun _ S' => Repoints db sourceIDs targetID S S') := by
  induction sourceIDs generalizing S with
  | nil => exact Brings.ret fun c row hrow => ⟨row, hrow, rfl⟩
  | cons sourceID rest ih =>
    refine Brings.bind brings_mergeInTx (fun _ S₁ hfirst => ?_) fun _ _ => .ret .error
    refine Ensures.mono ih fun l a t ht x hx => ?_
    obtain ⟨S₂, hrest, rfl⟩ := ht x hx
    refine ⟨S₂, fun c row hrow => ?_, rfl⟩
    obtain ⟨row₁, hrow1, hid1⟩ := hfirst c row hrow
    obtain ⟨row₂, hrow2, hid2⟩ := hrest c row₁ hrow1
    refine ⟨row₂, hrow2, hid2.trans ?_⟩
    rw [hid1]
    by_cases hpoints : row.identityID = sourceID
    · simp [hpoints]
    · simp [hpoints]

end

/-! ## Evaluation -/

structure Desk where
  db : IdentityDB
  quiet : Quiet db
  tx : Option Session

namespace Desk

def view (d : Desk) : IdentityDB := (d.tx.map (within d.db)).getD d.db

/-- The answers to that call, at `now` and with `id` for every new identifier. -/
def serve (now : Time) (id : UUID) : (q : Req) → Desk → Resp q × Desk
  | .newUUID, d => (id, d)
  | .clock, d => (now, d)
  | .begin, d => (.ok d.db.next, { d with tx := some ⟨.empty, .empty⟩ })
  | .setTenant _ _, d => (.ok (), d)
  | .stmt _ st, d =>
    match st.run d.db (d.tx.getD ⟨.empty, .empty⟩) now id with
    | .ok (a, S) => (.ok a, { d with tx := some S })
    | .error e => (.error e, d)
  | .commit _, d => (.ok (), ⟨committed d.db (d.tx.getD ⟨.empty, .empty⟩), d.quiet.committed _, none⟩)
  | .rollback _, d => ((), { d with tx := none })

def ok (now : Time) (id : UUID) : Req → Desk → Bool
  | .begin, d => d.tx.isNone
  | .stmt tx st, d => tx = d.db.next && d.tx.any fun S => (st.run d.db S now id).isOk
  | .commit tx, d => tx = d.db.next && d.tx.isSome
  | .rollback _, _ => false
  | _, _ => true

theorem act_serve (now : Time) (id : UUID) (q : Req) (d : Desk) (h : ok now id q d) : act q d.view (serve now id q d).1 (serve now id q d).2.view := by
  obtain ⟨db, hq, tx⟩ := d
  cases q with
  | newUUID => rfl
  | clock => rfl
  | begin =>
    obtain rfl : tx = none := Option.isNone_iff_eq_none.mp h
    exact ⟨rfl, rfl⟩
  | setTenant _ _ => exact ⟨rfl, rfl⟩
  | stmt t st =>
    obtain ⟨ht, hrun⟩ := Bool.and_eq_true_iff.mp h
    obtain rfl := of_decide_eq_true ht
    cases tx with
    | none => cases hrun
    | some S =>
    have hok : (st.run db S now id).isOk = true := hrun
    simp only [serve, Option.getD_some]
    cases hst : st.run db S now id with
    | error e =>
      rw [hst] at hok
      cases hok
    | ok x => exact act_within hq hst
  | commit t =>
    obtain ⟨ht, htx⟩ := Bool.and_eq_true_iff.mp h
    obtain rfl := of_decide_eq_true ht
    obtain ⟨S, rfl⟩ := Option.isSome_iff_exists.mp htx
    exact ⟨S, within_sessions, rfl, (commit_within hq).symm⟩
  | rollback t => cases h

theorem runs {α : Type} (now : Time) (id : UUID) (p : Client α) (d : Desk) (h : p.okay (serve now id) (ok now id) d) :
    Runs exec p d.view ((p.served (serve now id) d).map fun x => ⟨x.q, x.r, x.pre.view, x.post.view⟩) (p.eval (serve now id) d).1
      (p.eval (serve now id) d).2.view := (Runs.okay view (act_serve now id) p d h).mono fun _ _ _ _ => .inl

end Desk

end Crm.Contacts
