import Crm.Contacts.Graph
import Crm.Contacts.Alone

/-!
# Crm.Contacts.Interleaving — the calls of one tenant, in any order

The calls keep the invariant of `Crm.Contacts.Graph`: along the program text a call knows what its transaction holds and sees (`Holds`), and what the
other calls do leaves that (`Stable`).
-/

namespace Crm.Contacts

open Interleave RowLocks Prog List

def Owns (w : W) (i tx : ℕ) : Prop := ∃ pre post, .act i .begin (.ok tx) pre post ∈ w.hist

structure Handles (w : W) : Prop where
  old : ∀ i tx, Owns w i tx → tx < w.store.next
  unique : ∀ i j tx, Owns w i tx → Owns w j tx → i = j

/-- A call relies on the others to leave its transactions and what they hold. -/
def spec : Spec Req Resp IdentityDB Call Res where
  inv := fun w => Inv w.store ∧ Handles w
  rely := fun i v w => v.hist ⊆ w.hist ∧ ∀ tx, Owns v i tx → w.store.sessions tx = v.store.sessions tx ∧
    ∀ S, v.store.sessions tx = some S → Frame S v.store w.store
  refl := fun _ _ => ⟨fun _ hm => hm, fun _ _ => ⟨rfl, fun _ _ => .of_eq rfl rfl⟩⟩
  trans := by
    rintro i u v w ⟨huv, hframe⟩ ⟨hvw, hframe'⟩
    refine ⟨fun _ hm => hvw (huv hm), fun tx htx => ?_⟩
    have htx' : Owns v i tx := by
      obtain ⟨pre, post, hm⟩ := htx
      exact ⟨pre, post, huv hm⟩
    obtain ⟨hs, hf⟩ := hframe tx htx
    obtain ⟨hs', hf'⟩ := hframe' tx htx'
    exact ⟨hs'.trans hs, fun S hS => (hf S hS).trans (hf' S (hs.trans hS))⟩

/-- Call `i` knows `P` of its transaction, as long as it is open. -/
def Holds (i tx : ℕ) (P : Session → IdentityDB → Prop) (w : W) : Prop := Owns w i tx ∧ ∀ S, w.store.sessions tx = some S → P S w.store

def Stable (P : Session → IdentityDB → Prop) : Prop := ∀ S db db', Frame S db db' → P S db → P S db'

section

variable {i tx : ℕ} {w : W} {P : Session → IdentityDB → Prop}

theorem Owns.mono {v : W} (h : Owns v i tx) (hsub : v.hist ⊆ w.hist) : Owns w i tx := by
  obtain ⟨pre, post, hm⟩ := h
  exact ⟨pre, post, hsub hm⟩

theorem Owns.after (h : Owns w i tx) (e : Ev) : Owns (w.after e) i tx := h.mono (subset_cons_self _ _)

theorem Holds.rely {v : W} (hP : Stable P) (h : Holds i tx P v) (hrely : spec.rely i v w) : Holds i tx P w := by
  obtain ⟨hsub, hframe⟩ := hrely
  obtain ⟨hs, hf⟩ := hframe tx h.1
  refine ⟨h.1.mono hsub, fun S hS => ?_⟩
  have hS' : v.store.sessions tx = some S := hs.symm.trans hS
  exact hP S v.store w.store (hf S hS') (h.2 S hS')

variable {q : Req} {r : Resp q} {db db' : IdentityDB}

theorem Owns.act_inv {j u : ℕ} {pre post : IdentityDB} (h : Owns (w.after (.act j q r pre post)) i u) :
    Owns w i u ∨ (i = j ∧ q = .begin ∧ HEq r (Except.ok u : Except Err ℕ)) := by
  obtain ⟨pre', post', hm⟩ := h
  rcases mem_cons.mp hm with heq | hm
  · cases heq
    exact .inr ⟨rfl, rfl, HEq.rfl⟩
  · exact .inl ⟨pre', post', hm⟩

theorem exec_next (h : exec q db r db') : db.next ≤ db'.next := by
  rcases exec_cases h with rfl | ⟨_, -, rfl⟩ | ⟨-, -, rfl⟩ | ⟨_, _, -, -, rfl⟩ | ⟨_, _, _, _, _, _, _, -, -, -, -, -, rfl⟩
  · exact le_rfl
  · exact le_rfl
  · exact Nat.le_succ _
  · exact le_rfl
  · exact le_rfl

theorem Handles.act (h : Handles w) (he : exec q w.store r db') : Handles (w.after (.act i q r w.store db')) := by
  -- a new transaction has the next number, which no earlier one has
  have hnew : ∀ {u}, q = .begin → HEq r (Except.ok u : Except Err ℕ) → u = w.store.next ∧ db'.next = w.store.next + 1 := by
    rintro u rfl hr
    cases eq_of_heq hr
    rcases he with ⟨hr', rfl⟩ | ⟨-, e, -, hr'⟩
    · exact ⟨Except.ok.inj hr', rfl⟩
    · cases hr'
  refine ⟨fun j u hu => ?_, fun j k u hj hk => ?_⟩
  · rcases hu.act_inv with hu | ⟨-, hq, hr⟩
    · exact (h.old j u hu).trans_le (exec_next he)
    · obtain ⟨rfl, hnext⟩ := hnew hq hr
      rw [World.after_act_store, hnext]
      exact Nat.lt_succ_self _
  rcases hj.act_inv with hj | ⟨rfl, hq, hr⟩
  · rcases hk.act_inv with hk | ⟨-, hq, hr⟩
    · exact h.unique j k u hj hk
    · obtain ⟨rfl, -⟩ := hnew hq hr
      exact absurd (h.old j _ hj) (Nat.lt_irrefl _)
  rcases hk.act_inv with hk | ⟨rfl, -, -⟩
  · obtain ⟨rfl, -⟩ := hnew hq hr
    exact absurd (h.old k _ hk) (Nat.lt_irrefl _)
  · rfl

theorem keeps_act (hinv : spec.inv w) (hown : ∀ u, q.handle = some u → Owns w i u)
    (hready : ∀ u s S, q = .stmt u s → w.store.sessions u = some S → Ready w.store S s) (he : exec q w.store r db') :
    spec.Keeps i w (.act i q r w.store db') := by
  refine ⟨⟨hinv.1.exec hready he, hinv.2.act he⟩, fun j hj => ⟨fun _ hm => mem_cons_of_mem _ hm, fun u hu => ?_⟩⟩
  refine exec_frame hinv.1 he ?_ (hinv.2.old j u hu)
  intro hq
  exact hj (hinv.2.unique j i u hu (hown u hq))

abbrev Sf {α : Type} (s : IdentityStore) (allow : W → Ev → Prop) (i : ℕ) (Q : α → W → Prop) (p : Client α) (w : W) : Prop :=
  Safe (system s allow) spec i Q p w

variable {s : IdentityStore} {allow : W → Ev → Prop} {α : Type} {Q : α → W → Prop}

theorem safe_ask {k : Resp q → Client α} (hP : Stable P) (hq : ∀ u, q.handle = some u → u = tx) (hw : Holds i tx P w)
    (hready : ∀ st, q = .stmt tx st → ∀ S db, P S db → Ready db S st)
    (hk : ∀ (v : W) (r : Resp q) (db' : IdentityDB), spec.inv v → Holds i tx P v → exec q v.store r db' → allow v (.act i q r v.store db') →
      spec.inv (v.after (.act i q r v.store db')) → Sf s allow i Q (k r) (v.after (.act i q r v.store db'))) :
    Sf s allow i Q (.ask q k) w := by
  intro v hv hinv r db' he ha
  have hholds := hw.rely hP hv
  have hkeeps : spec.Keeps i v (.act i q r v.store db') := by
    refine keeps_act hinv (fun u hu => ?_) (fun u st S heq hS => ?_) he
    · rw [hq u hu]
      exact hholds.1
    · subst heq
      obtain rfl := hq u rfl
      exact hready st rfl S v.store (hholds.2 S hS)
  exact ⟨hkeeps, hk v r db' hinv hholds he ha hkeeps.1⟩

theorem safe_ret {a : α} (hP : Stable P) (hw : Holds i tx P w) (h : ∀ v : W, Holds i tx P v → Q a v) :
    Sf s allow i Q (.ret a) w := fun v hv _ => h v (hw.rely hP hv)

/-! ### Programs that only read -/

def Reads : Stmt → Prop
  | .lookup _ _ => True
  | .contactOf _ _ => True
  | .selectIdentity _ => True
  | .selectLinks _ => True
  | .identityOf _ => True
  | _ => False

theorem Reads.ready {st : Stmt} (h : Reads st) (S : Session) (db : IdentityDB) : Ready db S st := by
  cases st <;> trivial

theorem Reads.run {st : Stmt} {S S' : Session} {now : Time} {fresh : UUID} {a : st.Result} (h : Reads st) (hrun : st.run db S now fresh = .ok (a, S')) :
    S' = S := by
  cases st <;> first | exact h.elim | (cases hrun; rfl)

def Reading (tx : ℕ) : Req → Prop
  | .newUUID => True
  | .clock => True
  | .stmt u st => u = tx ∧ Reads st
  | _ => False

theorem setSession_same {S : Session} (h : db.sessions tx = some S) : db.setSession tx (some S) = db := by
  rw [IdentityDB.setSession, ← h, Function.update_eq_self]

theorem Reading.exec (h : Reading tx q) (he : exec q db r db') : db' = db := by
  cases q with
  | newUUID => exact he.resolve_right fun hf => hf
  | clock => exact he.resolve_right fun hf => hf
  | begin => exact h.elim
  | setTenant _ _ => exact h.elim
  | commit _ => exact h.elim
  | rollback _ => exact h.elim
  | stmt u st =>
  rcases he with ⟨S, now, fresh, hS, -, ⟨a, S', hrun, -, rfl⟩ | ⟨e, -, -, rfl⟩⟩ | ⟨rfl, -⟩
  · rw [h.2.run hrun]
    exact setSession_same hS
  · rfl
  · rfl

theorem safe_reads {p : Client α} (hp : p.Sends (Reading tx)) (hP : Stable P) (hw : Holds i tx P w) :
    Sf s allow i (fun _ v => Holds i tx P v) p w := by
  refine Safe.of_sends (K := Holds i tx P) (fun _ _ _ h => h) (fun hrely h => h.rely hP hrely) ?_ hw hp
  intro v q r db' hinv hholds hq he _
  obtain rfl := hq.exec he
  refine ⟨keeps_act hinv (fun u hu => ?_) (fun u st S heq _ => ?_) he, hholds.1.after _, hholds.2⟩
  · cases q with
    | stmt t st =>
      obtain rfl : t = u := Option.some.inj hu
      rw [hq.1]
      exact hholds.1
    | newUUID => cases hu
    | clock => cases hu
    | begin => exact hq.elim
    | setTenant _ _ => exact hq.elim
    | commit _ => exact hq.elim
    | rollback _ => exact hq.elim
  · subst heq
    exact hq.2.ready S _

theorem sends_lookup (channel externalID : String) : (lookup tx channel externalID).Sends (Reading tx) := by
  refine .ask ⟨rfl, trivial⟩ fun r => ?_
  cases r with
  | error e => exact .ret _
  | ok x => cases x <;> exact .ret _

theorem sends_addHit {reason : LinkReason} {candidates : List MergeCandidate} {p : Client (Except Err (UUID × Bool))} (hp : p.Sends (Reading tx)) :
    (addHit reason candidates p).Sends (Reading tx) := by
  refine hp.bind fun r => ?_
  cases r with
  | ok x => exact .ret _
  | error e =>
  dsimp only
  split_ifs <;> exact .ret _

theorem sends_lookupCandidates (mergeEnabled : Bool) (channel externalID phone email : String) :
    (lookupCandidates mergeEnabled tx channel externalID phone email).Sends (Reading tx) := by
  refine (sends_addHit (sends_lookup channel externalID)).bind fun r => ?_
  cases r with
  | error e => exact .ret _
  | ok direct =>
  dsimp only
  split
  · exact .ret _
  refine Sends.bind ?_ fun r => ?_
  · split_ifs
    · exact sends_addHit (sends_lookup "whatsapp" phone)
    · exact .ret _
  cases r with
  | error e => exact .ret _
  | ok candidates =>
  dsimp only
  split_ifs
  · exact sends_addHit (sends_lookup "email" email)
  · exact .ret _

theorem sends_loadIdentity (tenantID identityID : UUID) : (loadIdentity tenantID tx identityID).Sends (Reading tx) := by
  refine .ask ⟨rfl, trivial⟩ fun r => ?_
  cases r with
  | error e => exact .ret _
  | ok row =>
  cases row with
  | none => exact .ret _
  | some row =>
  refine .ask ⟨rfl, trivial⟩ fun r => ?_
  cases r <;> exact .ret _

end

/-! ## Merges -/

/-- A merge finds two identities when it has locked them, and the target is not merged. -/
def Proper (_ : W) : Ev → Prop
  | .act _ (.stmt tx (.lockIdentities sourceID targetID)) r pre _ => r = .ok () → sourceID ≠ targetID ∧
      ∀ S, pre.sessions tx = some S → pre.identity S sourceID ≠ none ∧ Unmerged (pre.identity S) targetID
  | _ => True

/-- The transaction has written identities only to merge them into the target. -/
def Merging (targetID : UUID) (S : Session) (db : IdentityDB) : Prop :=
  ∀ id x, S.ids.writes id = some x → pointer (db.identity S) id = some (some targetID)

/-- The transaction has locked the source and the target, another identity that is not merged. -/
structure Locked (sourceID targetID : UUID) (S : Session) (db : IdentityDB) : Prop where
  merging : Merging targetID S db
  source : S.ids.holds sourceID = true
  target : S.ids.holds targetID = true ∧ Unmerged (db.identity S) targetID
  ne : sourceID ≠ targetID

structure Repointed (sourceID targetID : UUID) (S : Session) (db : IdentityDB) : Prop extends Locked sourceID targetID S db where
  unlinked : ∀ c row, db.link S c = some row → row.identityID ≠ sourceID

def Fresh (id : UUID) (S : Session) (db : IdentityDB) : Prop := S.ids.holds id = true ∧ Unmerged (db.identity S) id

section

variable {i tx : ℕ} {w : W} {sourceID targetID id : UUID}

theorem stable_true : Stable fun _ _ => True := fun _ _ _ _ h => h

theorem stable_merging : Stable (Merging targetID) := fun _ _ _ hframe h id x hw =>
  (pointer_congr (hframe.identity (Overlay.holds_of_writes hw))).trans (h id x hw)

theorem stable_fresh : Stable (Fresh id) := fun _ _ _ hframe h => ⟨h.1, hframe.unmerged h.1 h.2⟩

theorem stable_locked : Stable (Locked sourceID targetID) := fun S db db' hframe h =>
  ⟨stable_merging S db db' hframe h.merging, h.source, stable_fresh S db db' hframe h.target, h.ne⟩

theorem stable_repointed : Stable (Repointed sourceID targetID) := by
  refine fun S db db' hframe h => ⟨stable_locked S db db' hframe h.toLocked, fun c row hrow => ?_⟩
  rcases hframe.link hrow with hold | hno
  · exact h.unlinked c row hold
  · rintro rfl
    rw [h.source] at hno
    cases hno

theorem exec_stmt_ok {st : Stmt} {a : st.Result} {db db' : IdentityDB} (h : exec (.stmt tx st) db (.ok a) db') :
    ∃ S S' now fresh, db.sessions tx = some S ∧ st.run db S now fresh = .ok (a, S') ∧ db' = db.setSession tx (some S') := by
  rcases h with ⟨S, now, fresh, hS, -, ⟨a', S', hrun, hr, rfl⟩ | ⟨e, -, hr, -⟩⟩ | ⟨-, e, -, hr⟩
  · cases hr
    exact ⟨S, S', now, fresh, hS, hrun, rfl⟩
  · cases hr
  · cases hr

theorem Holds.run {P P' : Session → IdentityDB → Prop} {st : Stmt} {a : st.Result} {db' : IdentityDB} (hstable : Stable P') (h : Holds i tx P w)
    (he : exec (.stmt tx st) w.store (.ok a) db')
    (hP : ∀ S S' now fresh, w.store.sessions tx = some S → P S w.store → st.run w.store S now fresh = .ok (a, S') → P' S' w.store) :
    Holds i tx P' (w.after (.act i (.stmt tx st) (.ok a) w.store db')) := by
  obtain ⟨S, S', now, fresh, hS, hrun, rfl⟩ := exec_stmt_ok he
  refine ⟨h.1.after _, fun S'' hS'' => ?_⟩
  rw [World.after_act_store, setSession_self] at hS''
  cases hS''
  exact hstable S' w.store _ (.of_eq rfl rfl) (hP S S' now fresh hS (h.2 S hS) hrun)

variable {db : IdentityDB} {S S' : Session} {now : Time} {fresh : UUID}
variable {u : Unit}

theorem Merging.lock (h : Merging targetID S db) (hne : sourceID ≠ targetID) (hsource : db.identity S sourceID ≠ none)
    (htarget : Unmerged (db.identity S) targetID) (hrun : (Stmt.lockIdentities sourceID targetID).run db S now fresh = .ok (u, S')) :
    Locked sourceID targetID S' db := by
  cases hrun
  refine ⟨h, ?_, ⟨?_, htarget⟩, hne⟩
  · simp [Stmt.needsIdentity, Option.isSome_iff_ne_none.mpr hsource]
  · simp [Stmt.needsIdentity, Option.isSome_iff_ne_none.mpr htarget.ne_none]

theorem Locked.repoint (h : Locked sourceID targetID S db) (hrun : (Stmt.repointLinks targetID sourceID).run db S now fresh = .ok (u, S')) :
    Repointed sourceID targetID S' db := by
  simp only [Stmt.run] at hrun
  split_ifs at hrun
  cases hrun
  refine ⟨⟨h.merging, h.source, h.target, h.ne⟩, fun c row hrow => ?_⟩
  rw [IdentityDB.link, Overlay.view_write, Stmt.repointed] at hrow
  cases hl : db.link S c with
  | none =>
    rw [hl, Option.bind_none, Option.getD_none] at hrow
    cases hl.symm.trans hrow
  | some old =>
  rw [hl, Option.bind_some] at hrow
  by_cases hpoints : old.identityID = sourceID
  · rw [if_pos hpoints, Option.getD_some] at hrow
    cases hrow
    exact h.ne.symm
  · rw [if_neg hpoints, Option.getD_none] at hrow
    obtain rfl := Option.some.inj (hl.symm.trans hrow)
    exact hpoints

theorem Repointed.merge (h : Repointed sourceID targetID S db) (hrun : (Stmt.setMergedInto targetID sourceID).run db S now fresh = .ok (u, S')) :
    Merging targetID S' db := by
  simp only [Stmt.run] at hrun
  cases hrow : db.identity S sourceID with
  | none =>
    rw [hrow] at hrun
    cases hrun
    exact h.merging
  | some row =>
  rw [hrow] at hrun
  dsimp only at hrun
  rw [if_neg h.target.2.ne_none] at hrun
  cases hrun
  intro id x hw
  rw [Overlay.writes_put] at hw
  rw [pointer, IdentityDB.identity, Overlay.view_put]
  by_cases hid : id = sourceID
  · rw [if_pos hid]
    rfl
  · rw [if_neg hid] at hw ⊢
    exact h.merging id x hw

theorem fresh_insert {createdAt : Option Time} (hrun : (Stmt.insertIdentity id createdAt).run db S now fresh = .ok (u, S')) : Fresh id S' db := by
  simp only [Stmt.run] at hrun
  split_ifs at hrun
  cases hrun
  refine ⟨by simp [Overlay.holds_put], ?_⟩
  rw [Unmerged, pointer, IdentityDB.identity, Overlay.view_put, if_pos rfl]
  rfl

variable {s : IdentityStore} {allow : W → Ev → Prop} {α : Type} {P : α → Session → IdentityDB → Prop}

/-- The call has its transaction, and knows `P` of it after a success. -/
def Leaves (i tx : ℕ) (P : α → Session → IdentityDB → Prop) (a : Except Err α) (v : W) : Prop := Owns v i tx ∧ ∀ x, a = .ok x → Holds i tx (P x) v

theorem Owns.holds (h : Owns w i tx) : Holds i tx (fun _ _ => True) w := ⟨h, fun _ _ => trivial⟩

theorem safe_fail (e : Err) (hw : Owns w i tx) : Sf s allow i (Leaves i tx P) (.ret (.error e)) w :=
  safe_ret stable_true hw.holds fun _ hu => ⟨hu.1, by rintro _ ⟨⟩⟩

theorem safe_done {a : α} (hP : Stable (P a)) (hw : Holds i tx (P a) w) : Sf s allow i (Leaves i tx P) (.ret (.ok a)) w :=
  safe_ret hP hw fun _ hu => ⟨hu.1, by rintro _ ⟨⟩; exact hu⟩

theorem safe_owns (a : α) (hw : Owns w i tx) : Sf s allow i (fun _ v => Owns v i tx) (.ret a) w :=
  safe_ret stable_true hw.holds fun _ hu => hu.1

variable {β : Type} {Q : β → W → Prop}

theorem safe_draw {q : Req} {k : Resp q → Client β} (hq : q.handle = none) (hw : Owns w i tx)
    (hk : ∀ v r, Owns v i tx → Sf s allow i Q (k r) v) : Sf s allow i Q (.ask q k) w :=
  safe_ask stable_true (by simp [hq]) hw.holds (by rintro st rfl; cases hq) fun _ r _ _ hv _ _ _ => hk _ r (hv.1.after _)

theorem safe_stmt {P : Session → IdentityDB → Prop} {st : Stmt} {k : Except Err st.Result → Client β} (hP : Stable P) (hw : Holds i tx P w)
    (hready : ∀ S db, P S db → Ready db S st) (herror : ∀ e v, Owns v i tx → Sf s allow i Q (k (.error e)) v)
    (hok : ∀ v a db', Holds i tx P v → exec (.stmt tx st) v.store (.ok a) db' → allow v (.act i (.stmt tx st) (.ok a) v.store db') →
      Sf s allow i Q (k (.ok a)) (v.after (.act i (.stmt tx st) (.ok a) v.store db'))) : Sf s allow i Q (.ask (.stmt tx st) k) w := by
  refine safe_ask hP (by rintro u ⟨⟩; rfl) hw (by rintro st ⟨⟩; exact hready) fun v r db' _ hv he ha _ => ?_
  cases r with
  | error e => exact herror e _ (hv.1.after _)
  | ok a => exact hok v a db' hv he ha

theorem safe_mergeInTx (hw : Holds i tx (Merging targetID) w) :
    Sf s Proper i (Leaves i tx fun _ => Merging targetID) (mergeInTx tx sourceID targetID) w := by
  simp only [mergeInTx, send_bind, pure_eq]
  refine safe_stmt stable_merging hw (fun _ _ _ => trivial) (fun e _ => safe_fail e) fun v _ db' hv he ha => ?_
  obtain ⟨hne, hunmerged⟩ := ha rfl
  have hlocked := hv.run stable_locked he fun S S' now fresh hS hm hrun => hm.lock hne (hunmerged S hS).1 (hunmerged S hS).2 hrun
  refine safe_stmt stable_locked hlocked (fun _ _ h => h.target) (fun e _ => safe_fail e) fun v _ db' hv he _ => ?_
  have hrepointed := hv.run stable_repointed he fun S S' now fresh hS hl hrun => hl.repoint hrun
  refine safe_stmt stable_repointed hrepointed (fun S db h => ?_) (fun e _ => safe_fail e) fun v _ db' hv he _ =>
    safe_done stable_merging (hv.run stable_merging he fun S S' now fresh hS hr hrun => hr.merge hrun)
  refine ⟨h.target.1, h.target.2, h.ne, h.unlinked, fun id x hid hp => ?_⟩
  rw [h.merging id x hid] at hp
  exact h.ne (Option.some.inj (Option.some.inj hp)).symm

theorem safe_mergeAll (sourceIDs : List UUID) (hinv : spec.inv w) (hw : Holds i tx (Merging targetID) w) :
    Sf s Proper i (Leaves i tx fun _ => Merging targetID) (mergeAll tx targetID sourceIDs) w := by
  induction sourceIDs generalizing w with
  | nil => exact safe_done stable_merging hw
  | cons sourceID rest ih =>
    refine Safe.bind (fun r v hinv' hleaves => ?_) hinv (safe_mergeInTx hw)
    cases r with
    | error e => exact safe_fail e hleaves.1
    | ok => exact ih hinv' (hleaves.2 () rfl)

/-! ### New identities -/

theorem safe_createIdentity (hw : Owns w i tx) : Sf s allow i (Leaves i tx Fresh) (createIdentity tx) w := by
  simp only [createIdentity, send_bind, pure_eq]
  refine safe_draw rfl hw fun v id hv => safe_draw rfl hv fun v now hv => ?_
  exact safe_stmt stable_true hv.holds (fun _ _ _ => trivial) (fun e _ => safe_fail e) fun v _ db' hv he _ =>
    safe_done stable_fresh (hv.run stable_fresh he fun S S' now fresh _ _ hrun => fresh_insert hrun)

theorem safe_linkContact (contactID channel : String) (reason : LinkReason) (hw : Holds i tx (Fresh id) w) :
    Sf s allow i (fun _ v => Owns v i tx) (linkContact tx id contactID channel reason) w := by
  simp only [linkContact, send_bind, pure_eq]
  refine safe_stmt stable_fresh hw (fun _ _ _ => trivial) (fun _ _ => safe_owns _) fun v c db' hv he _ => ?_
  cases c with
  | none => exact safe_owns _ (hv.1.after _)
  | some c =>
  have hfresh := hv.run stable_fresh he fun S S' now fresh _ hf hrun => by
    have hreads : Reads (.contactOf channel contactID) := trivial
    obtain rfl := hreads.run hrun
    exact hf
  exact safe_stmt stable_fresh hfresh (fun _ _ h => h) (fun _ _ => safe_owns _) fun v _ _ hv _ _ => safe_owns _ (hv.1.after _)

/-! ### The calls -/

def Clean (S : Session) (_ : IdentityDB) : Prop := S = ⟨.empty, .empty⟩

theorem stable_clean : Stable Clean := fun _ _ _ _ h => h

theorem Clean.merging (h : Clean S db) : Merging targetID S db := by
  rw [h]
  rintro id x ⟨⟩

theorem safe_loadIdentity (tenantID identityID : UUID) (hw : Owns w i tx) :
    Sf s allow i (fun _ v => Owns v i tx) (loadIdentity tenantID tx identityID) w :=
  Safe.mono (fun _ _ _ h => h.1) (safe_reads (sends_loadIdentity tenantID identityID) stable_true hw.holds)

theorem safe_settle (tenantID : UUID) (channel externalID : String) (candidates : List MergeCandidate) (hinv : spec.inv w) (hw : Holds i tx Clean w) :
    Sf s Proper i (fun _ v => Owns v i tx) (settle tenantID tx channel externalID candidates) w := by
  -- every way ends with an identity that is loaded
  have hload : ∀ {β : Type} (identityID : UUID) (k : Except Err Identity → Client (Except Err β)) (v : W), spec.inv v → Owns v i tx →
      (∀ e, ∃ x, k (.error e) = .ret x) → (∀ identity u, Owns u i tx → Sf s Proper i (fun _ v => Owns v i tx) (k (.ok identity)) u) →
      Sf s Proper i (fun _ v => Owns v i tx) (loadIdentity tenantID tx identityID >>= k) v := by
    intro β identityID k v hinv hv herror hk
    refine Safe.bind (fun r u _ hu => ?_) hinv (safe_loadIdentity tenantID identityID hv)
    cases r with
    | error e =>
      obtain ⟨x, hx⟩ := herror e
      rw [hx]
      exact safe_owns _ hu
    | ok identity => exact hk identity u hu
  unfold settle
  dsimp only
  cases (decideMerge candidates).action with
  | new =>
    refine Safe.bind (fun r v hinv hleaves => ?_) hinv (safe_createIdentity hw.1)
    cases r with
    | error e => exact safe_owns _ hleaves.1
    | ok id =>
    refine Safe.bind (fun r v hinv hv => ?_) hinv (safe_linkContact externalID channel .externalID (hleaves.2 id rfl))
    cases r with
    | error e => exact safe_owns _ hv
    | ok => exact hload _ _ v hinv hv (fun e => ⟨_, rfl⟩) fun _ _ hu => safe_owns _ hu
  | link => exact hload _ _ w hinv hw.1 (fun e => ⟨_, rfl⟩) fun _ _ hu => safe_owns _ hu
  | merge =>
    have hmerging : Holds i tx (Merging (decideMerge candidates).targetID) w := ⟨hw.1, fun S hS => (hw.2 S hS).merging⟩
    refine Safe.bind (fun r v hinv hleaves => ?_) hinv (safe_mergeAll _ hinv hmerging)
    cases r with
    | error e => exact safe_owns _ hleaves.1
    | ok => exact hload _ _ v hinv hleaves.1 (fun e => ⟨_, rfl⟩) fun _ _ hu => safe_owns _ hu
  | propose =>
  rcases candidates with _ | ⟨c₀, _ | ⟨c₁, rest⟩⟩
  · exact safe_owns _ hw.1
  · exact safe_owns _ hw.1
  · refine hload _ _ w hinv hw.1 (fun e => ⟨_, rfl⟩) fun identity u hu => ?_
    exact safe_draw rfl hu fun v id hv => safe_draw rfl hv fun v now hv => safe_owns _ hv

theorem safe_begin {k : Except Err ℕ → Client α} {Q : α → W → Prop} (herror : ∀ e v, Sf s allow i Q (k (.error e)) v)
    (hok : ∀ tx v, spec.inv v → Holds i tx Clean v → Sf s allow i Q (k (.ok tx)) v) : Sf s allow i Q (.ask .begin k) w := by
  intro v _ hinv r db' he _
  have hkeeps : spec.Keeps i v (.act i .begin r v.store db') := keeps_act hinv (by rintro u ⟨⟩) (by rintro u st S ⟨⟩) he
  refine ⟨hkeeps, ?_⟩
  cases r with
  | error e => exact herror e _
  | ok tx =>
  refine hok tx _ hkeeps.1 ⟨⟨_, _, mem_cons_self⟩, fun S hS => ?_⟩
  rcases he with ⟨hr, rfl⟩ | ⟨-, e, -, hr⟩
  · cases hr
    rw [World.after_act_store, setSession_self] at hS
    exact (Option.some.inj hS).symm
  · cases hr

theorem safe_rollback (a : Except Err α) (hw : Owns w i tx) :
    Sf s allow i (fun _ _ => True) (.ask (.rollback tx) fun _ => .ret a) w :=
  safe_ask stable_true (by rintro u ⟨⟩; rfl) hw.holds (by rintro st ⟨⟩) fun _ _ _ _ _ _ _ _ _ _ _ => trivial

theorem safe_withTenant (tenantID : UUID) {fn : ℕ → Client (Except Err α)}
    (hfn : ∀ tx v, spec.inv v → Holds i tx Clean v → Sf s allow i (fun _ v => Owns v i tx) (fn tx) v) :
    Sf s allow i (fun _ _ => True) (withTenant tenantID fn) w := by
  simp only [withTenant, send_bind, pure_eq]
  split_ifs
  · exact .stop
  refine safe_begin (fun e v _ _ _ => trivial) fun tx v hinv hv => ?_
  refine safe_ask stable_clean (by rintro u ⟨⟩; rfl) hv (by rintro st ⟨⟩) fun v r db' _ hv he _ hinv => ?_
  cases r with
  | error e => exact safe_rollback _ (hv.1.after _)
  | ok =>
  refine Safe.bind (fun r v hinv hv => ?_) hinv (hfn tx _ hinv ?_)
  · cases r with
    | error e => exact safe_rollback _ hv
    | ok a =>
      refine safe_ask stable_true (by rintro u ⟨⟩; rfl) hv.holds (by rintro st ⟨⟩) fun v r db' _ hv he _ hinv => ?_
      cases r with
      | error e => exact safe_rollback _ (hv.1.after _)
      | ok => exact .stop
  · obtain rfl : db' = v.store := he.elim And.right And.left
    exact ⟨hv.1.after _, hv.2⟩

theorem safe_body (c : Call) (hinv : spec.inv w) : Sf s Proper i (fun _ _ => True) (body s c) w := by
  have hdone : ∀ {α β : Type} {p : Client (Except Err α)} {k : Except Err α → Client β}, Sf s Proper i (fun _ _ => True) p w →
      (∀ r, ∃ a, k r = .ret a) → Sf s Proper i (fun _ _ => True) (p >>= k) w := by
    intro α β p k hp hk
    refine Safe.bind (fun r v _ _ => ?_) hinv hp
    obtain ⟨a, ha⟩ := hk r
    rw [ha]
    exact .stop
  cases c with
  | resolve tenantID channel externalID phone email =>
    simp only [body, resolve]
    split_ifs
    · exact .stop
    refine hdone (safe_withTenant tenantID fun tx v hinv hv => ?_) ?_
    · refine Safe.bind (fun r v hinv hv => ?_) hinv (safe_reads (sends_lookupCandidates s.mergeEnabled channel externalID _ _) stable_clean hv)
      cases r with
      | error e => exact safe_owns _ hv.1
      | ok candidates => exact safe_settle tenantID channel externalID candidates hinv hv
    · rintro (e | x) <;> exact ⟨_, rfl⟩
  | merge tenantID sourceID targetID =>
    simp only [body, merge]
    split_ifs
    · exact .stop
    · refine hdone (safe_withTenant tenantID fun tx v hinv hv => ?_) ?_
      · exact Safe.mono (fun _ _ _ h => h.1) (safe_mergeInTx ⟨hv.1, fun S hS => (hv.2 S hS).merging⟩)
      · rintro (e | x) <;> exact ⟨_, rfl⟩
  | split tenantID linkID =>
    simp only [body, split]
    split_ifs
    · exact .stop
    refine hdone (safe_withTenant tenantID fun tx v hinv hv => ?_) ?_
    · simp only [send_bind, pure_eq]
      refine safe_stmt stable_clean hv (fun _ _ _ => trivial) (fun _ _ => safe_owns _) fun v c db' hv _ _ => ?_
      cases c with
      | none => exact safe_owns _ (hv.1.after _)
      | some contactID =>
      refine safe_stmt stable_true (hv.1.after _).holds (fun _ _ _ => trivial) (fun _ _ => safe_owns _) fun v _ db' hv _ _ => ?_
      refine safe_draw rfl (hv.1.after _) fun v newID hv => ?_
      refine safe_stmt stable_true hv.holds (fun _ _ _ => trivial) (fun _ _ => safe_owns _) fun v _ db' hv he _ => ?_
      have hfresh := hv.run stable_fresh he fun S S' now fresh _ _ hrun => fresh_insert hrun
      exact safe_stmt stable_fresh hfresh (fun _ _ h => h) (fun _ _ => safe_owns _) fun v _ _ hv _ _ => safe_owns _ (hv.1.after _)
    · rintro (e | x) <;> exact ⟨_, rfl⟩
  | findByContactID tenantID contactID =>
  simp only [body, findByContactID]
  split_ifs
  · exact .stop
  refine hdone (safe_withTenant tenantID fun tx v hinv hv => ?_) ?_
  · refine Safe.mono (fun _ _ _ h => h.1) (safe_reads ?_ stable_clean hv)
    refine .ask ⟨rfl, trivial⟩ fun r => ?_
    cases r with
    | error e => exact .ret _
    | ok identityID =>
    cases identityID with
    | none => exact .ret _
    | some identityID => exact sends_loadIdentity tenantID identityID
  · rintro (e | x) <;> exact ⟨_, rfl⟩

theorem identities_verified : Verified (system s Proper) spec := by
  -- an invocation and a response leave the tables and the transactions
  have hkeeps : ∀ {w : W} {i : ℕ} {e : Ev}, (w.after e).store = w.store → (∀ j q r pre post, e ≠ .act j q r pre post) → spec.inv w → spec.Keeps i w e := by
    intro w i e hstore hne hinv
    have hold : ∀ {j u}, Owns (w.after e) j u → Owns w j u := by
      rintro j u ⟨pre, post, hm⟩
      exact ⟨pre, post, (mem_cons.mp hm).resolve_left (hne _ _ _ _ _).symm⟩
    refine ⟨⟨hstore ▸ hinv.1, fun j u hu => hstore ▸ hinv.2.old j u (hold hu), fun j k u hj hk => hinv.2.unique j k u (hold hj) (hold hk)⟩, ?_⟩
    refine fun j _ => ⟨fun _ hm => mem_cons_of_mem _ hm, fun u _ => ?_⟩
    rw [hstore]
    exact ⟨rfl, fun _ _ => .of_eq rfl rfl⟩
  intro w i c hinv _ _
  have hinvoke : spec.Keeps i w (.invoke i c) := hkeeps rfl (by rintro _ _ _ _ _ ⟨⟩) hinv
  exact ⟨hinvoke, Safe.mono (fun a v hv _ _ => hkeeps rfl (by rintro _ _ _ _ _ ⟨⟩) hv) (safe_body c hinvoke.1)⟩

end

/-- **Links and merges.**  Whatever calls of one tenant run, in any order and with any failures: where a merge finds two identities when
it has locked them and the target is not merged, every link points to an unmerged identity and every way along `merged_into_id` ends at one. -/
theorem links_unmerged (s : IdentityStore) (db₀ : IdentityDB) (hquiet : ∀ tx, db₀.sessions tx = none) (hsound : Sound db₀.identities db₀.links)
    (σ : Conf Req Resp IdentityDB Call Res) (hr : Reach (system s Proper) db₀ σ) : Sound σ.world.store.identities σ.world.store.links := by
  refine (identities_verified.inv ⟨⟨hsound, ?_, ?_, ?_⟩, ?_, ?_⟩ hr).1.sound
  · intro tx S hS
    rw [hquiet tx] at hS
    cases hS
  · intro t u S S' _ hS
    rw [hquiet t] at hS
    cases hS
  · intro tx S hS
    rw [hquiet tx] at hS
    cases hS
  · rintro i tx ⟨_, _, ⟨⟩⟩
  · rintro i j tx ⟨_, _, ⟨⟩⟩

/-- Identities 1 and 2, and a contact that is linked to the first. -/
def paired : IdentityDB where
  contacts := [5]
  channels := fun _ _ => none
  assigned := fun _ => false
  identities := fun id => if id = 1 ∨ id = 2 then some ⟨0, none⟩ else none
  links := fun c => if c = 5 then some ⟨9, 1, .externalID, 0⟩ else none
  next := 0
  sessions := fun _ => none

theorem sound_paired : Sound paired.identities paired.links where
  linked := by
    intro c row hrow
    simp only [paired] at hrow
    split_ifs at hrow
    cases hrow
    rfl
  ends := by
    intro id hid
    simp only [paired] at hid
    split_ifs at hid with hone
    · refine .root ?_
      simp only [pointer, paired]
      rw [if_pos hone]
      rfl
    · exact absurd rfl hid

theorem links_unmerged_merge : ∃ σ, Reach (system mergingStore Proper) paired σ ∧ pointer σ.world.store.identities 1 = some (some 2) ∧
    Sound σ.world.store.identities σ.world.store.links := by
  have hq : Quiet paired := fun _ => rfl
  obtain ⟨w, hsolo, hw⟩ : ∃ w, Solo (system mergingStore Proper) 0 (body mergingStore (.merge 1 1 2)) (World.after ⟨paired, []⟩ (.invoke 0 (.merge 1 1 2))) (.ret (.ok ())) w ∧
      pointer w.store.identities 1 = some (some 2) := by
    refine Solo.step (.ok 0) _ (.inl ⟨rfl, rfl⟩) trivial ?_
    refine Solo.step (.ok ()) _ (.inl ⟨rfl, rfl⟩) trivial ?_
    refine Solo.step (.ok ()) _ (.inl (act_within hq (rfl : Stmt.run paired _ 0 0 _ = _))) ?_ ?_
    · refine fun _ => ⟨by decide, fun S hS => ?_⟩
      have hS' : (within paired ⟨.empty, .empty⟩).sessions paired.next = some S := hS
      rw [within_sessions] at hS'
      cases hS'
      exact ⟨by rintro ⟨⟩, rfl⟩
    refine Solo.step (.ok ()) _ (.inl (act_within hq (rfl : Stmt.run paired _ 0 0 _ = _))) trivial ?_
    refine Solo.step (.ok ()) _ (.inl (act_within hq (rfl : Stmt.run paired _ 0 0 _ = _))) trivial ?_
    refine Solo.step (.ok ()) _ (.inl ⟨_, within_sessions, rfl, rfl⟩) trivial ?_
    exact ⟨_, .refl _ _, rfl⟩
  have hr := Reach.parks (M := system mergingStore Proper) (i := 0) (s := paired) (c := .merge 1 1 2) .refl rfl trivial hsolo
  exact ⟨_, hr, hw, links_unmerged mergingStore paired (fun _ => rfl) sound_paired _ hr⟩

def mergedBack : Desk := ((merge 1 2 1).eval (Desk.serve 0 0) ((merge 1 1 2).eval (Desk.serve 0 0) ⟨paired, fun _ => rfl, none⟩).2).2

theorem reach_mergedBack : ∃ σ, Reach (system mergingStore fun _ _ => True) paired σ ∧ σ.world.store = mergedBack.view := by
  obtain ⟨w, hr, hst⟩ := Reach.runs (M := system mergingStore fun _ _ => True) (i := 0) (c := .merge 1 1 2) .refl rfl
    (Desk.runs 0 0 (merge 1 1 2) ⟨paired, fun _ => rfl, none⟩ (by decide +kernel)) trivial (fun _ _ _ => trivial) fun _ => trivial
  have hback := Desk.runs 0 0 (merge 1 2 1) ((merge 1 1 2).eval (Desk.serve 0 0) ⟨paired, fun _ => rfl, none⟩).2 (by decide +kernel)
  rw [← hst] at hback
  obtain ⟨w', hr', hst'⟩ := Reach.runs (i := 1) (c := Call.merge 1 2 1) hr rfl hback trivial (fun _ _ _ => trivial) fun _ => trivial
  exact ⟨_, hr', hst'⟩

/-- **Merged back.**  After a merge of 1 into 2 and one of 2 into 1, the contact is linked to a merged identity, and `merged_into_id` goes round. -/
theorem merged_back : ∃ σ, Reach (system mergingStore fun _ _ => True) paired σ ∧ Quiet paired ∧ Sound paired.identities paired.links ∧
    (∃ c row, σ.world.store.links c = some row ∧ ¬ Unmerged σ.world.store.identities row.identityID) ∧
    ∃ id, σ.world.store.identities id ≠ none ∧ ¬ Forest.Ends (pointer σ.world.store.identities) id := by
  obtain ⟨σ, hr, hst⟩ := reach_mergedBack
  obtain ⟨hone, htwo, hlink, hsome⟩ : pointer mergedBack.view.identities 1 = some (some 2) ∧ pointer mergedBack.view.identities 2 = some (some 1) ∧
      mergedBack.view.links 5 = some ⟨9, 1, .externalID, 0⟩ ∧ mergedBack.view.identities 1 ≠ none := by decide +kernel
  rw [← hst] at hone htwo hlink hsome
  refine ⟨σ, hr, fun _ => rfl, sound_paired, ⟨5, _, hlink, ?_⟩, 1, hsome, Forest.not_ends_of_cycle hone htwo⟩
  rw [Unmerged, hone]
  decide

end Crm.Contacts
