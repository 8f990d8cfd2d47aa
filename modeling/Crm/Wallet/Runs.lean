import Crm.Store.Serve
import Crm.Wallet.Safety

/-!
# Crm.Wallet.Runs — runs of the wallet system, and runs of any length

A short run is played from its schedule: `plays` answers every request from the tables, with a new
identifier at every turn.  `Calm s wal n m` describes the tables after it: one wallet `wal` with `n` ledger rows, and identifiers from `uid m` on not drawn
yet.  From there `Run.pump` repeats a reserve and its release, which leaves the counters and adds two rows, as often as wanted, and so drives the version
stamp around once: a copy taken `2 ^ 64` rows ago is then accepted again (`Run.late`).
-/

namespace Crm.Wallet

open Int64Arith Interleave Crm.Store Crm.Grant List

def uid (j : ℕ) : UUID := BitVec.ofNat 128 j

theorem toNat_uid {j : ℕ} (h : j < 2 ^ 128) : (uid j).toNat = j := by
  rw [uid, BitVec.toNat_ofNat, Nat.mod_eq_of_lt h]

theorem uid_inj {j j' : ℕ} (h : j < 2 ^ 128) (h' : j' < 2 ^ 128) (he : uid j = uid j') : j = j' := by
  rw [← toNat_uid h, ← toNat_uid h', he]

def lateKey : String := "late"

theorem string_ne_lateKey (u : UUID) : u.string ≠ lateKey := by
  intro h
  have hu := UUID.parse_string u
  have hlate : UUID.parse lateKey = none := by decide
  rw [h, hlate] at hu
  cases hu

/-! ## Calls that run alone -/

/-- The answer to a request at time 0, with the next identifier where one is drawn. -/
def drawing : (q : Req) → DB × ℕ → Resp q × (DB × ℕ)
  | .newUUID, (s, m) => (uid m, s, m + 1)
  | q, (s, m) => ((serve 0 (uid 1) "" q s).1, (serve 0 (uid 1) "" q s).2, m)

theorem drawing_of_ne {q : Req} (hq : q ≠ .newUUID) (s : DB) (m : ℕ) :
    drawing q (s, m) = ((serve 0 (uid 1) "" q s).1, (serve 0 (uid 1) "" q s).2, m) := by
  cases q with
  | newUUID => exact absurd rfl hq
  | _ => rfl

theorem honest_act {w : W} {i : ℕ} {q : Req} {r : Resp q} {s s' : DB} (hq : q ≠ .newUUID) : Honest w (.act i q r s s') := by
  cases q with
  | newUUID => exact absurd rfl hq
  | _ => trivial

def Drawn (v : W) (m : ℕ) : Prop := ∀ i u, minted i u v → u.toNat < m

theorem Drawn.signal {v : W} {m : ℕ} (h : Drawn v m) {e : Ev} (hne : ∀ j u pre post, e ≠ .act j .newUUID u pre post) : Drawn (v.after e) m := by
  rintro j u ⟨pre, post, hm⟩
  rcases mem_cons.mp hm with hm | hm
  · exact absurd hm.symm (hne j u pre post)
  · exact h j u ⟨pre, post, hm⟩

/-- What `drawing` answers, the system may. -/
theorem Solo.drawing {α : Type} {i : ℕ} : ∀ (k : ℕ) (p : Client α) (v : W) (m : ℕ), Drawn v m → m + k ≤ 2 ^ 128 →
    ∃ v', Solo (system Honest) i p v (p.steps drawing k (v.store, m)).1 v' ∧ v'.store = (p.steps Wallet.drawing k (v.store, m)).2.1 ∧
      Drawn v' (p.steps Wallet.drawing k (v.store, m)).2.2
  | 0, p, v, m, h, _ => ⟨v, .refl p v, rfl, h⟩
  | _ + 1, .ret _, v, _, h, _ => ⟨v, .refl _ v, rfl, h⟩
  | k + 1, .ask q f, v, m, h, hm => by
    by_cases hq : q = .newUUID
    · subst hq
      have hfresh : ∀ j, ¬ minted j (uid m) v := fun j hj => by
        have := h j _ hj
        rw [toNat_uid (by omega)] at this
        omega
      have hnext : Drawn (v.after (.act i .newUUID (uid m) v.store v.store)) (m + 1) := by
        rintro j u ⟨pre, post, hu⟩
        rcases mem_cons.mp hu with hu | hu
        · cases hu
          rw [toNat_uid (by omega)]
          omega
        · exact (h j u ⟨pre, post, hu⟩).trans m.lt_succ_self
      exact Solo.step (uid m) v.store rfl hfresh (Solo.drawing k (f (uid m)) _ (m + 1) hnext (by omega))
    rw [Prog.steps, drawing_of_ne hq]
    refine Solo.step _ _ (exec_serve (by decide) q v.store) (honest_act hq) (Solo.drawing k _ _ m (h.signal ?_) (by omega))
    rintro j u pre post heq
    cases heq
    exact hq rfl

/-! ## The tables between calls -/

/-- A key that is the text of no identifier from `uid m` on. -/
def Early (m : ℕ) (key : String) : Prop := key.utf8ByteSize ≠ 36 ∨ ∃ j < m, key = (uid j).string

instance (m : ℕ) (key : String) : Decidable (Early m key) := inferInstanceAs (Decidable (_ ∨ _))

theorem Early.mono {m m' : ℕ} {key : String} (h : Early m key) (hm : m ≤ m') : Early m' key :=
  h.imp_right fun ⟨j, hj, he⟩ => ⟨j, hj.trans_le hm, he⟩

theorem Early.ne {m : ℕ} {key : String} (h : Early m key) (hm : m < 2 ^ 128) : key ≠ (uid m).string := by
  rintro rfl
  rcases h with h | ⟨j, hj, he⟩
  · exact h (UUID.utf8ByteSize_string _)
  · have := uid_inj hm (hj.trans hm) (UUID.string_injective he)
    omega

@[mk_iff]
structure Calm (s : DB) (wal : TokenWallet) (n m : ℕ) : Prop where
  wallets : s.wallets = [wal]
  nonNil : wal.id ≠ UUID.Nil ∧ wal.tenantID ≠ UUID.Nil
  owner : ∀ r ∈ s.ledger, r.walletID = wal.id ∧ r.tenantID = wal.tenantID
  count : s.ledger.length = n
  ids : ∀ r ∈ s.ledger, r.id.toNat < m
  keys : ∀ r ∈ s.ledger, r.idempotencyKey ≠ lateKey ∧ Early m r.idempotencyKey

instance (s : DB) (wal : TokenWallet) (n m : ℕ) : Decidable (Calm s wal n m) := decidable_of_iff' _ (calm_iff s wal n m)

/-- A key the next call may use: valid, and not reserved for later. -/
structure Spare (key : String) (s : DB) (m : ℕ) : Prop where
  valid : validateIdempotencyKey key = none
  free : ∀ r ∈ s.ledger, r.idempotencyKey ≠ key
  notLate : key ≠ lateKey
  early : Early m key

/-- The tables after a write by a copy `w'` of the wallet row `p`. -/
def applied (s : DB) (p w' : TokenWallet) (e : LedgerEntry) : DB :=
  { s with
    ledger := s.ledger ++ [.ofEntry e]
    wallets := [{ p with balance := w'.balance, reserved := w'.reserved, version := w'.version, updatedAt := 0 }] }

section Calm

variable {s : DB} {wal w' : TokenWallet} {n m m' j : ℕ} {t w : UUID} {key ref : String} {balance reserved : ℤ} {e : LedgerEntry}

theorem Calm.rows (h : Calm s wal n m) : s.rows wal.id = s.ledger := by
  rw [DB.rows, filter_eq_self]
  exact fun r hr => by simpa using (h.owner r hr).1

theorem Calm.load (h : Calm s wal n m) : s.loadByTenant wal.tenantID = .ok wal := by
  simp [DB.loadByTenant, h.wallets, h.nonNil.2]

theorem lookup_free (hk : ∀ r ∈ s.ledger, r.idempotencyKey ≠ key) : s.lookupByIdempotencyKey t w key = .error .notFound := by
  unfold DB.lookupByIdempotencyKey
  split_ifs
  · rfl
  have hnone : s.ledger.find? (fun r => r.tenantID = t ∧ r.walletID = w ∧ r.idempotencyKey = key) = none := by
    rw [find?_eq_none]
    intro r hr
    simp [hk r hr]
  rw [hnone]

theorem lookupCompleted_free (hk : ∀ r ∈ s.ledger, r.settles ref = false) : s.lookupCompletedByExternalRef t w ref = .error .notFound := by
  unfold DB.lookupCompletedByExternalRef
  split_ifs
  · rfl
  have hnone : s.ledger.find? (fun r => r.tenantID = t ∧ r.walletID = w ∧ r.settles ref) = none := by
    rw [find?_eq_none]
    intro r hr
    simp [hk r hr]
  rw [hnone]

/-- `ApplyWithLock` accepts a copy whose version is the stored one plus one. -/
theorem Calm.apply (h : Calm s wal n m) (hver : InRange wal.version) (hb : wal.Bumped balance reserved w') (hb0 : 0 ≤ balance) (hr0 : 0 ≤ reserved)
    (het : e.tenantID = w'.tenantID) (hpair : e.source = none ∨ e.source = some .masterGrant ∧ e.masterGrantID ≠ none) (hid : e.id = uid j) (hj : m ≤ j)
    (hj' : j < 2 ^ 128) (hkey : ∀ r ∈ s.ledger, r.idempotencyKey ≠ e.idempotencyKey) :
    s.applyWithLock w' [e] 0 = .ok ((), applied s wal w' e) := by
  have hfind : s.wallets.find? (fun r => r.id = w'.id ∧ r.tenantID = w'.tenantID) = some wal := by simp [h.wallets, hb.id, hb.tenantID]
  have hstored : wal.version = wrap (w'.version - 1) := by rw [hb.version, wrap_wrap_sub, add_sub_cancel_right, wrap_of_inRange hver]
  have heid : ∀ r ∈ s.ledger, r.id ≠ e.id := by
    intro r hr heq
    have := h.ids r hr
    rw [heq, hid, toNat_uid hj'] at this
    omega
  rw [DB.applyWithLock_eq (by rw [hb.tenantID]; exact h.nonNil.2) hfind hstored (hb.balance ▸ hb0) (hb.reserved ▸ hr0) het hpair heid
    fun r hr _ => hkey r hr]
  simp [applied, DB.updateWallet, h.wallets, hb.id, timestamptz]

theorem Calm.applied (h : Calm s wal n m) (hb : wal.Bumped balance reserved w') (hew : e.walletID = w'.id ∧ e.tenantID = w'.tenantID) (hid : e.id = uid j)
    (hm : m ≤ m') (hj : j < m') (hj' : j < 2 ^ 128) (hkey : Spare e.idempotencyKey s m') :
    ∃ wal', Calm (applied s wal w' e) wal' (n + 1) m' ∧ wal.Bumped balance reserved wal' := by
  have hmem : ∀ x ∈ (Wallet.applied s wal w' e).ledger, x ∈ s.ledger ∨ x = .ofEntry e := fun x hx => by simpa [Wallet.applied] using hx
  refine ⟨{ wal with balance := w'.balance, reserved := w'.reserved, version := w'.version, updatedAt := 0 }, ⟨rfl, h.nonNil, ?_, ?_, ?_, ?_⟩,
    rfl, rfl, hb.version, hb.balance, hb.reserved⟩
  · intro x hx
    rcases hmem x hx with hx | rfl
    · exact h.owner x hx
    · exact ⟨hew.1.trans hb.id, hew.2.trans hb.tenantID⟩
  · simp [Wallet.applied, h.count]
  · intro x hx
    rcases hmem x hx with hx | rfl
    · exact (h.ids x hx).trans_le hm
    · show e.id.toNat < m'
      rwa [hid, toNat_uid hj']
  intro x hx
  rcases hmem x hx with hx | rfl
  · exact ⟨(h.keys x hx).1, (h.keys x hx).2.mono hm⟩
  · exact ⟨hkey.notLate, hkey.early⟩

theorem Calm.spare (h : Calm s wal n m) (hm : m < 2 ^ 128) (hlt : m < m') : Spare (uid m).string s m' where
  valid := by
    have hne : (uid m).string ≠ "" := string_ne_empty _
    rw [validateIdempotencyKey, if_neg hne, UUID.utf8ByteSize_string]
    rfl
  free := fun r hr => (h.keys r hr).2.ne hm
  notLate := string_ne_lateKey _
  early := .inr ⟨m, hlt, rfl⟩

end Calm

/-! ## Runs -/

structure Onward (v v' : W) : Prop where
  hist : ∀ e ∈ v.hist, e ∈ v'.hist
  ledger : ∀ r ∈ v.store.ledger, r ∈ v'.store.ledger
  grants : v'.store.grants = v.store.grants

theorem Onward.trans {u v w : W} (h : Onward u v) (h' : Onward v w) : Onward u w :=
  ⟨fun e he => h'.hist e (h.hist e he), fun r hr => h'.ledger r (h.ledger r hr), h'.grants.trans h.grants⟩

/-- A run in which calls from `N` on have not been started. -/
structure Run (db : DB) (σ : Cfg) (wal : TokenWallet) (n m N : ℕ) : Prop where
  reach : WalletReach db σ
  calm : Calm σ.world.store wal n m
  drawn : Drawn σ.world m
  idle : ∀ i, N ≤ i → σ.pool i = .idle

structure Extends (N : ℕ) (σ σ' : Cfg) : Prop where
  onward : Onward σ.world σ'.world
  pool : ∀ i, i < N → σ'.pool i = σ.pool i

section Runs

variable {db s' : DB} {σ σ' : Cfg} {wal wal' w' : TokenWallet} {n n' m m' N k : ℕ} {c : Call} {balance reserved a b : ℤ} {key ref : String}

theorem Extends.trans {N' : ℕ} {σ'' : Cfg} (h : Extends N σ σ') (h' : Extends N' σ' σ'') (hN : N ≤ N') : Extends N σ σ'' :=
  ⟨h.onward.trans h'.onward, fun i hi => (h'.pool i (by omega)).trans (h.pool i hi)⟩

theorem Run.version (h0 : Initial db) (h : Run db σ wal n m N) : wal.version = stamp n := by
  have hw : wal ∈ σ.world.store.wallets := by
    rw [h.calm.wallets]
    exact mem_singleton_self _
  rw [((worldInv_of_reach h0 h.reach).store.version wal hw).2, h.calm.rows, h.calm.count]

theorem Run.inRange_version (h0 : Initial db) (h : Run db σ wal n m N) : InRange wal.version :=
  h.version h0 ▸ inRange_stamp n

theorem Run.call (h : Run db σ wal n m N) {x : Res c} (hallow : Honest σ.world (.invoke N c))
    (hsteps : (body c).steps drawing k (σ.world.store, m) = (.ret x, s', m')) (hm : m + k ≤ 2 ^ 128) (hcalm : Calm s' wal' n' m')
    (hledger : ∀ r ∈ σ.world.store.ledger, r ∈ s'.ledger) (hgrants : s'.grants = σ.world.store.grants) :
    ∃ σ', Run db σ' wal' n' m' (N + 1) ∧ Extends N σ σ' ∧ σ'.world.store = s' ∧ .respond N c x ∈ σ'.world.hist := by
  obtain ⟨v, hs, hst, hd⟩ := Solo.drawing (i := N) k (body c) (σ.world.after (.invoke N c)) m (h.drawn.signal (by rintro _ _ _ _ ⟨⟩)) hm
  rw [World.after_invoke_store, hsteps] at hs hst hd
  have hr := h.reach.parks (h.idle N le_rfl) hallow hs
  refine ⟨_, ⟨hr.tail (.respond (i := N) (c := c) (a := x) (by simp) trivial), hst ▸ hcalm, hd.signal (by rintro _ _ _ _ ⟨⟩), ?_⟩, ⟨⟨?_, ?_, ?_⟩, ?_⟩, hst,
    mem_cons_self⟩
  · intro i hi
    simpa [Conf.set, Function.update_of_ne (show i ≠ N by omega)] using h.idle i (by omega)
  · exact fun e he => mem_cons_of_mem _ (hs.hist_subset e (mem_cons_of_mem _ he))
  · exact hst ▸ hledger
  · exact hst ▸ hgrants
  · intro i hi
    simp [Conf.set, Function.update_of_ne (show i ≠ N by omega)]

theorem Run.write (h0 : Initial db) (h : Run db σ wal n m N) {x : Res c} {e : LedgerEntry} {j : ℕ} (hallow : Honest σ.world (.invoke N c))
    (hb : wal.Bumped balance reserved w') (hb0 : 0 ≤ balance) (hr0 : 0 ≤ reserved) (hew : e.walletID = w'.id ∧ e.tenantID = w'.tenantID)
    (hsource : e.source = none) (hid : e.id = uid j) (hj : m ≤ j ∧ j < m') (hm : m' ≤ m + k ∧ m + k ≤ 2 ^ 128) (hkey : Spare e.idempotencyKey σ.world.store m')
    (hsteps : σ.world.store.applyWithLock w' [e] 0 = .ok ((), applied σ.world.store wal w' e) →
      (body c).steps drawing k (σ.world.store, m) = (.ret x, applied σ.world.store wal w' e, m')) :
    ∃ σ' wal', Run db σ' wal' (n + 1) m' (N + 1) ∧ Extends N σ σ' ∧ wal.Bumped balance reserved wal' ∧
      σ'.world.store.ledger = σ.world.store.ledger ++ [.ofEntry e] ∧ .respond N c x ∈ σ'.world.hist := by
  have happly := h.calm.apply (h.inRange_version h0) hb hb0 hr0 hew.2 (.inl hsource) hid hj.1 (by omega) hkey.free
  obtain ⟨wal', hcalm, hb'⟩ := h.calm.applied hb hew hid (by omega) hj.2 (by omega) hkey
  obtain ⟨σ', h', hx, hst, hres⟩ := h.call hallow (hsteps happly) hm.2 hcalm (fun r hr => mem_append_left _ hr) rfl
  exact ⟨σ', wal', h', hx, hb', by rw [hst]; rfl, hres⟩

theorem steps_retry {α : Type} {msg : String} {attempt : Client (Attempt (Except Err α))} {x : Except Err α} {t t' : DB × ℕ}
    (h : attempt.steps drawing k t = (.ret (.done x), t')) : (retry msg attempt maxAttempts none).steps drawing k t = (.ret x, t') := by
  show (retry msg attempt (255 + 1) none).steps drawing k t = _
  rw [retry]
  refine Prog.steps_bind ?_ h
  rfl

theorem reserve_ok {w : TokenWallet} {t : Time} (ha : 0 < a) (hwf : w.WF) (hle : w.reserved + a ≤ w.balance) :
    ∃ w', w.reserve a t = .ok w' ∧ w.Bumped w.balance (w.reserved + a) w' := by
  obtain ⟨h0, h1, h2⟩ := hwf
  have h3 : wrap (w.balance - w.reserved) = w.balance - w.reserved := wrap_of_bounds (by omega) (by omega)
  unfold TokenWallet.reserve
  rw [if_neg (by omega), h3, if_neg (by omega), wrap_of_bounds (by omega) (by omega)]
  exact ⟨_, rfl, rfl, rfl, rfl, rfl, rfl⟩

theorem release_ok {w : TokenWallet} {t : Time} (ha : 0 < a) (hwf : w.WF) (hle : a ≤ w.reserved) :
    ∃ w', w.release a t = .ok w' ∧ w.Bumped w.balance (w.reserved - a) w' := by
  obtain ⟨h0, h1, h2⟩ := hwf
  unfold TokenWallet.release
  rw [if_neg (by omega), if_neg (by omega), wrap_of_bounds (by omega) (by omega)]
  exact ⟨_, rfl, rfl, rfl, rfl, rfl, rfl⟩

def reservationOf (wal : TokenWallet) (m : ℕ) (a : ℤ) (key : String) : Reservation where
  id := uid m
  walletID := wal.id
  tenantID := wal.tenantID
  amount := a
  idempotencyKey := key
  createdAt := 0

theorem Run.unsettled (h0 : Initial db) (h : Run db σ wal n m N) (hm : m < 2 ^ 128) : ∀ r ∈ σ.world.store.ledger, r.settles (uid m).string = false := by
  intro r hr
  by_contra hne
  have hv := worldInv_of_reach h0 h.reach
  have hset := settles_iff.mp (Bool.of_not_eq_false hne)
  obtain ⟨row, hrow, hh, -⟩ := hv.store.settled r hr hset.2
  rw [hset.1] at hh
  obtain ⟨i, hi⟩ := hv.refs row hrow _ hh
  have := h.drawn i _ hi
  rw [toNat_uid hm] at this
  omega

theorem Run.addReserve (h0 : Initial db) (h : Run db σ wal n m N) (hm : m + 6 ≤ 2 ^ 128) (ha : 0 < a) (hwf : wal.WF)
    (hle : wal.reserved + a ≤ wal.balance) :
    ∃ σ' wal', Run db σ' wal' (n + 1) (m + 2) (N + 1) ∧ Extends N σ σ' ∧ wal.Bumped wal.balance (wal.reserved + a) wal' ∧
      Returned wal.tenantID a (uid m).string (reservationOf wal m a (uid m).string) σ'.world ∧
      ∀ x ∈ σ'.world.store.ledger, x.settles (uid m).string = false := by
  obtain ⟨w', hg, hb⟩ := reserve_ok (t := 0) ha hwf hle
  obtain ⟨g0, g1, g2⟩ := hwf
  have hkey := h.calm.spare (by omega) (show m < m + 2 by omega)
  obtain ⟨σ', wal', h', hx, hb', hl, hres⟩ := h.write (c := .reserve wal.tenantID a (uid m).string) (x := .ok (reservationOf wal m a (uid m).string)) (k := 6)
    (e := reserveEntry w' a (uid m).string 0 (uid m) (uid (m + 1))) h0 ⟨⟨le_trans (by decide) ha.le, by omega⟩, trivial⟩ hb (by omega) (by omega) ⟨rfl, rfl⟩
    rfl rfl (by omega) (by omega) hkey fun happly => by
      show (reserve wal.tenantID a (uid m).string).steps _ _ _ = _
      rw [reserve, if_neg h.calm.nonNil.2, if_neg (by omega), hkey.valid]
      refine steps_retry ?_
      simp [reserveAttempt, Prog.steps, drawing, serve, outcome, h.calm.load, lookup_free hkey.free, hg, happly, settle, reservationOf, hb.id, hb.tenantID]
  refine ⟨σ', wal', h', hx, hb', ⟨N, hres⟩, ?_⟩
  rw [hl]
  intro x hx
  rcases mem_append.mp hx with hx | hx
  · exact h.unsettled h0 (by omega) x hx
  · rw [mem_singleton.mp hx]
    simp [LedgerRow.settles, LedgerRow.ofEntry, reserveEntry]

/-- The same wallet with the same counters, perhaps at another version. -/
structure SameFunds (wal wal' : TokenWallet) : Prop where
  id : wal'.id = wal.id
  tenantID : wal'.tenantID = wal.tenantID
  balance : wal'.balance = wal.balance
  reserved : wal'.reserved = wal.reserved

theorem SameFunds.trans {a b c : TokenWallet} (h : SameFunds a b) (h' : SameFunds b c) : SameFunds a c :=
  ⟨h'.id.trans h.id, h'.tenantID.trans h.tenantID, h'.balance.trans h.balance, h'.reserved.trans h.reserved⟩

theorem Run.pair (h0 : Initial db) (h : Run db σ wal n m N) (hm : m + 8 ≤ 2 ^ 128) (hwf : wal.WF)
    (hle : wal.reserved + 1 ≤ wal.balance) :
    ∃ σ' wal', Run db σ' wal' (n + 2) (m + 3) (N + 2) ∧ Extends N σ σ' ∧ SameFunds wal wal' := by
  obtain ⟨σ₁, wal₁, h1, hx1, ⟨hid, ht, -, hb1, hr1⟩, hret, hopen⟩ := h.addReserve h0 (by omega) one_pos hwf hle
  obtain ⟨g0, g1, g2⟩ := hwf
  obtain ⟨w', hg, hb⟩ := release_ok (w := wal₁) (t := 0) one_pos ⟨by omega, by omega, by omega⟩ (by omega)
  have hkey := h1.calm.spare (by omega) (show m + 2 < m + 3 by omega)
  obtain ⟨σ₂, wal₂, h2, hx2, hb2, -, -⟩ := h1.write (c := .release (some (reservationOf wal m 1 (uid m).string)) (uid (m + 2)).string) (x := .ok ()) (k := 6)
    (e := settlementEntry w' .release (reservationOf wal m 1 (uid m).string) 1 (uid (m + 2)).string 0 (uid (m + 2))) h0 ⟨trivial, _, _, _, hret⟩ hb
    (by omega) (by omega) ⟨rfl, rfl⟩ rfl rfl (by omega) (by omega) hkey fun happly => by
      have hload : σ₁.world.store.loadByTenant wal.tenantID = .ok wal₁ := ht ▸ h1.calm.load
      show (release (some (reservationOf wal m 1 (uid m).string)) (uid (m + 2)).string).steps _ _ _ = _
      rw [release, hkey.valid]
      refine steps_retry ?_
      simp [releaseAttempt, settlingPass, Prog.steps, drawing, serve, outcome, reservationOf, hload, hid, lookup_free hkey.free, lookupCompleted_free hopen, hg]
      simp [reservationOf] at happly
      simp [happly, settle]
  refine ⟨σ₂, wal₂, h2, hx1.trans hx2 (by omega), hb2.id.trans hid, hb2.tenantID.trans ht, hb2.balance.trans hb1, ?_⟩
  rw [hb2.reserved, hr1]
  exact add_sub_cancel_right _ _

/-- **Pump**: any number of such pairs. -/
theorem Run.pump (h0 : Initial db) (k : ℕ) : ∀ {σ : Cfg} {wal : TokenWallet} {n m N : ℕ}, Run db σ wal n m N →
    m + 3 * k + 5 ≤ 2 ^ 128 → wal.WF → wal.reserved + 1 ≤ wal.balance →
    ∃ σ' wal', Run db σ' wal' (n + 2 * k) (m + 3 * k) (N + 2 * k) ∧ Extends N σ σ' ∧ SameFunds wal wal' := by
  induction k with
  | zero =>
    intro σ wal n m N h _ _ _
    exact ⟨σ, wal, h, ⟨⟨fun _ he => he, fun _ hr => hr, rfl⟩, fun _ _ => rfl⟩, rfl, rfl, rfl, rfl⟩
  | succ k ih =>
    intro σ wal n m N h hm hwf hle
    obtain ⟨σ₁, wal₁, h1, hx1, hf1⟩ := h.pair h0 (by omega) hwf hle
    obtain ⟨g0, g1, g2⟩ := hwf
    obtain ⟨-, -, hb, hr⟩ := id hf1
    obtain ⟨σ₂, wal₂, h2, hx2, hf2⟩ := ih h1 (by omega) ⟨by omega, by omega, by omega⟩ (by omega)
    refine ⟨σ₂, wal₂, ?_, hx1.trans hx2 (by omega), hf1.trans hf2⟩
    rwa [show n + 2 * (k + 1) = n + 2 + 2 * k by omega, show m + 3 * (k + 1) = m + 3 + 3 * k by omega,
      show N + 2 * (k + 1) = N + 2 + 2 * k by omega]

/-! ## A call that stands meanwhile -/

/-- Call `j` is about to draw the identifier of a row and to write it with the wallet `w'`. -/
def Parked (σ : Cfg) (j : ℕ) (w' : TokenWallet) (mk : UUID → LedgerEntry) : Prop :=
  (∃ c, ∃ k : UUID → Except Err Unit → Client (Res c), σ.pool j = .running c (.ask .newUUID fun id => .ask (.applyWithLock w' [mk id]) (k id))) ∧
    ∀ id, (mk id).id = id ∧ (mk id).tenantID = w'.tenantID ∧ (mk id).source = none ∧ (mk id).idempotencyKey = lateKey

/-- A call that stands with a copy of the version before draws its identifier and writes. -/
theorem Run.late (h0 : Initial db) (h : Run db σ wal n m N) (hm : m + 2 ≤ 2 ^ 128) {j : ℕ} {mk : UUID → LedgerEntry} (hpark : Parked σ j w' mk)
    (hb : wal.Bumped balance reserved w') (hb0 : 0 ≤ balance) (hr0 : 0 ≤ reserved) :
    ∃ σ', WalletReach db σ' ∧ (∀ e ∈ σ.world.hist, e ∈ σ'.world.hist) ∧ σ'.world.store = applied σ.world.store wal w' (mk (uid m)) := by
  obtain ⟨⟨c, k, hpool⟩, hmk⟩ := hpark
  obtain ⟨hid, ht, hs, hk⟩ := hmk (uid m)
  have happly := h.calm.apply (h.inRange_version h0) hb hb0 hr0 ht (.inl hs) hid le_rfl (by omega) fun r hr => hk ▸ (h.calm.keys r hr).1
  obtain ⟨v, hsolo, hst, -⟩ := Solo.drawing (i := j) 2 (.ask .newUUID fun id => .ask (.applyWithLock w' [mk id]) (k id)) σ.world m h.drawn hm
  refine ⟨_, h.reach.solo hsolo rfl hpool, hsolo.hist_subset, hst.trans ?_⟩
  simp [Prog.steps, drawing, serve, outcome, happly]

/-- **Wraparound.**  A call stands with a copy that was taken `2` rows ago.  After `2 ^ 63 - 1` pairs of reserve and release the
version is again the one of its copy, and its write is accepted. -/
theorem Run.wraparound (h0 : Initial db) (h : Run db σ wal (n + 2) m N) (hm : m ≤ 2 ^ 64) (hwf : wal.WF) (hle : wal.reserved + 1 ≤ wal.balance)
    {j : ℕ} (hj : j < N) {mk : UUID → LedgerEntry} (hpark : Parked σ j w' mk) (hid : w'.id = wal.id)
    (ht : w'.tenantID = wal.tenantID) (hver : w'.version = stamp (n + 1)) (hb0 : 0 ≤ w'.balance) (hr0 : 0 ≤ w'.reserved) :
    ∃ σ₁ wal₁ m₁ N₁ σ₂ u, Run db σ₁ wal₁ (n + 2 ^ 64) m₁ N₁ ∧ Extends N σ σ₁ ∧ SameFunds wal wal₁ ∧
      WalletReach db σ₂ ∧ (∀ e ∈ σ₁.world.hist, e ∈ σ₂.world.hist) ∧
      σ₂.world.store = applied σ₁.world.store wal₁ w' (mk u) := by
  obtain ⟨σ₁, wal₁, h1, hx, hf⟩ := h.pump h0 (2 ^ 63 - 1) (by omega) hwf hle
  have hn : n + 2 + 2 * (2 ^ 63 - 1) = n + 2 ^ 64 := by omega
  rw [hn] at h1
  have hver1 : wal₁.version = stamp n := by rw [h1.version h0, stamp_add_pow]
  have hb : wal₁.Bumped w'.balance w'.reserved w' :=
    ⟨hid.trans hf.id.symm, ht.trans hf.tenantID.symm, by rw [hver, hver1, stamp_succ], rfl, rfl⟩
  obtain ⟨σ₂, h2, hh, hst⟩ := h1.late h0 (by omega) (by rwa [Parked, hx.pool j hj]) hb hb0 hr0
  exact ⟨σ₁, wal₁, _, _, σ₂, _, h1, hx, hf, h2, hh, hst⟩

end Runs

/-! ## A wallet to start from -/

def freshDB (grants : List MasterGrantRow) : DB := ⟨[], [], [], grants, []⟩

theorem initial_freshDB {grants : List MasterGrantRow} (h : (grants.map MasterGrantRow.id).Nodup) :
    Initial (freshDB grants) := ⟨rfl, rfl, rfl, h⟩

def courtesyRow : LedgerRow where
  id := uid 1
  walletID := uid 1
  tenantID := uid 1
  kind := .grant
  amount := 2
  idempotencyKey := DB.courtesyIdempotencyKey (uid 1)
  externalRef := some (uid 1).string
  source := .consumption
  masterGrantID := none
  occurredAt := 0
  createdAt := 0

/-- The tables after the onboarding of tenant `uid 1` with two tokens. -/
def onboardedDB (grants : List MasterGrantRow) : DB where
  wallets := [⟨uid 1, uid 1, 2, 0, 1, 0, 0⟩]
  ledger := [courtesyRow]
  courtesy := [⟨uid 1, uid 1, 2, uid 1⟩]
  grants := grants
  subs := []

/-! ## Played runs -/

section Played

variable {w : W} {i m : ℕ} {u : UUID} {db : DB} {wal : TokenWallet} {n N : ℕ} {ts : List (Turn Call)}

/-- The configuration after the turns at time 0; the `j`-th of them may draw `uid j`. -/
def plays (σ : Cfg) : ℕ → List (Turn Call) → Cfg
  | _, [] => σ
  | j, t :: ts => plays (σ.play (system Honest) (serve 0 (uid j) "") [t]) (j + 1) ts

def slot : Turn Call → ℕ
  | .invoke i _ => i
  | .move i => i

def below (m : ℕ) : Ev → Bool
  | .act _ .newUUID u _ _ => u.toNat < m
  | _ => true

def returned (r : Reservation) : Ev → Bool
  | .respond _ (.reserve _ _ _) (.ok r') => r' = r
  | _ => false

def fair (w : W) : Ev → Bool
  | .invoke _ (.issueCourtesy _ _ a) => InRange a
  | .invoke _ (.reserve _ a _) => InRange a
  | .invoke _ (.grant _ a _ _) => InRange a
  | .invoke _ (.commit (some r) a _) => InRange a ∧ w.hist.any (returned r)
  | .invoke _ (.applyGrant _) => true
  | .invoke _ _ => false
  | .act _ .newUUID u _ _ => w.hist.all (below u.toNat)
  | _ => true

theorem drawn_of_below (h : w.hist.all (below m)) : Drawn w m := fun _ _ ⟨_, _, hm⟩ => of_decide_eq_true (all_eq_true.mp h _ hm)

theorem honest_of_fair (w : W) (e : Ev) (h : fair w e) : Honest w e := by
  cases e with
  | respond i c a => trivial
  | act i q r pre post =>
    by_cases hq : q = .newUUID
    · subst hq
      exact fun j hj => absurd (drawn_of_below h j r hj) (lt_irrefl _)
    · exact honest_act hq
  | invoke i c =>
  cases c with
  | issueCourtesy t u a => exact ⟨(of_decide_eq_true h : InRange a), trivial⟩
  | reserve t a k => exact ⟨(of_decide_eq_true h : InRange a), trivial⟩
  | grant t a k ref => exact ⟨(of_decide_eq_true h : InRange a), trivial⟩
  | applyGrant id => exact ⟨trivial, trivial⟩
  | commit r a k =>
    cases r with
    | none => exact absurd h Bool.false_ne_true
    | some r =>
    obtain ⟨ha, hany⟩ : InRange a ∧ w.hist.any (returned r) := of_decide_eq_true h
    obtain ⟨e, he, hr⟩ := any_eq_true.mp hany
    unfold returned at hr
    split at hr
    · obtain rfl := of_decide_eq_true hr
      exact ⟨ha, _, _, _, _, he⟩
    · cases hr
  | _ => exact absurd h Bool.false_ne_true

def fairly (σ : Cfg) : ℕ → List (Turn Call) → Bool
  | _, [] => true
  | j, t :: ts => σ.checks (system Honest) (serve 0 (uid j) "") (fun _ _ => uid j ≠ UUID.Nil) fair [t] &&
      fairly (σ.play (system Honest) (serve 0 (uid j) "") [t]) (j + 1) ts

theorem steps_plays : ∀ (ts : List (Turn Call)) (j : ℕ) (σ : Cfg), fairly σ j ts → Relation.ReflTransGen (Step (system Honest)) σ (plays σ j ts)
  | [], _, _, _ => .refl
  | t :: ts, j, σ, h => by
    obtain ⟨hc, hts⟩ := Bool.and_eq_true_iff.mp h
    have hstep := Conf.steps_play (fun q s hu => exec_serve (of_decide_eq_true hu) q s) honest_of_fair [t] σ hc
    exact hstep.trans (steps_plays ts (j + 1) _ hts)

theorem plays_append : ∀ (ts ts' : List (Turn Call)) (j : ℕ) (σ : Cfg), plays σ j (ts ++ ts') = plays (plays σ j ts) (j + ts.length) ts'
  | [], _, _, _ => rfl
  | t :: ts, ts', j, σ => by
    rw [cons_append, plays, plays_append ts ts', length_cons, Nat.add_right_comm]
    rfl

theorem pool_plays : ∀ (ts : List (Turn Call)) (j : ℕ) (σ : Cfg), (∀ t ∈ ts, slot t ≠ i) → (plays σ j ts).pool i = σ.pool i
  | [], _, _, _ => rfl
  | t :: ts, j, σ, h => by
    have ht := h t mem_cons_self
    rw [plays, pool_plays ts _ _ fun t' ht' => h t' (mem_cons_of_mem _ ht')]
    cases t with
    | invoke k c =>
      cases hp : σ.pool k <;> simp only [Conf.play, Conf.turn, hp]
      exact Function.update_of_ne ht.symm _ _
    | move k =>
    cases hp : σ.pool k with
    | running c p => cases p <;> simp only [Conf.play, Conf.turn, hp] <;> exact Function.update_of_ne ht.symm _ _
    | _ => simp only [Conf.play, Conf.turn, hp]

theorem Run.played (h : fairly (Conf.start db) 0 ts ∧ Calm (plays (Conf.start db) 0 ts).world.store wal n m ∧
      (plays (Conf.start db) 0 ts).world.hist.all (below m) ∧ (plays (Conf.start db) 0 ts).world.hist.all (Event.before N)) :
    Run db (plays (Conf.start db) 0 ts) wal n m N := by
  obtain ⟨hf, hcalm, hm, hN⟩ := h
  have hr : WalletReach db (plays (Conf.start db) 0 ts) := steps_plays ts 0 _ hf
  exact ⟨hr, hcalm, drawn_of_below hm, fun i hi => Reach.idle hr hN hi⟩

def onboarding : List (Turn Call) := [.invoke 0 (.issueCourtesy (uid 1) (uid 1) 2), .move 0, .move 0]

def starts (i : ℕ) (c : Call) (k : ℕ) : List (Turn Call) := .invoke i c :: List.replicate k (.move i)

end Played

end Crm.Wallet
