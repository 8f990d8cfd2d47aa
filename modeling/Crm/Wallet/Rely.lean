import Crm.System
import Crm.Wallet.Journal

/-!
# Crm.Wallet.Rely — the invariant of worlds and what calls rely on

`WorldInv` joins the invariant of the tables with what the history says about them: identifiers are drawn once,
the reference of a reserve row was drawn by some call, and every result a call has responded with is backed by a ledger row.
`Later i` is what call `i` may rely on the others to do: the ledger only grows, a wallet row changes only together with its ledger,
grants keep their data, and no one else reserves under an identifier that call `i` has drawn.
-/

namespace Crm.Wallet

open Int64Arith Interleave Crm.Store Crm.Grant List

/-! ## Growth of the tables -/

/-- What no transaction undoes. -/
structure StoreLater (s s' : DB) : Prop where
  ledger : s.ledger <+: s'.ledger
  wallets : ∀ w ∈ s.wallets, ∃ w' ∈ s'.wallets, w'.id = w.id ∧ w'.tenantID = w.tenantID ∧
    ((s'.rows w.id).length = (s.rows w.id).length → w' = w)
  grants : ∀ g ∈ s.grants, ∃ g' ∈ s'.grants, SameGrant g g'

namespace StoreLater

variable {s s' s'' : DB}

theorem refl (s : DB) : StoreLater s s :=
  ⟨prefix_rfl, fun w hw => ⟨w, hw, rfl, rfl, fun _ => rfl⟩, fun g hg => ⟨g, hg, .refl g⟩⟩

theorem rows (h : StoreLater s s') (id : UUID) : s.rows id <+: s'.rows id := by
  obtain ⟨l, hl⟩ := h.ledger
  rw [DB.rows, DB.rows, ← hl, filter_append]
  exact prefix_append _ _

theorem rows_eq (h : StoreLater s s') {id : UUID} (hlen : (s'.rows id).length = (s.rows id).length) :
    s'.rows id = s.rows id := ((h.rows id).eq_of_length hlen.symm).symm

theorem trans (h : StoreLater s s') (h' : StoreLater s' s'') : StoreLater s s'' where
  ledger := h.ledger.trans h'.ledger
  wallets := by
    intro w hw
    obtain ⟨w', hw', hid, ht, heq⟩ := h.wallets w hw
    obtain ⟨w'', hw'', hid', ht', heq'⟩ := h'.wallets w' hw'
    refine ⟨w'', hw'', hid'.trans hid, ht'.trans ht, fun hlen => ?_⟩
    -- the row count is monotone, so it stood still on both stretches
    have h1 := (h.rows w.id).length_le
    have h2 := (h'.rows w.id).length_le
    rw [heq' (by rw [hid]; omega), heq (by omega)]
  grants := by
    intro g hg
    obtain ⟨g', hg', hs⟩ := h.grants g hg
    obtain ⟨g'', hg'', hs'⟩ := h'.grants g' hg'
    exact ⟨g'', hg'', hs.trans hs'⟩

theorem of_append {w w' : TokenWallet} {row : LedgerRow} (hids : (s.wallets.map TokenWallet.id).Nodup)
    (h : Appended s w w' row s') : StoreLater s s' where
  ledger := ⟨[row], h.ledger.symm⟩
  wallets := by
    intro v hv
    by_cases hid : v.id = w.id
    · have hvw : v = w := inj_on_of_nodup_map hids hv h.mem hid
      refine ⟨w', ?_, h.id.trans hid.symm, by rw [hvw]; exact h.tenantID, fun hlen => ?_⟩
      · rw [h.wallets]
        exact mem_map.mpr ⟨v, hv, if_pos hid⟩
      · rw [hid, ← h.rowWallet, rows_append_self h.ledger, length_append, length_singleton] at hlen
        omega
    · refine ⟨v, ?_, rfl, rfl, fun _ => rfl⟩
      rw [h.wallets]
      exact mem_map.mpr ⟨v, hv, if_neg hid⟩
  grants := by
    rw [h.grants]
    exact fun g hg => ⟨g, hg, .refl g⟩

theorem of_open {w : TokenWallet} {row : LedgerRow} (h : Opened s w row s') : StoreLater s s' where
  ledger := ⟨[row], h.ledger.symm⟩
  wallets := by
    rw [h.wallets]
    exact fun v hv => ⟨v, mem_append_left _ hv, rfl, rfl, fun _ => rfl⟩
  grants := by
    rw [h.grants]
    exact fun g hg => ⟨g, hg, .refl g⟩

theorem of_regrant (h : Regranted s s') : StoreLater s s' where
  ledger := ⟨[], by rw [append_nil, h.ledger]⟩
  wallets := by
    rw [h.wallets]
    exact fun v hv => ⟨v, hv, rfl, rfl, fun _ => rfl⟩
  grants := h.kept

end StoreLater

/-! ## Worlds -/

/-- The reserve row behind a reservation returned for tenant `t`, amount `a` and key `k`. -/
structure Backs (db : DB) (t : UUID) (a : ℤ) (k : String) (r : Reservation) (row : LedgerRow) : Prop where
  mem : row ∈ db.ledger
  holds : Holds (some r.id.string) row
  walletID : row.walletID = r.walletID
  tenantID : row.tenantID = t
  resTenant : r.tenantID = t
  amount : row.amount = -a
  resAmount : r.amount = a
  pos : 0 < a
  inRange : InRange a
  key : row.idempotencyKey = k

/-- `row` settles reservation `r` in the way of a call with this kind, amount and key. -/
structure SettledBy (kind : LedgerKind) (amount : ℤ) (k : String) (r : Reservation) (row : LedgerRow) : Prop where
  kind : row.kind = kind
  walletID : row.walletID = r.walletID
  ref : row.externalRef = some r.id.string
  amount : row.amount = amount
  key : row.idempotencyKey = k

/-- What a response promises about the ledger. -/
def Kept (db : DB) : (c : Call) → Res c → Prop
  | .reserve t a k, .ok r => ∃ row, Backs db t a k r row
  | .commit (some r) a k, .ok _ => ∃ row ∈ db.ledger, SettledBy .commit (-a) k r row
  | .release (some r) k, .ok _ => ∃ row ∈ db.ledger, SettledBy .release r.amount k r row
  | _, _ => True

theorem Kept.mono {s s' : DB} {c : Call} {a : Res c} (h : Kept s c a) (hs : StoreLater s s') : Kept s' c a := by
  have hmem : ∀ r ∈ s.ledger, r ∈ s'.ledger := fun r hr => hs.ledger.subset hr
  unfold Kept at h ⊢
  split at h
  · obtain ⟨row, hb⟩ := h
    exact ⟨row, { hb with mem := hmem row hb.mem }⟩
  · obtain ⟨row, hr, hb⟩ := h
    exact ⟨row, hmem row hr, hb⟩
  · obtain ⟨row, hr, hb⟩ := h
    exact ⟨row, hmem row hr, hb⟩
  · trivial

structure WorldInv (w : W) : Prop where
  store : Ledgered w.store
  mints : ∀ i j u, minted i u w → minted j u w → i = j
  refs : ∀ r ∈ w.store.ledger, ∀ u : UUID, Holds (some u.string) r → ∃ i, minted i u w
  kept : ∀ i c (a : Res c), .respond i c a ∈ w.hist → Kept w.store c a

structure Later (i : ℕ) (u v : W) : Prop where
  store : StoreLater u.store v.store
  hist : ∀ e ∈ u.hist, e ∈ v.hist
  fresh : ∀ x : UUID, minted i x u → (∀ r ∈ u.store.ledger, ¬ Holds (some x.string) r) →
    ∀ r ∈ v.store.ledger, ¬ Holds (some x.string) r

theorem minted_mono {i : ℕ} {x : UUID} {u v : W} (h : ∀ e ∈ u.hist, e ∈ v.hist) (hm : minted i x u) : minted i x v := by
  obtain ⟨pre, post, hm⟩ := hm
  exact ⟨pre, post, h _ hm⟩

theorem Later.trans {i : ℕ} {u v w : W} (h : Later i u v) (h' : Later i v w) : Later i u w where
  store := h.store.trans h'.store
  hist := fun e he => h'.hist e (h.hist e he)
  fresh := fun x hx hu => h'.fresh x (minted_mono h.hist hx) (h.fresh x hx hu)

def walletSpec : Spec Req Resp DB Call Res where
  inv := WorldInv
  rely := Later
  refl := fun _ w => ⟨.refl w.store, fun _ he => he, fun _ _ h => h⟩
  trans := fun _ _ _ _ h h' => h.trans h'

/-! ## Events that keep the specification -/

section Keeps

variable {i : ℕ} {v : W}

/-- A call whose event leaves the store alone stays within its own rely. -/
theorem Later.own {e : Ev} (he : e.storeAfter v.store = v.store) : Later i v (v.after e) := by
  have hs : (v.after e).store = v.store := he
  exact ⟨by rw [hs]; exact .refl _, fun _ h => mem_cons_of_mem _ h, fun _ _ h => by rwa [hs]⟩

/-- A request keeps the specification if the tables keep theirs and new reserve rows carry the call's own
identifiers. -/
theorem keeps_act {q : Req} {r : Resp q} {s' : DB} (hv : WorldInv v) (hs : Ledgered s') (hl : StoreLater v.store s')
    (hmint : ∀ u : UUID, (⟨q, r⟩ : Σ q, Resp q) = ⟨.newUUID, u⟩ → ∀ j, ¬ minted j u v)
    (hrefs : ∀ row ∈ s'.ledger, row ∈ v.store.ledger ∨ ∀ u : UUID, Holds (some u.string) row → minted i u v) :
    walletSpec.Keeps i v (.act i q r v.store s') := by
  have hhist : ∀ e ∈ v.hist, e ∈ (v.after (.act i q r v.store s')).hist := fun e he => mem_cons_of_mem _ he
  have hm : ∀ j u, minted j u (v.after (.act i q r v.store s')) →
      minted j u v ∨ j = i ∧ (⟨q, r⟩ : Σ q, Resp q) = ⟨.newUUID, u⟩ := by
    rintro j u ⟨pre, post, h⟩
    rcases mem_cons.mp h with h | h
    · cases h
      exact .inr ⟨rfl, rfl⟩
    · exact .inl ⟨pre, post, h⟩
  refine ⟨⟨hs, ?_, ?_, ?_⟩, fun j hj => ⟨hl, hhist, ?_⟩⟩
  · intro j j' u h h'
    rcases hm j u h with h1 | ⟨rfl, hq⟩ <;> rcases hm j' u h' with h2 | ⟨rfl, hq'⟩
    · exact hv.mints j j' u h1 h2
    · exact absurd h1 (hmint u hq' j)
    · exact absurd h2 (hmint u hq j')
    · rfl
  · intro row hrow u hu
    rcases hrefs row hrow with hrow | hown
    · obtain ⟨j, hj⟩ := hv.refs row hrow u hu
      exact ⟨j, minted_mono hhist hj⟩
    · exact ⟨i, minted_mono hhist (hown u hu)⟩
  · intro j c a h
    rcases mem_cons.mp h with h | h
    · cases h
    · exact (hv.kept j c a h).mono hl
  intro x hx hfree row hrow hu
  rcases hrefs row hrow with hrow | hown
  · exact hfree row hrow hu
  · exact hj (hv.mints j i x hx (hown x hu))

theorem keeps_quiet {q : Req} {r : Resp q} (hv : WorldInv v)
    (hmint : ∀ u : UUID, (⟨q, r⟩ : Σ q, Resp q) = ⟨.newUUID, u⟩ → ∀ j, ¬ minted j u v) :
    walletSpec.Keeps i v (.act i q r v.store v.store) :=
  keeps_act hv hv.store (.refl _) hmint fun _ hrow => .inl hrow

/-- An invocation or a response keeps the specification if what it responds is backed. -/
theorem keeps_signal {e : Ev} (hv : WorldInv v) (hs : e.storeAfter v.store = v.store)
    (hact : ∀ j u pre post, e ≠ .act j .newUUID u pre post)
    (hk : ∀ j c (a : Res c), e = .respond j c a → Kept v.store c a) : walletSpec.Keeps i v e := by
  have hstore : (v.after e).store = v.store := hs
  have hm : ∀ j u, minted j u (v.after e) → minted j u v := by
    rintro j u ⟨pre, post, h⟩
    rcases mem_cons.mp h with h | h
    · exact absurd h.symm (hact j u pre post)
    · exact ⟨pre, post, h⟩
  refine ⟨⟨by rw [hstore]; exact hv.store, fun j j' u h h' => hv.mints j j' u (hm j u h) (hm j' u h'), ?_, ?_⟩,
    fun j _ => Later.own hs⟩
  · rw [hstore]
    intro row hrow u hu
    obtain ⟨j, hj⟩ := hv.refs row hrow u hu
    exact ⟨j, minted_mono (fun e he => mem_cons_of_mem _ he) hj⟩
  rw [hstore]
  intro j c a h
  rcases mem_cons.mp h with h | h
  · exact hk j c a h.symm
  · exact hv.kept j c a h

theorem keeps_invoke {c : Call} (hv : WorldInv v) : walletSpec.Keeps i v (.invoke i c) :=
  keeps_signal hv rfl (by rintro _ _ _ _ ⟨⟩) (by rintro _ _ _ ⟨⟩)

theorem keeps_respond {c : Call} {a : Res c} (hv : WorldInv v) (ha : Kept v.store c a) :
    walletSpec.Keeps i v (.respond i c a) := by
  refine keeps_signal hv rfl (by rintro _ _ _ _ ⟨⟩) fun j c' a' h => ?_
  cases h
  exact ha

end Keeps

end Crm.Wallet
