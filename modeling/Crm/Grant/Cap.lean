import Crm.Lib.Window
import Crm.Grant.Payload

/-!
# Crm.Grant.Cap — the cap on what a tenant is given within 365 days

`IssueGrant` reads the clock, lists the tenant's grants, checks the cap and inserts.  Nothing holds the list still, so calls
that overlap can overshoot the cap together (`window_cap_exceeded`).  Calls of one tenant that do not overlap keep it, over every
window and not only the one that ends when a grant is issued (`window_cap`).
-/

namespace Crm.Grant

open Int64Arith Interleave Window Crm.Wallet Crm.Store List Prog

/-! ## What is stored for a tenant -/

def rowEquivalence (r : MasterGrantRow) : ℤ :=
  match unmarshal r.payload with
  | some p => capEquivalence r.kind (readInt64Payload p "amount") (readInt64Payload p "period_days")
  | none => 0

def entry (r : MasterGrantRow) : Entry := (r.createdAt, rowEquivalence r)

def stored (t : UUID) (s : DB) : List Entry := (s.grants.filter fun r => r.tenantID = t).map entry

def live (t : UUID) (s : DB) : List Entry := (s.grants.filter fun r => r.tenantID = t ∧ r.revokedAt = none).map entry

/-- The worth of the tenant's unrevoked grants created in the 365 days up to `till`. -/
def windowTotal (s : DB) (t : UUID) (till : Time) : ℤ :=
  ((s.grants.filter fun r =>
    r.tenantID = t ∧ r.revokedAt = none ∧ till - tenantWindow ≤ r.createdAt ∧ r.createdAt ≤ till).map rowEquivalence).sum

section Stored

variable {s s' : DB} {t : UUID}

theorem windowTotal_eq (s : DB) (t : UUID) (till : Time) : windowTotal s t till = sumIn tenantWindow (live t s) till := by
  rw [windowTotal, sumIn, live, filter_map, map_map, filter_filter]
  congr 2
  refine filter_congr fun r _ => ?_
  rw [Bool.eq_iff_iff]
  simp only [entry, Function.comp_apply, Bool.and_eq_true, decide_eq_true_eq]
  constructor
  · rintro ⟨ht, hr, hw⟩
    exact ⟨decide_eq_true hw, ht, hr⟩
  · rintro ⟨hw, ht, hr⟩
    exact ⟨ht, hr, of_decide_eq_true hw⟩

variable {r r' row : MasterGrantRow}

theorem rowEquivalence_of_same (h : SameGrant r r') : rowEquivalence r' = rowEquivalence r := by
  rw [rowEquivalence, rowEquivalence, h.payload, h.kind]

theorem entry_of_same (h : SameGrant r r') : entry r' = entry r := by
  rw [entry, entry, h.createdAt, rowEquivalence_of_same h]

/-- Rows are marked consumed or revoked, and nothing else happens to the table. -/
def Marked (s s' : DB) : Prop :=
  ∃ f : MasterGrantRow → MasterGrantRow, s'.grants = s.grants.map f ∧
    ∀ r, SameGrant r (f r) ∧ (r.revokedAt ≠ none → (f r).revokedAt ≠ none)

theorem Marked.of_eq (h : s'.grants = s.grants) : Marked s s' :=
  ⟨id, by rw [h, map_id], fun r => ⟨.refl r, fun h => h⟩⟩

theorem marked_updateGrant {id : UUID} {f : MasterGrantRow → MasterGrantRow}
    (hf : ∀ r, SameGrant r (f r) ∧ (r.revokedAt ≠ none → (f r).revokedAt ≠ none)) : Marked s (s.updateGrant id f) := by
  refine ⟨_, rfl, fun r => ?_⟩
  split_ifs
  · exact hf r
  · exact ⟨.refl r, fun h => h⟩

theorem marked_of_exec {q : Req} {r : Resp q} (he : exec q s r s') (hq : creates q = none) : Marked s s' := by
  cases q with
  | createGrant g => cases hq
  | consumeGrant id ref now =>
    rcases Tx.store_cases he with rfl | ⟨a, ha⟩
    · exact .of_eq rfl
    · obtain ⟨g, -, -, -, rfl⟩ := DB.consumeGrant_ok ha
      exact marked_updateGrant fun r => ⟨⟨rfl, rfl, rfl, rfl, rfl, rfl⟩, fun h => h⟩
  | revokeGrant id revokedBy reason now =>
    rcases Tx.store_cases he with rfl | ⟨a, ha⟩
    · exact .of_eq rfl
    · obtain ⟨g, -, -, -, rfl⟩ := DB.revokeGrant_ok ha
      exact marked_updateGrant fun r => ⟨⟨rfl, rfl, rfl, rfl, rfl, rfl⟩, fun _ => by simp⟩
  | _ => exact .of_eq (exec_grants he rfl)

theorem Marked.stored_eq (h : Marked s s') (t : UUID) : stored t s' = stored t s := by
  obtain ⟨f, hf, hm⟩ := h
  rw [stored, stored, hf, filter_map, map_map]
  have hp : ((fun r : MasterGrantRow => decide (r.tenantID = t)) ∘ f) = fun r => decide (r.tenantID = t) := by
    funext r
    simp [(hm r).1.tenantID]
  rw [hp]
  exact map_congr_left fun r _ => entry_of_same (hm r).1

theorem Marked.live_sublist (h : Marked s s') (t : UUID) : (live t s').Sublist (live t s) := by
  obtain ⟨f, hf, hm⟩ := h
  rw [live, live, hf, filter_map, map_map]
  have he : entry ∘ f = entry := funext fun r => entry_of_same (hm r).1
  rw [he]
  refine List.Sublist.map _ ?_
  refine monotone_filter_right _ fun r hr => ?_
  simp only [Function.comp_apply, decide_eq_true_eq] at hr ⊢
  refine ⟨(hm r).1.tenantID ▸ hr.1, ?_⟩
  by_contra hne
  exact (hm r).2 hne hr.2

theorem stored_concat (h : s'.grants = s.grants ++ [row]) (t : UUID) : stored t s' = stored t s ++ if row.tenantID = t then [entry row] else [] := by
  rw [stored, stored, h, filter_append, map_append]
  split_ifs with ht <;> simp [ht]

theorem live_concat (h : s'.grants = s.grants ++ [row]) (hr : row.revokedAt = none) (t : UUID) :
    live t s' = live t s ++ if row.tenantID = t then [entry row] else [] := by
  rw [live, live, h, filter_append, map_append]
  split_ifs with ht <;> simp [ht, hr]

theorem live_sublist_stored (t : UUID) (s : DB) : (live t s).Sublist (stored t s) := by
  refine List.Sublist.map _ (monotone_filter_right _ fun r hr => ?_)
  simp only [decide_eq_true_eq] at hr ⊢
  exact hr.1

/-- The table has only grown since `s`: rows were added behind, and some were revoked. -/
def Grown (t : UUID) (s s' : DB) : Prop :=
  ∃ new, stored t s' = stored t s ++ new ∧ (live t s').Sublist (live t s ++ new)

theorem Grown.trans {s₁ s₂ s₃ : DB} (h : Grown t s₁ s₂) (h' : Grown t s₂ s₃) : Grown t s₁ s₃ := by
  obtain ⟨new, hs, hl⟩ := h
  obtain ⟨new', hs', hl'⟩ := h'
  refine ⟨new ++ new', by rw [hs', hs, append_assoc], ?_⟩
  rw [← append_assoc]
  exact hl'.trans (hl.append_right new')

theorem Marked.grown (h : Marked s s') (t : UUID) : Grown t s s' :=
  ⟨[], by rw [h.stored_eq, append_nil], by rw [append_nil]; exact h.live_sublist t⟩

theorem grown_concat (h : s'.grants = s.grants ++ [row]) (hr : row.revokedAt = none) (t : UUID) :
    Grown t s s' := ⟨_, stored_concat h t, by rw [live_concat h hr]⟩

/-- Without additions the unrevoked grants are among those of before. -/
theorem Grown.still (h : Grown t s s') (hlen : (stored t s').length ≤ (stored t s).length) :
    stored t s' = stored t s ∧ (live t s').Sublist (live t s) := by
  obtain ⟨new, hs, hl⟩ := h
  have hnew : new = [] := by
    rw [hs, length_append] at hlen
    exact eq_nil_of_length_eq_zero (by omega)
  subst hnew
  rw [append_nil] at hs hl
  exact ⟨hs, hl⟩

theorem Grown.length_le (h : Grown t s s') : (stored t s).length ≤ (stored t s').length := by
  obtain ⟨new, hs, -⟩ := h
  rw [hs, length_append]
  omega

/-! ## What the cap accounting makes of the list -/

theorem grantEquivalence_of_decode {g : MasterGrant} (h : r.decode = .ok g) : grantEquivalence g = rowEquivalence r := by
  obtain ⟨-, -, hk, hp, -⟩ := MasterGrantRow.decode_ok h
  rw [grantEquivalence, rowEquivalence, hp, hk]

theorem counted_of_decode {g : MasterGrant} (h : r.decode = .ok g) (cutoff : Time) :
    counted cutoff g = decide (r.revokedAt = none ∧ cutoff ≤ r.createdAt) := by
  obtain ⟨-, -, -, -, hc, -, hr⟩ := MasterGrantRow.decode_ok h
  rw [counted, MasterGrant.isRevoked, hc, hr]
  cases r.revokedAt <;> simp

theorem sum_of_decodes (cutoff : Time) : ∀ {l : List MasterGrantRow} {gs : List MasterGrant},
    l.mapM MasterGrantRow.decode = .ok gs →
    ((gs.filter (counted cutoff)).map grantEquivalence).sum =
      ((l.filter fun r => r.revokedAt = none ∧ cutoff ≤ r.createdAt).map rowEquivalence).sum
  | [], gs, h => by
    cases h
    rfl
  | r :: l, gs, h => by
    rw [mapM_cons] at h
    obtain ⟨g, hg, h⟩ := DB.bind_eq_ok h
    obtain ⟨gs', hgs, h⟩ := DB.bind_eq_ok h
    cases h
    have ih := sum_of_decodes cutoff hgs
    rw [filter_cons, filter_cons, counted_of_decode hg]
    split_ifs
    · rw [map_cons, map_cons, sum_cons, sum_cons, ih, grantEquivalence_of_decode hg]
    · exact ih

/-- The accumulator over a list that was read is the weight of the tenant's unrevoked grants since the cutoff. -/
theorem cumulative_of_list {gs : List MasterGrant} (h : s.listGrantsByTenant t = .ok gs) (cutoff : Time) :
    cumulativeEquivalentSince gs cutoff = wrap (sumFrom (live t s) cutoff) := by
  rw [cumulativeEquivalentSince_eq, sum_of_decodes cutoff h, sumFrom, live, filter_map, map_map]
  congr 1
  have hperm := mergeSort_perm (s.grants.filter fun g => g.tenantID = t) fun a b => decide (b.createdAt ≤ a.createdAt)
  rw [((hperm.filter _).map rowEquivalence).sum_eq, filter_filter, filter_filter]
  congr 2
  refine filter_congr fun r _ => ?_
  rw [Bool.eq_iff_iff]
  simp only [entry, Function.comp_apply, Bool.and_eq_true, decide_eq_true_eq]
  constructor
  · rintro ⟨⟨hr, hc⟩, ht⟩
    exact ⟨decide_eq_true hc, ht, hr⟩
  · rintro ⟨hc, ht, hr⟩
    exact ⟨⟨hr, of_decide_eq_true hc⟩, ht⟩

end Stored

/-! ## Calls that do not overlap -/

/-- The inputs that the form of the web layer lets through. -/
def ValidInput (inp : IssueGrantInput) : Prop :=
  match inp.kind with
  | .freeSubscriptionPeriod => 1 ≤ inp.periodDays ∧ inp.periodDays ≤ 366
  | .extraTokens => 0 < inp.amount ∧ inp.amount ≤ maxInt64
  | .unknown _ => False

/-- Calls of `IssueGrant` on valid inputs and of `RevokeGrant`, by a clock that does not run back.  Creation times are stored in whole
microseconds; no unrevoked grant may enter the window by this rounding alone. -/
def Issues (w : W) : Ev → Prop
  | .invoke _ c => (∃ applier inp, c = .issueGrant applier inp ∧ ValidInput inp) ∨ ∃ inp, c = .revokeGrant inp
  | .act _ .clock now _ _ => ∀ j now' pre post, .act j .clock now' pre post ∈ w.hist → now' ≤ now
  | .act _ (.createGrant g) _ pre _ => ∀ x ∈ live g.tenantID pre,
      timestamptz g.createdAt - tenantWindow ≤ x.1 → g.createdAt - tenantWindow ≤ x.1
  | _ => True

/-- Between the time a call reads the clock and its `Create`, no grant of the tenant is added. -/
def Alone (w : W) : Ev → Prop
  | .act i (.createGrant g) _ pre _ => ∀ now pre₀ post₀, .act i .clock now pre₀ post₀ ∈ w.hist →
      (stored g.tenantID pre).length = (stored g.tenantID pre₀).length
  | _ => True

def IssuesAlone (w : W) (e : Ev) : Prop := Issues w e ∧ Alone w e

/-- The row stems from a call of `IssueGrant` and is worth what was asked for. -/
def IssuedBy (w : W) (row : MasterGrantRow) : Prop :=
  ∃ i applier inp, .invoke i (.issueGrant applier inp) ∈ w.hist ∧ ValidInput inp ∧ row.tenantID = inp.tenantID ∧
    row.kind = inp.kind ∧ rowEquivalence row = capEquivalence inp.kind inp.amount inp.periodDays

structure CapInv (w : W) : Prop where
  past : ∀ i q r pre post, .act i q r pre post ∈ w.hist → ∀ t,
    Grown t pre w.store ∧ Capped tenantWindow perTenantWindowCap (live t pre)
  capped : ∀ t, Capped tenantWindow perTenantWindowCap (live t w.store)
  issued : ∀ row ∈ w.store.grants, IssuedBy w row
  -- no grant is stored with a time that the clock has not shown yet
  clocked : ∀ t, ∀ x ∈ stored t w.store, ∃ i now pre post, .act i .clock now pre post ∈ w.hist ∧ x.1 ≤ now
  before : ∀ i now pre post, .act i .clock now pre post ∈ w.hist → ∀ t, ∀ x ∈ stored t pre, x.1 ≤ now

section Invariant

variable {v : W} {i : ℕ} {s' : DB}
variable {inp : IssueGrantInput} {row : MasterGrantRow} {t : UUID} {now : Time} {existing : List MasterGrant}

theorem capEquivalence_nonneg (h : ValidInput inp) : 0 ≤ capEquivalence inp.kind inp.amount inp.periodDays := by
  unfold ValidInput at h
  cases hk : inp.kind with
  | freeSubscriptionPeriod =>
    rw [hk] at h
    obtain ⟨h1, h2⟩ := h
    rw [capEquivalence, freeSubscriptionDayEquivalence, wrap_of_inRange (by unfold InRange minInt64 maxInt64; omega)]
    omega
  | extraTokens =>
    rw [hk] at h
    exact h.1.le
  | unknown text =>
  rw [hk] at h
  exact h.elim

theorem IssuedBy.mono {w : W} (h : IssuedBy v row) (hh : ∀ e ∈ v.hist, e ∈ w.hist) : IssuedBy w row := by
  obtain ⟨j, applier, inp, hm, hrest⟩ := h
  exact ⟨j, applier, inp, hh _ hm, hrest⟩

theorem CapInv.nonneg (h : CapInv v) {x : Entry} (hx : x ∈ stored t v.store) : 0 ≤ x.2 := by
  obtain ⟨row, hrow, rfl⟩ := mem_map.mp hx
  obtain ⟨-, -, inp, -, hv, -, -, he⟩ := h.issued row (mem_of_mem_filter hrow)
  show 0 ≤ rowEquivalence row
  rw [he]
  exact capEquivalence_nonneg hv

theorem CapInv.signal (h : CapInv v) {e : Ev} (hs : e.storeAfter v.store = v.store) (hne : ∀ j q r s s', e ≠ .act j q r s s') :
    CapInv (v.after e) := by
  have hst : (v.after e).store = v.store := hs
  have hact : ∀ {j q} {r : Resp q} {pre post}, .act j q r pre post ∈ (v.after e).hist → .act j q r pre post ∈ v.hist := by
    intro j q r pre post hm
    rcases mem_cons.mp hm with hm | hm
    · exact absurd hm.symm (hne _ _ _ _ _)
    · exact hm
  refine ⟨?_, by rw [hst]; exact h.capped, ?_, ?_, fun j now pre post hm => h.before j now pre post (hact hm)⟩
  · intro j q r pre post hm
    rw [hst]
    exact h.past j q r pre post (hact hm)
  · rw [hst]
    exact fun row hrow => (h.issued row hrow).mono fun _ he => mem_cons_of_mem _ he
  intro t x hx
  rw [hst] at hx
  obtain ⟨j, now, pre, post, hm, hle⟩ := h.clocked t x hx
  exact ⟨j, now, pre, post, mem_cons_of_mem _ hm, hle⟩

/-- Requests: what they must leave, given what the clock shows. -/
theorem CapInv.act (h : CapInv v) {q : Req} {r : Resp q} (hgrown : ∀ t, Grown t v.store s')
    (hcap : ∀ t, Capped tenantWindow perTenantWindowCap (live t s'))
    (hissued : ∀ row ∈ s'.grants, IssuedBy v row)
    (hclocked : ∀ t, ∀ x ∈ stored t s', ∃ j now pre post, .act j .clock now pre post ∈ v.hist ∧ x.1 ≤ now)
    (hclock : ∀ now, (⟨q, r⟩ : Σ q, Resp q) = ⟨.clock, now⟩ → ∀ t, ∀ x ∈ stored t v.store, x.1 ≤ now) :
    CapInv (v.after (.act i q r v.store s')) := by
  have hmono : ∀ e ∈ v.hist, e ∈ (v.after (.act i q r v.store s')).hist := fun _ he => mem_cons_of_mem _ he
  refine ⟨?_, hcap, fun row hrow => (hissued row hrow).mono hmono, ?_, ?_⟩
  · intro j q' r' pre post hm t
    rcases mem_cons.mp hm with hm | hm
    · cases hm
      exact ⟨hgrown t, h.capped t⟩
    · exact ⟨((h.past j q' r' pre post hm t).1).trans (hgrown t), (h.past j q' r' pre post hm t).2⟩
  · intro t x hx
    obtain ⟨j, now, pre, post, hm, hle⟩ := hclocked t x hx
    exact ⟨j, now, pre, post, hmono _ hm, hle⟩
  intro j now pre post hm
  rcases mem_cons.mp hm with hm | hm
  · cases hm
    exact hclock now rfl
  · exact h.before j now pre post hm

theorem CapInv.marked (h : CapInv v) {q : Req} {r : Resp q} (hm : Marked v.store s')
    (ha : Issues v (.act i q r v.store s')) : CapInv (v.after (.act i q r v.store s')) := by
  refine h.act hm.grown ?_ ?_ ?_ ?_
  · exact fun t => (h.capped t).sublist (hm.live_sublist t) fun x hx => h.nonneg ((live_sublist_stored t _).subset hx)
  · intro row hrow
    obtain ⟨f, hf, hsame⟩ := hm
    rw [hf] at hrow
    obtain ⟨row₀, hrow0, rfl⟩ := mem_map.mp hrow
    obtain ⟨j, applier, inp, hj, hv, ht, hk, he⟩ := h.issued row₀ hrow0
    have hs := (hsame row₀).1
    exact ⟨j, applier, inp, hj, hv, hs.tenantID.trans ht, hs.kind.trans hk, (rowEquivalence_of_same hs).trans he⟩
  · intro t
    rw [hm.stored_eq]
    exact h.clocked t
  intro now heq t x hx
  cases heq
  obtain ⟨j, now', pre, post, hj, hle⟩ := h.clocked t x hx
  exact hle.trans (ha j now' pre post hj)

/-! ## Issuing -/

/-- Call `i` has read the clock and then the tenant's grants. -/
def Listed (i : ℕ) (t : UUID) (now : Time) (existing : List MasterGrant) (w : W) : Prop :=
  ∃ pre₀ post₀ pre₁ post₁, .act i .clock now pre₀ post₀ ∈ w.hist ∧
    .act i (.listGrantsByTenant t) (.ok existing) pre₁ post₁ ∈ w.hist ∧ pre₁.listGrantsByTenant t = .ok existing ∧
    Grown t pre₀ pre₁

theorem Listed.mono {w : W} (h : Listed i t now existing v) (hh : ∀ e ∈ v.hist, e ∈ w.hist) : Listed i t now existing w := by
  obtain ⟨pre₀, post₀, pre₁, post₁, h1, h2, h3⟩ := h
  exact ⟨pre₀, post₀, pre₁, post₁, hh _ h1, hh _ h2, h3⟩

theorem enforceCap_none {equivalent cumulative : ℤ} (h : enforceCap equivalent cumulative = none) :
    equivalent ≤ perGrantCap ∧ wrap (cumulative + equivalent) ≤ perTenantWindowCap := by
  unfold enforceCap at h
  split_ifs at h with h1 h2
  exact ⟨not_lt.mp h1, not_lt.mp h2⟩

/-- What passes the cap fits on top of everything the tenant has in the window of the new grant. -/
theorem CapInv.fits (h : CapInv v) {equivalent : ℤ} (hl : Listed i t now existing v) (hpos : 0 ≤ equivalent)
    (hcap : enforceCap equivalent (cumulativeEquivalentSince existing (now - tenantWindow)) = none)
    (hround : ∀ x ∈ live t v.store, timestamptz now - tenantWindow ≤ x.1 → now - tenantWindow ≤ x.1)
    (halone : ∀ now pre₀ post₀, .act i .clock now pre₀ post₀ ∈ v.hist →
      (stored t v.store).length = (stored t pre₀).length) :
    sumFrom (live t v.store) (timestamptz now - tenantWindow) + equivalent ≤ perTenantWindowCap := by
  obtain ⟨pre₀, post₀, pre₁, post₁, hclock, hlist, hread, hgrown⟩ := hl
  -- nothing was added since the clock was read, so the list is what is stored now
  have hlen := halone _ _ _ hclock
  obtain ⟨h0, -⟩ := ((h.past _ _ _ _ _ hclock t).1).still hlen.le
  obtain ⟨hstored, hsub⟩ := ((h.past _ _ _ _ _ hlist t).1).still (hlen.le.trans hgrown.length_le)
  have hpos1 : ∀ x ∈ live t pre₁, 0 ≤ x.2 := fun x hx => h.nonneg (hstored ▸ (live_sublist_stored t pre₁).subset hx)
  have hpast : ∀ x ∈ live t pre₁, x.1 ≤ now := fun x hx =>
    h.before _ _ _ _ hclock t x (h0 ▸ hstored ▸ (live_sublist_stored t pre₁).subset hx)
  -- so the accumulator has not overflowed
  have hsum := (h.past _ _ _ _ _ hlist t).2.sumFrom_le hpast
  have hsum0 := sumFrom_nonneg hpos1 (now - tenantWindow)
  obtain ⟨h1, h2⟩ := enforceCap_none hcap
  unfold perTenantWindowCap perGrantCap at *
  have hcum : cumulativeEquivalentSince existing (now - tenantWindow) = sumFrom (live t pre₁) (now - tenantWindow) := by
    rw [cumulative_of_list hread, wrap_of_inRange (by unfold InRange minInt64 maxInt64; omega)]
  rw [hcum, wrap_of_inRange (by unfold InRange minInt64 maxInt64; omega)] at h2
  have hround' : sumFrom (live t v.store) (timestamptz now - tenantWindow) ≤ sumFrom (live t v.store) (now - tenantWindow) := by
    refine sum_filter_le (fun x hx hle => ?_) fun x hx => h.nonneg ((live_sublist_stored t _).subset hx)
    exact decide_eq_true (hround x hx (of_decide_eq_true hle))
  have hmono := sumFrom_mono hsub hpos1 (now - tenantWindow)
  omega

theorem rowEquivalence_issued (hv : ValidInput inp) (hle : capEquivalence inp.kind inp.amount inp.periodDays ≤ perGrantCap) (hk : row.kind = inp.kind)
    (hp : row.payload = marshal (buildGrantPayload inp)) : rowEquivalence row = capEquivalence inp.kind inp.amount inp.periodDays := by
  have hn : Issuable inp.kind (valueOf inp.kind inp.periodDays inp.amount) := by
    unfold ValidInput at hv
    cases hkind : inp.kind with
    | freeSubscriptionPeriod =>
      rw [hkind] at hv
      exact hv
    | extraTokens =>
      rw [hkind] at hv hle
      have hle' : inp.amount ≤ 10000000 := hle
      refine ⟨hv.1, Float64.exact_of_abs_lt ?_, by unfold minInt64; show _ ≤ inp.amount; omega, hv.2⟩
      show |inp.amount| < _
      rw [abs_of_pos hv.1]
      omega
    | unknown text =>
    rw [hkind] at hv
    exact hv.elim
  obtain ⟨-, he, hr⟩ := hn.number
  rw [rowEquivalence, hp, buildGrantPayload_eq hn rfl, unmarshal_int he hr, hk]
  cases hkind : inp.kind with
  | freeSubscriptionPeriod =>
    rw [hkind] at hr
    exact congrArg (fun x => wrap (x * freeSubscriptionDayEquivalence)) (readInt64Payload_float64 hr)
  | extraTokens =>
    rw [hkind] at hr
    have hread : readInt64Payload [("amount", .float64 inp.amount)] "amount" = inp.amount := readInt64Payload_float64 hr
    exact hread
  | unknown text =>
  rw [hkind] at hn
  exact hn.elim

theorem CapInv.create (h : CapInv v) {applier : Bool} {id : UUID} {ext : String} {g : MasterGrant} {r : Except Err Unit}
    (hinv : .invoke i (.issueGrant applier inp) ∈ v.hist) (hv : ValidInput inp) (hl : Listed i inp.tenantID now existing v)
    (hcap : enforceCap (capEquivalence inp.kind inp.amount inp.periodDays)
      (cumulativeEquivalentSince existing (now - tenantWindow)) = none)
    (hg : newMasterGrant id ext inp.tenantID inp.actorUserID inp.kind (buildGrantPayload inp) inp.reason now = .ok g)
    (he : exec (.createGrant g) v.store r s') (ha : IssuesAlone v (.act i (.createGrant g) r v.store s')) :
    CapInv (v.after (.act i (.createGrant g) r v.store s')) := by
  rcases Tx.store_cases he with rfl | ⟨_, hcreate⟩
  · exact h.marked (.of_eq rfl) ha.1
  obtain ⟨hround, halone⟩ := ha
  unfold newMasterGrant at hg
  split_ifs at hg
  cases hg
  obtain ⟨row, -, -, ht, hk, hp, hc, -, hrev, -, rfl⟩ := DB.createGrant_ok hcreate
  have hrow := rowEquivalence_issued hv (enforceCap_none hcap).1 hk hp
  have hentry : entry row = (timestamptz now, capEquivalence inp.kind inp.amount inp.periodDays) := by rw [entry, hc, hrow]
  refine h.act (grown_concat rfl hrev) ?_ ?_ ?_ (by rintro _ ⟨⟩)
  · intro t
    rw [live_concat rfl hrev]
    split_ifs with htt
    · refine (h.capped t).concat (fun x hx => h.nonneg ((live_sublist_stored t _).subset hx)) ?_
      have htt' : inp.tenantID = t := ht.symm.trans htt
      subst htt'
      rw [hentry]
      exact h.fits hl (capEquivalence_nonneg hv) hcap hround halone
    · rw [append_nil]
      exact h.capped t
  · intro x hx
    rcases mem_append.mp hx with hx | hx
    · exact h.issued x hx
    · rw [mem_singleton.mp hx]
      exact ⟨i, applier, inp, hinv, hv, ht, hk, hrow⟩
  intro t x hx
  rw [stored_concat rfl] at hx
  rcases mem_append.mp hx with hx | hx
  · exact h.clocked t x hx
  obtain ⟨pre₀, post₀, -, -, hclock, -⟩ := hl
  have hxe : x = entry row := by
    split_ifs at hx
    · exact mem_singleton.mp hx
    · cases hx
  refine ⟨i, now, pre₀, post₀, hclock, ?_⟩
  rw [hxe, hentry]
  exact timestamptz_le now

end Invariant

section Safety

variable {i : ℕ} {α : Type} {Q : α → W → Prop} {u : W}

/-- Calls rely on the history to be kept; all they know is in it. -/
def capSpec : Spec Req Resp DB Call Res where
  inv := CapInv
  rely := fun _ u v => ∀ e ∈ u.hist, e ∈ v.hist
  refl := fun _ _ _ he => he
  trans := fun _ _ _ _ h h' e he => h' e (h e he)

abbrev Sc (i : ℕ) (Q : α → W → Prop) (p : Client α) (w : W) : Prop := Safe (system IssuesAlone) capSpec i Q p w

theorem kept_act {v : W} {e : Ev} : ∀ x ∈ v.hist, x ∈ (v.after e).hist := fun _ hx => mem_cons_of_mem _ hx

theorem safe_marks {q : Req} {k : Resp q → Client α} (hq : creates q = none)
    (H : ∀ v r s', (∀ e ∈ u.hist, e ∈ v.hist) → CapInv v → exec q v.store r s' →
      Sc i Q (k r) (v.after (.act i q r v.store s'))) : Sc i Q (.ask q k) u := by
  intro v huv hv r s' he ha
  exact ⟨⟨hv.marked (marked_of_exec he hq) ha.1, fun _ _ => kept_act⟩, H v r s' huv hv he⟩

theorem safe_of_creates : ∀ {p : Client α} {u : W}, (p.Always fun q _ _ => creates q = none) → Sc i (fun _ _ => True) p u
  | .ret _, _, _ => fun _ _ _ => trivial
  | .ask _ _, _, h => fun _ _ hv r _ he ha =>
    ⟨⟨hv.marked (marked_of_exec he (h r).1) ha.1, fun _ _ => kept_act⟩, safe_of_creates (h r).2⟩

theorem safe_issueGrant {applier : Bool} {inp : IssueGrantInput} (hinv : .invoke i (.issueGrant applier inp) ∈ u.hist)
    (hv : ValidInput inp) : Sc i (fun _ _ => True) (issueGrant applier inp) u := by
  simp only [issueGrant, send_bind, pure_eq]
  refine safe_marks rfl fun v₁ now s' h1 _ he1 => ?_
  obtain rfl : s' = v₁.store := he1
  refine safe_marks rfl fun v₂ ans s₂ h2 hv2 he2 => ?_
  cases ans with
  | error e => exact .stop
  | ok existing =>
  -- the clock was read before, and the list is one of these tables
  have hl : Listed i inp.tenantID now existing
      (v₂.after (.act i (.listGrantsByTenant inp.tenantID) (.ok existing) v₂.store s₂)) :=
    ⟨_, _, _, _, kept_act _ (h2 _ mem_cons_self), mem_cons_self, Read.of_ok he2,
      (hv2.past _ _ _ _ _ (h2 _ mem_cons_self) _).1⟩
  dsimp only
  split
  · exact .stop
  rename_i hcap
  refine safe_marks rfl fun v₃ id s₃ h3 _ _ => ?_
  refine safe_marks rfl fun v₄ ext s₄ h4 _ _ => ?_
  split
  · exact .stop
  rename_i g hg
  intro v huv hcv r s' he ha
  have hlist : ∀ e ∈ (v₂.after (.act i (.listGrantsByTenant inp.tenantID) (.ok existing) v₂.store s₂)).hist, e ∈ v.hist :=
    fun e hm => huv e (kept_act e (h4 e (kept_act e (h3 e hm))))
  have hinv' : .invoke i (.issueGrant applier inp) ∈ v.hist := hlist _ (kept_act _ (h2 _ (kept_act _ (h1 _ hinv))))
  refine ⟨⟨hcv.create hinv' hv (hl.mono hlist) hcap hg he ha, fun _ _ => kept_act⟩, ?_⟩
  cases r with
  | error e => exact .stop
  | ok _ =>
  dsimp only
  split_ifs
  · refine safe_of_creates (Prog.Always.bind (fun _ _ _ h => h) (fun ans => ?_) (apply_creates _))
    cases ans <;> trivial
  · exact .stop

theorem capVerified : Verified (system IssuesAlone) capSpec := by
  intro w i c hw _ ha
  refine ⟨⟨hw.signal rfl (by rintro _ _ _ _ _ ⟨⟩), fun _ _ => kept_act⟩, ?_⟩
  have hbody : Sc i (fun _ _ => True) (body c) (w.after (.invoke i c)) := by
    rcases ha.1 with ⟨applier, inp, rfl, hv⟩ | ⟨inp, rfl⟩
    · exact safe_issueGrant mem_cons_self hv
    · exact safe_of_creates ((sends_revokeGrant inp).mono fun _ h => h.1)
  exact hbody.mono fun a v hv _ _ => ⟨hv.signal rfl (by rintro _ _ _ _ _ ⟨⟩), fun _ _ => kept_act⟩

theorem capInv_start {db : DB} (h0 : db.grants = []) : CapInv ⟨db, []⟩ where
  past := fun _ _ _ _ _ hm => nomatch hm
  capped := by
    intro t
    have hl : live t db = [] := by rw [live, h0]; rfl
    show Capped _ _ (live t db)
    rw [hl]
    exact capped_nil (by decide)
  issued := by
    intro row hrow
    rw [show (⟨db, []⟩ : W).store.grants = [] from h0] at hrow
    cases hrow
  clocked := by
    intro t x hx
    rw [stored, show (⟨db, []⟩ : W).store.grants = [] from h0] at hx
    cases hx
  before := fun _ _ _ _ hm => nomatch hm

end Safety

/-! ## Calls that list before any of them creates -/

def bulkInput : IssueGrantInput := ⟨uid 9, uid 1, .extraTokens, 0, 10000000, "goodwill credit"⟩

abbrev issueBulk : Call := .issueGrant false bulkInput

/-- The store at time 0.  The identifiers drawn count the grants; the tenant has none when it is asked for them. -/
def issueServe : (q : Req) → DB → Resp q × DB
  | .listGrantsByTenant _, s => (.ok [], s)
  | .newUUID, s => (uid (s.grants.length + 1), s)
  | .newULID, s => ((uid (s.grants.length + 1)).string, s)
  | q, s => Store.serve 0 (uid 1) "" q s

def listsNone : Req → DB → Bool
  | .listGrantsByTenant _, s => s.grants = []
  | _, _ => true

theorem exec_issueServe (q : Req) (s : DB) (h : listsNone q s) : exec q s (issueServe q s).1 (issueServe q s).2 := by
  have hid : uid 1 ≠ UUID.Nil := by decide
  cases q with
  | listGrantsByTenant t =>
    refine ⟨rfl, .inl ?_⟩
    rw [DB.listGrantsByTenant, of_decide_eq_true h, filter_nil, mergeSort_nil]
    rfl
  | newUUID => rfl
  | newULID => rfl
  | _ => exact @Store.exec_serve 0 (uid 1) "" hid _ s

def issues (w : W) : Ev → Bool
  | .invoke _ c => c = issueBulk
  | .act _ .clock now _ _ => w.hist.all fun
    | .act _ .clock now' _ _ => now' ≤ now
    | _ => true
  | .act _ (.createGrant g) _ _ _ => g.createdAt = 0
  | _ => true

theorem issues_sound (w : W) (e : Ev) (h : issues w e) : Issues w e := by
  cases e with
  | invoke i c => exact .inl ⟨_, _, of_decide_eq_true h, by decide, by decide⟩
  | act i q r pre post =>
    cases q with
    | clock => exact fun j now' pre' post' hm => of_decide_eq_true (all_eq_true.mp h _ hm)
    | createGrant g =>
      have hzero : g.createdAt = 0 := of_decide_eq_true h
      intro x _ hx
      rwa [hzero] at hx ⊢
    | _ => trivial
  | respond i c a => trivial

def alone (w : W) : Ev → Bool
  | .act _ (.createGrant g) _ pre _ => w.hist.all fun
    | .act _ .clock _ pre₀ _ => (stored g.tenantID pre).length = (stored g.tenantID pre₀).length
    | _ => true
  | _ => true

theorem issuesAlone_sound (w : W) (e : Ev) (h : issues w e && alone w e) : IssuesAlone w e := by
  obtain ⟨hissues, halone⟩ := Bool.and_eq_true_iff.mp h
  refine ⟨issues_sound w e hissues, ?_⟩
  unfold Alone
  split
  · exact fun now pre₀ post₀ hm => of_decide_eq_true (all_eq_true.mp halone _ hm)
  · trivial

/-- A call up to its list of the tenant's grants, and from there to its `Create`. -/
def listing (i : ℕ) : List (Turn Call) := [.invoke i issueBulk, .move i, .move i]
def creating (i : ℕ) : List (Turn Call) := [.move i, .move i, .move i]

end Crm.Grant
