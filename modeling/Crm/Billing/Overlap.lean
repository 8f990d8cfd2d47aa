import Crm.Billing.Renewer
import Crm.Grant.Extension

/-!
# Crm.Billing.Overlap — a renewal and a free period on one subscription

`RenewSubscription` guards its update by the old period end; `applyFreePeriod` reads the subscription, extends its copy and writes all
columns back.  A renewal between the read and the save is overwritten: the month that was invoiced is gone and the period starts where it
started before (`renewal_overwritten`).  When the save finds the row as it was read, both show in the end of the period
(`no_update_lost`).
-/

namespace Crm.Billing

open Interleave Crm.Store Crm.Grant List

def BillingDB.sub (id : UUID) (s : BillingDB) : Option Subscription := s.core.subs.find? fun r => r.id = id

/-- A renewal and a free period on the active subscription `sub₀` of the tenant, which stands in the tables `s₀` under the constraints
of its columns: the primary key, the order of the period and whole microseconds. -/
structure Overlap where
  s₀ : BillingDB
  sub₀ : Subscription
  price : ℤ
  renewedAt : Time
  g : MasterGrant
  now : Time
  ids : (s₀.core.subs.map Subscription.id).Nodup
  active : s₀.core.getSubscription g.tenantID = .ok sub₀
  order : sub₀.currentPeriodStart < sub₀.currentPeriodEnd
  startMicro : timestamptz sub₀.currentPeriodStart = sub₀.currentPeriodStart
  endMicro : timestamptz sub₀.currentPeriodEnd = sub₀.currentPeriodEnd

namespace Overlap

variable (o : Overlap)

def renewal : Call := .renewSubscription o.sub₀.id o.sub₀.currentPeriodEnd o.price o.renewedAt

def freePeriod : Call := .applyFreePeriod o.g o.now

def Once (w : W) : Ev → Prop
  | .invoke _ c => (c = o.renewal ∨ c = o.freePeriod) ∧ ∀ j, .invoke j c ∉ w.hist
  | _ => True

/-- At a save, the row that the call has read is as it was then. -/
def SavesFresh (w : W) : Ev → Prop
  | .act i (.core (.saveSubscription _)) _ pre _ => ∀ t sub pre' post', .act i (.core (.getSubscription t)) (.ok sub) pre' post' ∈ w.hist →
      pre.sub sub.id = pre'.sub sub.id
  | _ => True

def OnceFresh (w : W) (e : Ev) : Prop := o.Once w e ∧ SavesFresh w e

def Renews : Ev → Prop
  | .act _ (.renewSubscription id old price t) _ pre post => ∃ u res, pre.renewSubscription id old price t u = .ok (res, post)
  | _ => False

def Extends : Ev → Prop
  | .act _ (.core (.saveSubscription sub)) _ pre post => pre.core.saveSubscription sub = .ok ((), post.core)
  | _ => False

def Renewed (w : W) : Prop := ∃ e ∈ w.hist, Renews e

def Extended (w : W) : Prop := ∃ e ∈ w.hist, Extends e

def Own (i : ℕ) (w : W) : Prop := .invoke i o.freePeriod ∈ w.hist

/-- Where the row stands after `b` renewals and `x` extensions, each none or one. -/
structure Stands (b x : Bool) (r : Subscription) : Prop where
  starts : r.currentPeriodStart = if b then o.sub₀.currentPeriodEnd else o.sub₀.currentPeriodStart
  ends : r.currentPeriodEnd = timestamptz
    ((if b then nextMonth o.sub₀.currentPeriodEnd else o.sub₀.currentPeriodEnd) + if x then period o.g else 0)
  positive : x = true → 0 < period o.g

/-- The rows of `s` are those of `s₀`, and the subscription stands after `b` renewals and `x` extensions. -/
def Rows (b x : Bool) (s : BillingDB) : Prop :=
  ∃ f, s.core.subs = o.s₀.core.subs.map f ∧
    (∀ r ∈ o.s₀.core.subs, (f r).id = r.id ∧ (f r).tenantID = r.tenantID ∧ (f r).status = r.status) ∧ o.Stands b x (f o.sub₀)

/-! ## The tables -/

section Tables

variable {o} {b x : Bool} {s s' : BillingDB}

theorem mem_sub₀ : o.sub₀ ∈ o.s₀.core.subs := mem_of_find?_eq_some (getSubscription_ok o.active).2

theorem stands_start : o.Stands false false o.sub₀ := ⟨rfl, by simpa using o.endMicro.symm, fun h => nomatch h⟩

theorem rows_start : o.Rows false false o.s₀ := ⟨fun r => r, by simp, fun _ _ => ⟨rfl, rfl, rfl⟩, stands_start⟩

theorem Rows.find (h : o.Rows b x s) :
    ∃ r, s.sub o.sub₀.id = some r ∧ s.core.getSubscription o.g.tenantID = .ok r ∧ r.id = o.sub₀.id ∧ r.status = .active ∧
      o.Stands b x r := by
  obtain ⟨f, hf, hid, hst⟩ := h
  obtain ⟨ht, hfind⟩ := getSubscription_ok o.active
  obtain ⟨hid0, -, hact⟩ := hid o.sub₀ mem_sub₀
  have hsome : o.sub₀.tenantID = o.g.tenantID ∧ o.sub₀.status = .active := by simpa using find?_some hfind
  refine ⟨f o.sub₀, ?_, ?_, hid0, hact.trans hsome.2, hst⟩
  · have hself : o.s₀.core.subs.find? (fun r => r.id = o.sub₀.id) = some o.sub₀ := by
      obtain ⟨y, hy⟩ : ∃ y, o.s₀.core.subs.find? (fun r => r.id = o.sub₀.id) = some y := by
        rw [← Option.isSome_iff_exists]
        exact find?_isSome.mpr ⟨o.sub₀, mem_sub₀, by simp⟩
      have hyid : y.id = o.sub₀.id := by simpa using find?_some hy
      rw [hy, inj_on_of_nodup_map o.ids (mem_of_find?_eq_some hy) mem_sub₀ hyid]
    rw [BillingDB.sub, hf, find?_map, find?_congr, hself]
    · rfl
    · intro r hr
      simp [(hid r hr).1]
  rw [DB.getSubscription, if_neg ht, hf, find?_map, find?_congr, hfind]
  · rfl
  · intro r hr
    simp [(hid r hr).2.1, (hid r hr).2.2]

theorem micro_nextMonth : timestamptz (nextMonth o.sub₀.currentPeriodEnd) = nextMonth o.sub₀.currentPeriodEnd := by
  rw [timestamptz_nextMonth, o.endMicro]

/-- A month and an extension commute with the column's precision. -/
theorem timestamptz_nextMonth_add (d : ℤ) (h : timestamptz (o.sub₀.currentPeriodEnd + d) = o.sub₀.currentPeriodEnd) :
    timestamptz (nextMonth o.sub₀.currentPeriodEnd + d) = nextMonth o.sub₀.currentPeriodEnd := by
  unfold nextMonth
  rw [Calendar.addMonths_eq, add_right_comm, timestamptz_add_days, h]

variable {r : Subscription}

theorem Stands.renewed (h : o.Stands true x r) : o.sub₀.currentPeriodEnd < r.currentPeriodEnd := by
  have hle : nextMonth o.sub₀.currentPeriodEnd ≤ r.currentPeriodEnd := by
    rw [h.ends, ← micro_nextMonth]
    apply timestamptz_mono
    rw [micro_nextMonth]
    cases x with
    | false => simp
    | true => simpa using (h.positive rfl).le
  exact lt_of_lt_of_le (lt_nextMonth _) hle

/-- The renewal commits only on the row that has not been renewed. -/
theorem Rows.renew (h : o.Rows b x s) {u : UUID} {res : RenewResult}
    (hr : s.renewSubscription o.sub₀.id o.sub₀.currentPeriodEnd o.price o.renewedAt u = .ok (res, s')) :
    b = false ∧ o.Rows true x s' := by
  obtain ⟨f, hf, hid, hst⟩ := h
  obtain ⟨sub, -, -, -, ⟨r, hmem, hold⟩, -, -, rfl⟩ := BillingDB.renewSubscription_ok hr
  obtain ⟨r₀, hr0, rfl⟩ : ∃ r₀ ∈ o.s₀.core.subs, f r₀ = r := by
    rw [hf] at hmem
    exact mem_map.mp hmem
  obtain rfl : r₀ = o.sub₀ := inj_on_of_nodup_map o.ids hr0 mem_sub₀ ((hid r₀ hr0).1.symm.trans hold.1)
  have hend : (f o.sub₀).currentPeriodEnd = o.sub₀.currentPeriodEnd := hold.2.trans o.endMicro
  have hb : b = false := by
    cases b with
    | false => rfl
    | true => exact absurd hend (ne_of_gt hst.renewed)
  subst hb
  refine ⟨rfl, fun y => if BillingDB.IsOld o.sub₀.id o.sub₀.currentPeriodEnd (f y) then
    BillingDB.advanced o.sub₀.currentPeriodEnd o.renewedAt (f y) else f y, ?_, ?_, ?_⟩
  · simp only [hf, map_map]
    rfl
  · intro y hy
    dsimp only
    split_ifs <;> exact hid y hy
  beta_reduce
  rw [if_pos hold, BillingDB.advanced_of_isOld hold, hend]
  refine ⟨rfl, ?_, hst.positive⟩
  cases x with
  | false => simpa using micro_nextMonth.symm
  | true =>
  have he := hst.ends
  rw [hend] at he
  exact (timestamptz_nextMonth_add _ (by simpa using he.symm)).symm

theorem Rows.save (h : o.Rows b false s) (hd : 0 < period o.g) (hr : s.sub o.sub₀.id = some r) {core' : DB}
    (hs : s.core.saveSubscription (extension r (period o.g) o.now) = .ok ((), core')) : o.Rows b true { s with core := core' } := by
  obtain ⟨r', hr', -, hrid, hract, hstands⟩ := h.find
  obtain rfl : r = r' := Option.some.inj (hr.symm.trans hr')
  obtain ⟨f, hf, hid, -⟩ := h
  obtain ⟨subs, rfl, hsubs⟩ := DB.saveSubscription_ok hs
  have hmem : r ∈ s.core.subs := mem_of_find?_eq_some hr
  have hfr : f o.sub₀ = r := by
    obtain ⟨y, hy, he⟩ : ∃ y ∈ o.s₀.core.subs, f y = r := by
      rw [hf] at hmem
      exact mem_map.mp hmem
    rw [← he, inj_on_of_nodup_map o.ids hy mem_sub₀ ((hid y hy).1.symm.trans (he ▸ hrid))]
  refine ⟨fun y => if (f y).id = r.id then DB.overwriteSubscription (extension r (period o.g) o.now) (f y) else f y, ?_, ?_, ?_⟩
  · show subs = _
    rw [hsubs ⟨r, hmem, rfl⟩, hf, map_map]
    rfl
  · intro y hy
    dsimp only
    split_ifs with he
    · obtain rfl : y = o.sub₀ := inj_on_of_nodup_map o.ids hy mem_sub₀ ((hid y hy).1.symm.trans (he.trans hrid))
      refine ⟨(hid _ hy).1, (hid _ hy).2.1, ?_⟩
      rw [← (hid _ hy).2.2, hfr]
      rfl
    · exact hid y hy
  beta_reduce
  rw [hfr, if_pos rfl]
  refine ⟨?_, ?_, fun _ => hd⟩
  · show timestamptz r.currentPeriodStart = _
    rw [hstands.starts]
    cases b
    · exact o.startMicro
    · exact o.endMicro
  show timestamptz (r.currentPeriodEnd + period o.g) = _
  rw [hstands.ends]
  cases b
  · simp [o.endMicro]
  · simp [micro_nextMonth]

end Tables

/-! ## Calls that save what they have read -/

/-- What holds between any two events: the row stands where the commits so far have moved it, the free period is applied by one call, and
success is reported of what has been committed. -/
structure Inv (w : W) : Prop where
  rows : ∃ b x, (b = true ↔ Renewed w) ∧ (x = true ↔ Extended w) ∧ o.Rows b x w.store
  unique : ∀ i j, o.Own i w → o.Own j w → i = j
  owned : Extended w → ∃ i, o.Own i w
  renewed : ∀ i res, .respond i o.renewal (Except.ok res) ∈ w.hist → Renewed w
  extended : ∀ i ref, .respond i o.freePeriod (Except.ok ref) ∈ w.hist → Extended w

/-- The call that applies the free period relies on nobody else to save. -/
def spec : Spec Req Resp BillingDB Call Res where
  inv := o.Inv
  rely := fun i v w => (∀ e ∈ v.hist, e ∈ w.hist) ∧ (o.Own i v → Extended w → Extended v)
  refl := fun _ _ => ⟨fun _ h => h, fun _ h => h⟩
  trans := fun _ _ _ _ h₁ h₂ => ⟨fun e he => h₂.1 e (h₁.1 e he), fun ho hx => h₁.2 ho (h₂.2 (h₁.1 _ ho) hx)⟩

section Calls

variable {o} {i : ℕ} {w u : W} {e : Ev} {α : Type} {Q : α → W → Prop}

abbrev Sf (o : Overlap) (i : ℕ) (Q : α → W → Prop) (p : Client α) (w : W) : Prop := Safe (system o.OnceFresh) o.spec i Q p w

theorem renewed_after : Renewed (w.after e) ↔ Renews e ∨ Renewed w := by simp [Renewed]

theorem extended_after : Extended (w.after e) ↔ Extends e ∨ Extended w := by simp [Extended]

theorem Inv.quiet (h : o.Inv w) (hstore : (w.after e).store.core.subs = w.store.core.subs) (hR : ¬ Renews e) (hX : ¬ Extends e)
    (hone : o.Once w e) (hren : ∀ i res, e = .respond i o.renewal (Except.ok res) → Renewed w)
    (hext : ∀ i ref, e = .respond i o.freePeriod (Except.ok ref) → Extended w) : o.spec.Keeps i w e := by
  have hren' : Renewed (w.after e) ↔ Renewed w := by rw [renewed_after, or_iff_right hR]
  have hext' : Extended (w.after e) ↔ Extended w := by rw [extended_after, or_iff_right hX]
  refine ⟨⟨?_, ?_, ?_, ?_, ?_⟩, fun j _ => ⟨fun x hx => mem_cons_of_mem _ hx, fun _ => hext'.mp⟩⟩
  · obtain ⟨b, x, hb, hx, f, hf, hst⟩ := h.rows
    exact ⟨b, x, hb.trans hren'.symm, hx.trans hext'.symm, f, hstore.trans hf, hst⟩
  · intro j k hj hk
    rcases mem_cons.mp hj with rfl | hj' <;> rcases mem_cons.mp hk with hk' | hk'
    · cases hk'
      rfl
    · exact absurd hk' (hone.2 k)
    · subst hk'
      exact absurd hj' (hone.2 j)
    · exact h.unique j k hj' hk'
  · intro hx
    obtain ⟨j, hj⟩ := h.owned (hext'.mp hx)
    exact ⟨j, mem_cons_of_mem _ hj⟩
  · intro j res hj
    rcases mem_cons.mp hj with hj | hj
    · exact hren'.mpr (hren j res hj.symm)
    · exact hren'.mpr (h.renewed j res hj)
  intro j ref hj
  rcases mem_cons.mp hj with hj | hj
  · exact hext'.mpr (hext j ref hj.symm)
  · exact hext'.mpr (h.extended j ref hj)

/-- A request that moves the row: what it commits, and that nobody else is about to save. -/
theorem Inv.commit {q : Req} {r : Resp q} {s' : BillingDB} (h : o.Inv w)
    (hrows : ∃ b x, (b = true ↔ Renewed (w.after (.act i q r w.store s'))) ∧
      (x = true ↔ Extended (w.after (.act i q r w.store s'))) ∧ o.Rows b x s')
    (hown : Extends (.act i q r w.store s') → o.Own i w) : o.spec.Keeps i w (.act i q r w.store s') := by
  refine ⟨⟨hrows, ?_, ?_, ?_, ?_⟩, fun j hj => ⟨fun x hx => mem_cons_of_mem _ hx, fun ho hx => ?_⟩⟩
  · intro j k hj hk
    rcases mem_cons.mp hj with ⟨⟨⟩⟩ | hj
    rcases mem_cons.mp hk with ⟨⟨⟩⟩ | hk
    exact h.unique j k hj hk
  · intro hx
    rcases extended_after.mp hx with hx | hx
    · exact ⟨i, mem_cons_of_mem _ (hown hx)⟩
    · obtain ⟨j, hj⟩ := h.owned hx
      exact ⟨j, mem_cons_of_mem _ hj⟩
  · intro j res hj
    rcases mem_cons.mp hj with hj | hj
    · cases hj
    · exact renewed_after.mpr (.inr (h.renewed j res hj))
  · intro j ref hj
    rcases mem_cons.mp hj with hj | hj
    · cases hj
    · exact extended_after.mpr (.inr (h.extended j ref hj))
  · rcases extended_after.mp hx with hx | hx
    · exact absurd (h.unique j i ho (hown hx)) hj
    · exact hx

theorem safe_core {q : Store.Req} {k : Store.Resp q → Client α} (hq : q.writesSubs = false)
    (H : ∀ v r s', o.Inv v → Store.exec q v.store.core r s' → (∀ x ∈ u.hist, x ∈ v.hist) →
      (o.Own i u → Extended v → Extended u) →
      Sf o i Q (k r) (v.after (.act i (.core q) r v.store { v.store with core := s' }))) :
    Sf o i Q (.ask (.core q) k) u := by
  rintro v hrely hv r _ ⟨s', he, rfl⟩ ha
  have hX : ¬ Extends (.act i (.core q) r v.store { v.store with core := s' }) := by
    cases q <;> first | exact id | cases hq
  refine ⟨hv.quiet (exec_subs he hq) id hX trivial (by rintro _ _ ⟨⟩) (by rintro _ _ ⟨⟩), ?_⟩
  exact H v r s' hv he hrely.1 hrely.2

theorem safe_renewal : Sf o i (Responds (system o.OnceFresh) o.spec i o.renewal) (body o.renewal) u := by
  rintro v - hv r s' he ha
  have hk : o.spec.Keeps i v (.act i (.renewSubscription o.sub₀.id o.sub₀.currentPeriodEnd o.price o.renewedAt) r v.store s') := by
    by_cases hc : ∃ u res, v.store.renewSubscription o.sub₀.id o.sub₀.currentPeriodEnd o.price o.renewedAt u = .ok (res, s')
    · obtain ⟨b, x, hb, hx, hrows⟩ := hv.rows
      obtain ⟨u', res, hcommit⟩ := hc
      refine hv.commit ⟨true, x, ?_, ?_, (hrows.renew hcommit).2⟩ False.elim
      · exact iff_of_true rfl (renewed_after.mpr (.inl ⟨u', res, hcommit⟩))
      · exact hx.trans (extended_after.trans (or_iff_right id)).symm
    obtain ⟨u', htx⟩ := he
    rcases Tx.store_cases htx with rfl | ⟨res, hcommit⟩
    · exact hv.quiet rfl hc id trivial (by rintro _ _ ⟨⟩) (by rintro _ _ ⟨⟩)
    · exact absurd ⟨u', res, hcommit⟩ hc
  refine ⟨hk, ?_⟩
  intro v' hrely hv' _
  refine hv'.quiet rfl id id trivial ?_ (by rintro _ _ ⟨⟩)
  rintro j res ⟨⟩
  obtain ⟨u', htx⟩ := he
  exact ⟨_, hrely.1 _ mem_cons_self, u', res, Tx.of_ok htx⟩

/-- The save of what the call has read, from a row that nobody has extended. -/
theorem Inv.save (h : o.Inv w) (hown : o.Own i w) (hnot : ¬ Extended w) (hd : 0 < period o.g) {sub : Subscription}
    (hsub : w.store.sub o.sub₀.id = some sub) {r : Except Err Unit} {core' : DB}
    (he : Store.exec (.saveSubscription (extension sub (period o.g) o.now)) w.store.core r core') :
    o.spec.Keeps i w (.act i (.core (.saveSubscription (extension sub (period o.g) o.now))) r w.store { w.store with core := core' }) := by
  by_cases hc : w.store.core.saveSubscription (extension sub (period o.g) o.now) = .ok ((), core')
  · obtain ⟨b, x, hb, hx, hrows⟩ := h.rows
    obtain rfl : x = false := by
      cases x with
      | false => rfl
      | true => exact absurd (hx.mp rfl) hnot
    refine h.commit ⟨b, true, ?_, ?_, hrows.save hd hsub hc⟩ fun _ => hown
    · exact hb.trans (renewed_after.trans (or_iff_right id)).symm
    · exact iff_of_true rfl (extended_after.mpr (.inl hc))
  · rcases Tx.store_cases he with rfl | ⟨_, hcommit⟩
    · exact h.quiet rfl id hc trivial (by rintro _ _ ⟨⟩) (by rintro _ _ ⟨⟩)
    · exact absurd hcommit hc

/-- The free period reports success of a committed save. -/
theorem safe_freePeriod (hown : o.Own i u) (hnot : ¬ Extended u) :
    Sf o i (fun a v => ∀ ref, a = Except.ok ref → Extended v) (core (Grant.applyFreePeriod o.g o.now)) u := by
  have fail : ∀ {e : Err} {v : W}, Sf o i (fun a v => ∀ ref : String, a = Except.ok ref → Extended v) (.ret (.error e)) v := by
    rintro e v _ _ _ _ ⟨⟩
  simp only [Grant.applyFreePeriod, Prog.send_bind, Prog.pure_eq]
  split_ifs
  · exact fail
  refine safe_core rfl fun v₁ r s₁ hv1 _ hh1 hx1 => ?_
  cases r with
  | error e => exact fail
  | ok fresh =>
  dsimp only
  split_ifs
  · exact fail
  · exact fail
  refine safe_core rfl fun v₂ r s₂ hv2 hread hh2 hx2 => ?_
  cases r with
  | error e => exact fail
  | ok sub =>
  dsimp only
  split
  · exact fail
  rename_i sub' hext
  obtain ⟨hd, -, rfl⟩ := Subscription.extendPeriod_ok hext
  rintro v ⟨hhist, hx⟩ hv r _ ⟨s', he, rfl⟩ ha
  have hown1 : o.Own i v₁ := hh1 _ hown
  have hown2 : o.Own i v₂ := hh2 _ (mem_cons_of_mem _ hown1)
  have hownv : o.Own i v := hhist _ (mem_cons_of_mem _ hown2)
  have hnotv : ¬ Extended v := by
    intro hv
    rcases extended_after.mp (hx (mem_cons_of_mem _ hown2) hv) with hv | hv
    · exact hv
    rcases extended_after.mp (hx2 (mem_cons_of_mem _ hown1) hv) with hv | hv
    · exact hv
    · exact hnot (hx1 hown hv)
  -- the row is the one that was read, and what was read is the subscription's row
  have hsub : v.store.sub o.sub₀.id = some sub := by
    obtain ⟨b, x, -, -, hrows⟩ := hv2.rows
    obtain ⟨row, hrow, hget, hid, -⟩ := hrows.find
    obtain rfl : sub = row := Except.ok.inj ((Read.of_ok hread).symm.trans hget)
    have hsame := ha.2 _ _ _ _ (hhist _ mem_cons_self)
    rw [hid] at hsame
    exact hsame.trans hrow
  refine ⟨hv.save hownv hnotv hd hsub he, ?_⟩
  cases r with
  | error e => exact fail
  | ok _ => exact fun v' hrely _ _ _ => ⟨_, hrely.1 _ mem_cons_self, Tx.of_ok he⟩

theorem verified : Verified (system o.OnceFresh) o.spec := by
  intro w i c hw hu ha
  have hk : o.spec.Keeps i w (.invoke i c) := hw.quiet rfl id id ha.1 (by rintro _ _ ⟨⟩) (by rintro _ _ ⟨⟩)
  refine ⟨hk, ?_⟩
  rcases ha.1.1 with rfl | rfl
  · exact safe_renewal
  have hnot : ¬ Extended (w.after (.invoke i o.freePeriod)) := by
    intro hx
    rcases extended_after.mp hx with hx | hx
    · exact hx
    · obtain ⟨j, hj⟩ := hw.owned hx
      exact ha.1.2 j hj
  refine (safe_freePeriod mem_cons_self hnot).mono fun a v hv hres _ => ?_
  exact hv.quiet rfl id id trivial (by rintro _ _ ⟨⟩) (by rintro _ ref ⟨⟩; exact hres ref rfl)

theorem inv_start : o.Inv ⟨o.s₀, []⟩ where
  rows := ⟨false, false, by simp [Renewed], by simp [Extended], rows_start⟩
  unique := (by rintro _ _ ⟨⟩)
  owned := by simp [Extended]
  renewed := (by rintro _ _ ⟨⟩)
  extended := (by rintro _ _ ⟨⟩)

theorem Renewed.run {M : System Req Resp BillingDB Call Res} {σ σ' : Cfg} (hs : Relation.ReflTransGen (Step M) σ σ')
    (h : Renewed σ.world) : Renewed σ'.world := by
  induction hs with
  | refl => exact h
  | tail _ hlast ih =>
    obtain ⟨e, he, hr⟩ := ih
    cases hlast <;> exact ⟨e, mem_cons_of_mem _ he, hr⟩

theorem start_reached {σ : Cfg} (hr : Reach (system o.OnceFresh) o.s₀ σ) {r : Subscription}
    (h : σ.world.store.sub o.sub₀.id = some r) :
    (Renewed σ.world ∧ r.currentPeriodStart = o.sub₀.currentPeriodEnd) ∨
      (¬ Renewed σ.world ∧ r.currentPeriodStart = o.sub₀.currentPeriodStart) := by
  obtain ⟨b, x, hb, -, hrows⟩ := (verified.inv inv_start hr).rows
  obtain ⟨r', hr', -, -, -, hst⟩ := hrows.find
  obtain rfl : r = r' := Option.some.inj (h.symm.trans hr')
  cases b with
  | false => exact .inr ⟨fun hR => Bool.noConfusion (hb.mpr hR), hst.starts⟩
  | true => exact .inl ⟨hb.mp rfl, hst.starts⟩

end Calls

/-! ## Runs of the two calls -/

/-- A subscription of the tenant that ends on the 31st of January, with a pending grant of one free day. -/
def sharedDB : BillingDB := ⟨dayDB 30, [], []⟩

def shared : Overlap where
  s₀ := sharedDB
  sub₀ := daySub 30
  price := 9900
  renewedAt := 0
  g := dayGrant
  now := 0
  ids := by decide
  active := rfl
  order := by decide
  startMicro := rfl
  endMicro := rfl

/-- The row after the renewal: its period runs from the 31st of January to the 3rd of March. -/
def renewedSub : Subscription := { daySub 30 with currentPeriodStart := 30 * Calendar.day, currentPeriodEnd := 61 * Calendar.day }

def extendedSub (sub : Subscription) : Subscription := { sub with currentPeriodEnd := sub.currentPeriodEnd + 24 * hour }

def once (w : W) : Ev → Bool
  | .invoke _ c => (c = shared.renewal ∨ c = shared.freePeriod) ∧ w.hist.all fun e => e.invoked ≠ some c
  | _ => true

theorem once_sound (w : W) (e : Ev) (h : once w e) : shared.Once w e := by
  cases e with
  | invoke i c =>
    obtain ⟨hc, hnew⟩ := of_decide_eq_true h
    exact ⟨hc, fun j hj => absurd rfl (of_decide_eq_true (all_eq_true.mp hnew _ hj))⟩
  | _ => trivial

def savesFresh (w : W) : Ev → Bool
  | .act _ (.core (.saveSubscription _)) _ pre _ => w.hist.all fun
    | .act _ (.core (.getSubscription _)) (.ok sub) pre' _ => pre.sub sub.id = pre'.sub sub.id
    | _ => true
  | _ => true

theorem onceFresh_sound (w : W) (e : Ev) (h : once w e && savesFresh w e) : shared.OnceFresh w e := by
  obtain ⟨honce, hfresh⟩ := Bool.and_eq_true_iff.mp h
  refine ⟨once_sound w e honce, ?_⟩
  unfold SavesFresh
  split
  · exact fun t sub pre' post' hm => of_decide_eq_true (all_eq_true.mp hfresh _ hm)
  · trivial

/-- The two calls, the free period up to its save and from there. -/
def renews : List (Turn Call) := [.invoke 0 shared.renewal, .move 0, .move 0]
def reads : List (Turn Call) := [.invoke 1 shared.freePeriod, .move 1, .move 1]
def saves : List (Turn Call) := [.move 1, .move 1]

/-- **No update is lost.**  If the save of the free period finds the row as it was read, then in every reachable state in which both calls
have reported success the period ends a month and the extension after its first end, and from any point of a run on the period never
starts earlier. -/
theorem no_update_lost {o : Overlap} {σ σ' : Cfg} (hr : Reach (system o.OnceFresh) o.s₀ σ)
    (hs : Relation.ReflTransGen (Step (system o.OnceFresh)) σ σ') :
    ∃ r r', σ.world.store.sub o.sub₀.id = some r ∧ σ'.world.store.sub o.sub₀.id = some r' ∧
      r.currentPeriodStart ≤ r'.currentPeriodStart ∧
      ((∃ i j res ref, .respond i o.renewal (Except.ok res) ∈ σ'.world.hist ∧ .respond j o.freePeriod (Except.ok ref) ∈ σ'.world.hist) →
        r'.currentPeriodEnd = timestamptz (nextMonth o.sub₀.currentPeriodEnd + period o.g)) := by
  obtain ⟨_, _, -, -, hrows⟩ := (verified.inv inv_start hr).rows
  obtain ⟨r, hsub, -⟩ := hrows.find
  have hinv := verified.inv inv_start (hr.trans hs)
  obtain ⟨b, x, hb, hx, hrows'⟩ := hinv.rows
  obtain ⟨r', hsub', -, -, -, hst⟩ := hrows'.find
  refine ⟨r, r', hsub, hsub', ?_, ?_⟩
  · have horder := o.order
    rcases start_reached hr hsub with ⟨hR, he⟩ | ⟨-, he⟩ <;> rcases start_reached (hr.trans hs) hsub' with ⟨-, he'⟩ | ⟨hR', he'⟩
    · rw [he, he']
    · exact absurd (hR.run hs) hR'
    · rw [he, he']
      exact horder.le
    · rw [he, he']
  · rintro ⟨i, j, res, ref, hi, hj⟩
    rw [hst.ends, hb.mpr (hinv.renewed i res hi), hx.mpr (hinv.extended j ref hj)]
    simp

theorem no_update_lost_day : ∃ σ : Cfg, Reach (system shared.OnceFresh) sharedDB σ ∧
    (∃ i j res ref, .respond i shared.renewal (Except.ok res) ∈ σ.world.hist ∧ .respond j shared.freePeriod (Except.ok ref) ∈ σ.world.hist) ∧
    ∃ r', σ.world.store.sub 3 = some r' ∧ r'.currentPeriodEnd = timestamptz (nextMonth (30 * Calendar.day) + period dayGrant) := by
  let σ : Cfg := (Conf.start sharedDB).play (system shared.OnceFresh) (serve [] 0 7) (renews ++ reads ++ saves)
  obtain ⟨hc, ⟨_, hi, res, -, rfl⟩, ⟨_, hj, ref, -, rfl⟩⟩ :
      (Conf.start sharedDB).checks (system shared.OnceFresh) (serve [] 0 7) (fun _ _ => true) (fun w e => once w e && savesFresh w e)
        (renews ++ reads ++ saves) = true ∧
      (∃ a ∈ σ.world.result 0 (.renewSubscription 3 (daySub 30).currentPeriodEnd 9900 0), ∃ res ∈ a.toOption, a = Except.ok res) ∧
      ∃ a ∈ σ.world.result 1 (.applyFreePeriod dayGrant 0), ∃ ref ∈ a.toOption, a = Except.ok ref := by decide +kernel
  have hr : Reach (system shared.OnceFresh) sharedDB σ := Reach.played (exec_serve (by decide)) onceFresh_sound _ hc
  have hboth : ∃ i j res ref, .respond i shared.renewal (Except.ok res) ∈ σ.world.hist ∧ .respond j shared.freePeriod (Except.ok ref) ∈ σ.world.hist :=
    ⟨0, 1, res, ref, World.mem_of_result hi, World.mem_of_result hj⟩
  obtain ⟨-, r', -, hr', -, hends⟩ := no_update_lost (o := shared) hr .refl
  exact ⟨σ, hr, hboth, r', hr', hends hboth⟩

/-- **A renewal overwritten.**  The free day reads the row and is overtaken by the renewal; its save then puts back the old start of the
period, and the month that was invoiced is gone from its end. -/
theorem renewal_overwritten : ∃ o : Overlap, ∃ σ σ' : Cfg, ∃ r r', Reach (system o.Once) o.s₀ σ ∧
    Relation.ReflTransGen (Step (system o.Once)) σ σ' ∧ 0 < period o.g ∧
    (∃ i j res ref, .respond i o.renewal (Except.ok res) ∈ σ'.world.hist ∧ .respond j o.freePeriod (Except.ok ref) ∈ σ'.world.hist) ∧
    σ.world.store.sub o.sub₀.id = some r ∧ σ'.world.store.sub o.sub₀.id = some r' ∧ σ'.world.store.invoices ≠ o.s₀.invoices ∧
    r'.currentPeriodStart < r.currentPeriodStart ∧ r'.currentPeriodEnd = o.sub₀.currentPeriodEnd + period o.g := by
  let σ : Cfg := (Conf.start sharedDB).play (system shared.Once) (serve [] 0 7) (reads ++ renews)
  let σ' : Cfg := σ.play (system shared.Once) (serve [] 0 7) saves
  obtain ⟨hc, hc', hpos, ⟨⟨_, hi, res, -, rfl⟩, _, hj, ref, -, rfl⟩, hrest⟩ :
      (Conf.start sharedDB).checks (system shared.Once) (serve [] 0 7) (fun _ _ => true) once (reads ++ renews) = true ∧
      σ.checks (system shared.Once) (serve [] 0 7) (fun _ _ => true) once saves = true ∧ 0 < period dayGrant ∧
      ((∃ a ∈ σ'.world.result 0 (.renewSubscription 3 (daySub 30).currentPeriodEnd 9900 0), ∃ res ∈ a.toOption, a = Except.ok res) ∧
        ∃ a ∈ σ'.world.result 1 (.applyFreePeriod dayGrant 0), ∃ ref ∈ a.toOption, a = Except.ok ref) ∧
      σ.world.store.sub 3 = some renewedSub ∧ σ'.world.store.sub 3 = some (extendedSub (daySub 30)) ∧ σ'.world.store.invoices ≠ [] ∧
      (extendedSub (daySub 30)).currentPeriodStart < renewedSub.currentPeriodStart ∧
      (extendedSub (daySub 30)).currentPeriodEnd = (daySub 30).currentPeriodEnd + period dayGrant := by decide +kernel
  exact ⟨shared, σ, σ', renewedSub, extendedSub (daySub 30), Reach.played (exec_serve (by decide)) once_sound _ hc,
    Conf.steps_play (fun q s _ => exec_serve (by decide) q s) once_sound _ _ hc', hpos,
    ⟨0, 1, res, ref, World.mem_of_result hi, World.mem_of_result hj⟩, hrest⟩

end Overlap

end Crm.Billing
