import Mathlib.Data.List.Find
import Crm.Store.Frame
import Crm.Store.Serve
import Crm.System

/-!
# Crm.Grant.Extension — how often a free period extends the subscription

`applyFreePeriod` re-reads the grant, reads the subscription, and saves it in three transactions.  The re-read does not
protect the save: two calls of `Apply` that both pass it extend the subscription one after the other
(`extended_twice`).  What is true is that every save extends what its own call has read, so that calls which all read
the subscription before the first save has landed move it once (`extended_at_most_once`).
-/

namespace Crm.Grant

open Int64Arith Interleave Crm.Store List Prog
open Crm.Billing (Subscription SubscriptionStatus)

def Only (P : Call → Prop) (_ : W) : Ev → Prop
  | .invoke _ c => P c
  | _ => True

def Extended (w : W) : Prop :=
  ∃ i sub r pre post, .act i (.saveSubscription sub) r pre post ∈ w.hist ∧ post.subs ≠ pre.subs

/-- The subscription is read before any `SaveSubscription` has landed. -/
def ReadsFirst (w : W) : Ev → Prop
  | .act _ (.getSubscription _) _ _ _ => ¬ Extended w
  | _ => True

/-- Calls of `Apply` on one grant, none of which reads the subscription after another has saved it. -/
def AppliesFirst (id : UUID) (w : W) (e : Ev) : Prop := Only (· = .applyGrant id) w e ∧ ReadsFirst w e

/-- The row `s` of a subscription, or that row with its end moved by `d`. -/
structure Moved (d : ℤ) (s s' : Subscription) : Prop where
  id : s'.id = s.id
  tenantID : s'.tenantID = s.tenantID
  status : s'.status = s.status
  ends : s'.currentPeriodEnd = s.currentPeriodEnd ∨ s'.currentPeriodEnd = timestamptz (s.currentPeriodEnd + d)

def period (g : MasterGrant) : ℤ := daysDuration (readInt64Payload g.payload "period_days")

section Once

variable {db : DB} {id : UUID} {g : MasterGrant} {i : ℕ} {α : Type} {Q : α → W → Prop} {u : W}

structure ExtInv (db : DB) (id : UUID) (d : ℤ) (w : W) : Prop where
  grant : ∀ r, w.store.findGrant id = some r → ∃ r₀, db.findGrant id = some r₀ ∧ SameGrant r₀ r
  fresh : ¬ Extended w → w.store.subs = db.subs
  moved : ∃ f, w.store.subs = db.subs.map f ∧ ∀ s ∈ db.subs, Moved d s (f s)

/-- Calls rely on nothing but the invariant: what they have read is kept in terms of the first tables. -/
def extSpec (db : DB) (id : UUID) (d : ℤ) : Spec Req Resp DB Call Res where
  inv := ExtInv db id d
  rely := fun _ _ _ => True
  refl := fun _ _ => trivial
  trans := fun _ _ _ _ _ _ => trivial

abbrev Se (db : DB) (id : UUID) (d : ℤ) (i : ℕ) (Q : α → W → Prop) (p : Client α) (w : W) : Prop :=
  Safe (system (AppliesFirst id)) (extSpec db id d) i Q p w

variable {w : W} {d : ℤ} {sub : Subscription} {now : Time}

theorem Extended.after {e : Ev} (h : Extended w) : Extended (w.after e) := by
  obtain ⟨j, sub, r, pre, post, hm, hne⟩ := h
  exact ⟨j, sub, r, pre, post, mem_cons_of_mem _ hm, hne⟩

theorem ExtInv.after {e : Ev} (h : ExtInv db id d w) (hs : (w.after e).store.subs = w.store.subs)
    (hg : ∀ r, (w.after e).store.findGrant id = some r → ∃ r₁, w.store.findGrant id = some r₁ ∧ SameGrant r₁ r) : ExtInv db id d (w.after e) where
  grant := by
    intro r hr
    obtain ⟨r₁, hr1, hs1⟩ := hg r hr
    obtain ⟨r₀, hr0, hs0⟩ := h.grant r₁ hr1
    exact ⟨r₀, hr0, hs0.trans hs1⟩
  fresh := fun hx => hs.trans (h.fresh fun hw => hx hw.after)
  moved := by
    rw [hs]
    exact h.moved

theorem safe_other {q : Req} {k : Resp q → Client α} (hs : q.writesSubs = false) (hg : q.writesGrants = false)
    (H : ∀ v r s', ExtInv db id d v → exec q v.store r s' → ReadsFirst v (.act i q r v.store s') →
      Se db id d i Q (k r) v) : Se db id d i Q (.ask q k) u := by
  intro v _ hv r s' he ha
  have hk : ExtInv db id d (v.after (.act i q r v.store s')) := by
    refine hv.after (exec_subs he hs) fun x hx => ⟨x, ?_, .refl x⟩
    rw [← hx]
    exact congrArg (List.find? _) (exec_grants he hg).symm
  exact ⟨⟨hk, fun _ _ => trivial⟩, (H v r s' hv he ha.2).rely trivial⟩

theorem ExtInv.read (h : ExtInv db id d w) (hg : db.getGrantByID id = .ok g) {g' : MasterGrant} (hr : w.store.getGrantByID id = .ok g') :
    period g' = period g := by
  obtain ⟨r, hf, hd⟩ := DB.getGrantByID_of_find hr
  obtain ⟨r₀, hf0, hs⟩ := h.grant r hf
  obtain ⟨r₁, hf1, hd1⟩ := DB.getGrantByID_of_find hg
  obtain rfl : r₀ = r₁ := Option.some.inj (hf0.symm.trans hf1)
  obtain ⟨-, -, -, hp, -⟩ := MasterGrantRow.decode_ok hd
  obtain ⟨-, -, -, hp1, -⟩ := MasterGrantRow.decode_ok hd1
  rw [hs.payload] at hp
  rw [period, period, Option.some.inj (hp.symm.trans hp1)]

theorem getSubscription_ok {s : DB} {t : UUID} (h : s.getSubscription t = .ok sub) :
    t ≠ UUID.Nil ∧ s.subs.find? (fun x => x.tenantID = t ∧ x.status = .active) = some sub := by
  unfold DB.getSubscription at h
  split_ifs at h with ht
  split at h
  · rename_i x hx
    cases h
    exact ⟨ht, hx⟩
  · cases h

def extension (sub : Subscription) (d : ℤ) (now : Time) : Subscription :=
  { sub with currentPeriodEnd := sub.currentPeriodEnd + d, updatedAt := now }

theorem ExtInv.save {r : Except Err Unit} {s' : DB} (hids : (db.subs.map Subscription.id).Nodup) (h : ExtInv db id d w) (hsub : sub ∈ db.subs)
    (he : exec (.saveSubscription (extension sub d now)) w.store r s') :
    ExtInv db id d (w.after (.act i (.saveSubscription (extension sub d now)) r w.store s')) := by
  obtain ⟨f, hf, hm⟩ := h.moved
  refine ⟨?_, ?_, ?_⟩
  · intro x hx
    exact h.grant x (by rw [← hx]; exact congrArg (List.find? _) (exec_grants he rfl).symm)
  · intro hx
    have hsame : s'.subs = w.store.subs := by
      by_contra hne
      exact hx ⟨i, _, r, w.store, s', mem_cons_self, hne⟩
    exact hsame.trans (h.fresh fun hw => hx hw.after)
  rcases Tx.store_cases he with rfl | ⟨a, ha⟩
  · exact ⟨f, hf, hm⟩
  obtain ⟨subs, rfl, hsubs⟩ := DB.saveSubscription_ok ha
  refine ⟨fun s => if (f s).id = sub.id then DB.overwriteSubscription (extension sub d now) (f s) else f s, ?_, ?_⟩
  · show subs = _
    rw [hsubs ⟨f sub, by rw [hf]; exact mem_map_of_mem hsub, (hm sub hsub).id⟩, hf, map_map]
    rfl
  intro s hs
  obtain ⟨hid, ht, hst, hend⟩ := hm s hs
  dsimp only
  split_ifs with heq
  · obtain rfl : s = sub := inj_on_of_nodup_map hids hs hsub (hid.symm.trans heq)
    exact ⟨hid, ht, rfl, .inr rfl⟩
  · exact ⟨hid, ht, hst, hend⟩

theorem safe_freePeriod (hids : (db.subs.map Subscription.id).Nodup) : Se db id (period g) i (fun _ _ => True) (applyFreePeriod g now) u := by
  simp only [applyFreePeriod, send_bind, pure_eq]
  split_ifs
  · exact .stop
  refine safe_other rfl rfl fun v₁ r _ _ _ _ => ?_
  cases r with
  | error e => exact .stop
  | ok fresh =>
  dsimp only
  split_ifs
  · exact .stop
  · exact .stop
  refine safe_other rfl rfl fun v₂ r _ hv2 he hfirst => ?_
  cases r with
  | error e => exact .stop
  | ok sub =>
  -- the subscription was read before any save had landed
  have hread := Read.of_ok he
  obtain ⟨-, hfind⟩ := getSubscription_ok hread
  rw [hv2.fresh hfirst] at hfind
  have hmem := mem_of_find?_eq_some hfind
  dsimp only
  split
  · exact .stop
  rename_i sub' hext
  obtain ⟨-, -, rfl⟩ := Subscription.extendPeriod_ok hext
  intro v _ hv r s' he _
  refine ⟨⟨hv.save hids hmem he, fun _ _ => trivial⟩, ?_⟩
  cases r <;> exact .stop

theorem safe_plain {p : Client α} (hp : p.Sends fun q => q.writesSubs = false ∧ q.writesGrants = false) :
    Se db id d i (fun _ _ => True) p u := by
  induction p generalizing u with
  | ret a => exact .stop
  | ask q k ih => exact fun v hv hi r s' he ha => safe_other (hp r).1.1 (hp r).1.2 (fun v r _ _ _ _ => ih r (hp r).2) v hv hi r s' he ha

theorem safe_applies (hids : (db.subs.map Subscription.id).Nodup) (hg : db.getGrantByID id = .ok g) :
    Se db id (period g) i (fun _ _ => True) (apply id) u := by
  simp only [apply, send_bind, pure_eq]
  split_ifs
  · exact .stop
  refine safe_other rfl rfl fun v₁ r _ hv1 he _ => ?_
  cases r with
  | error e => exact .stop
  | ok g' =>
  have hp := hv1.read hg (Read.of_ok he)
  dsimp only
  split_ifs
  · exact .stop
  intro v₂ _ hv2 now s' he ha
  obtain rfl : s' = v₂.store := he
  refine ⟨⟨hv2.after rfl fun r hr => ⟨r, hr, .refl r⟩, fun _ _ => trivial⟩, ?_⟩
  refine Safe.bind (R := fun _ _ => True) ?_ (hv2.after rfl fun r hr => ⟨r, hr, .refl r⟩) ?_
  · intro r w _ _
    cases r with
    | error e => exact .stop
    | ok ref =>
    intro v _ hv r s' he _
    have hsubs : s'.subs = v.store.subs := exec_subs (q := .consumeGrant id ref now) he rfl
    have hk : ExtInv db id (period g) (v.after (.act i (.consumeGrant id ref now) r v.store s')) := by
      refine hv.after hsubs fun x hx => ?_
      rcases Tx.store_cases he with rfl | ⟨a, ha⟩
      · exact ⟨x, hx, .refl x⟩
      · obtain ⟨x₁, hx1, -, -, hx2⟩ := DB.consumeGrant_find ha
        obtain rfl := Option.some.inj (hx2.symm.trans hx)
        exact ⟨x₁, hx1, rfl, rfl, rfl, rfl, rfl, rfl⟩
    refine ⟨⟨hk, fun _ _ => trivial⟩, ?_⟩
    cases r <;> exact .stop
  unfold sideEffect
  split
  · exact hp ▸ safe_freePeriod hids
  · exact safe_plain (sends_applyExtraTokens _ _)
  · exact .stop

theorem extVerified (hids : (db.subs.map Subscription.id).Nodup) (hg : db.getGrantByID id = .ok g) :
    Verified (system (AppliesFirst id)) (extSpec db id (period g)) := by
  intro w i c hw _ ha
  obtain rfl : c = .applyGrant id := ha.1
  have hk : ∀ {w : W} {e : Ev}, ExtInv db id (period g) w → e.storeAfter w.store = w.store →
      (extSpec db id (period g)).Keeps i w e := by
    intro w e hw he
    have hs : (w.after e).store = w.store := he
    exact ⟨hw.after (by rw [hs]) fun r hr => ⟨r, by rwa [hs] at hr, .refl r⟩, fun _ _ => trivial⟩
  exact ⟨hk hw rfl, (safe_applies hids hg).mono fun a v hv _ _ => hk hv rfl⟩

theorem extInv_start (d : ℤ) : ExtInv db id d ⟨db, []⟩ where
  grant := fun r hr => ⟨r, hr, .refl r⟩
  fresh := fun _ => rfl
  moved := ⟨fun s => s, by simp, fun _ _ => ⟨rfl, rfl, rfl, .inl rfl⟩⟩

end Once

/-! ## Two calls that pass the re-read -/

section Race

variable {id : UUID} {g : MasterGrant}

def lands : Ev → Bool
  | .act _ (.saveSubscription _) _ pre post => post.subs ≠ pre.subs
  | _ => false

theorem extended_iff {w : W} : Extended w ↔ w.hist.any lands = true := by
  rw [any_eq_true]
  constructor
  · rintro ⟨i, sub, r, pre, post, hm, hne⟩
    exact ⟨_, hm, decide_eq_true hne⟩
  rintro ⟨e, hm, he⟩
  cases e with
  | invoke i c | respond i c a => cases he
  | act i q r pre post =>
  cases q with
  | saveSubscription sub => exact ⟨i, sub, r, pre, post, hm, of_decide_eq_true he⟩
  | _ => cases he

def checkOnly (p : Call → Bool) : Ev → Bool
  | .invoke _ c => p c
  | _ => true

theorem only_of_check {P : Call → Prop} {p : Call → Bool} (hp : ∀ c, p c → P c) (w : W) (e : Ev) (h : checkOnly p e) : Only P w e := by
  cases e with
  | invoke i c => exact hp c h
  | _ => trivial

def checkFirst (id : UUID) (w : W) : Ev → Bool
  | .act _ (.getSubscription _) _ _ _ => !w.hist.any lands
  | e => checkOnly (· = .applyGrant id) e

theorem appliesFirst_of_check (w : W) (e : Ev) (h : checkFirst id w e) : AppliesFirst id w e := by
  cases e with
  | invoke i c => exact ⟨only_of_check (fun _ => of_decide_eq_true) w _ h, trivial⟩
  | respond i c a => exact ⟨trivial, trivial⟩
  | act i q r pre post =>
  refine ⟨trivial, ?_⟩
  cases q with
  | getSubscription t =>
    intro hx
    simp [checkFirst, extended_iff.mp hx] at h
  | _ => trivial

def dayRow : MasterGrantRow where
  id := 1
  externalID := "day"
  tenantID := 2
  kind := .freeSubscriptionPeriod
  payload := marshal [("period_days", .int 1)]
  reason := "one free day"
  createdByUserID := 9
  createdAt := 0
  consumedAt := none
  consumedRef := none
  revokedAt := none
  revokedByUserID := none
  revokeReason := none

def dayGrant : MasterGrant where
  id := 1
  externalID := "day"
  tenantID := 2
  kind := .freeSubscriptionPeriod
  payload := [("period_days", .float64 1)]
  reason := "one free day"
  createdByUserID := 9
  createdAt := 0
  consumedAt := none
  consumedRef := ""
  revokedAt := none
  revokedByUserID := none
  revokeReason := ""

def daySub (n : ℤ) : Subscription where
  id := 3
  tenantID := 2
  planID := 4
  status := .active
  currentPeriodStart := 0
  currentPeriodEnd := n * (24 * hour)
  createdAt := 0
  updatedAt := 0

def dayDB (n : ℤ) : DB := ⟨[], [], [], [dayRow], [daySub n]⟩

theorem dayRow_decode : dayRow.decode = .ok dayGrant := by
  have hone : InRange 1 := ⟨by decide, by decide⟩
  have hp : unmarshal [("period_days", .num (1 : ℤ))] = some [("period_days", .float64 (1 : ℤ))] :=
    unmarshal_int (Float64.exact_of_abs_lt (by decide)) hone
  rw [MasterGrantRow.decode, show dayRow.payload = [("period_days", .num (1 : ℤ))] from rfl, hp]
  rfl

theorem dayDB_getGrant (n : ℤ) : (dayDB n).getGrantByID 1 = .ok dayGrant := dayRow_decode

/-- **At most one extension.**  If no call of `Apply` reads the subscription after another one's save has landed, then in every
reachable state the tenant's subscription ends where it ended at first, or one period later. -/
theorem extended_at_most_once {db : DB} (hids : (db.subs.map Subscription.id).Nodup) (hg : db.getGrantByID id = .ok g) {σ : Cfg}
    (hr : Reach (system (AppliesFirst id)) db σ) {sub : Subscription} (hsub : db.getSubscription g.tenantID = .ok sub) :
    ∃ sub', σ.world.store.getSubscription g.tenantID = .ok sub' ∧ sub'.id = sub.id ∧
      (sub'.currentPeriodEnd = sub.currentPeriodEnd ∨
        sub'.currentPeriodEnd = timestamptz (sub.currentPeriodEnd + period g)) := by
  obtain ⟨f, hf, hm⟩ := ((extVerified hids hg).inv (extInv_start _) hr).moved
  obtain ⟨ht, hfind⟩ := getSubscription_ok hsub
  have hfind' : σ.world.store.subs.find? (fun x => x.tenantID = g.tenantID ∧ x.status = .active) = some (f sub) := by
    rw [hf, find?_map, find?_congr, hfind]
    · rfl
    · intro s hs
      simp [(hm s hs).tenantID, (hm s hs).status]
  refine ⟨f sub, ?_, (hm sub (mem_of_find?_eq_some hfind)).id, (hm sub (mem_of_find?_eq_some hfind)).ends⟩
  rw [DB.getSubscription, if_neg ht, hfind']

theorem extended_at_most_once_day : ∃ σ, Reach (system (AppliesFirst 1)) (dayDB 1) σ ∧ σ.world.store = dayDB 2 ∧
    ∃ sub', σ.world.store.getSubscription 2 = .ok sub' ∧ sub'.id = (daySub 1).id ∧
      (sub'.currentPeriodEnd = (daySub 1).currentPeriodEnd ∨
        sub'.currentPeriodEnd = timestamptz ((daySub 1).currentPeriodEnd + period dayGrant)) := by
  have hr := Reach.played (M := system (AppliesFirst 1)) (s := dayDB 1) (@exec_serve 0 9 "" (by decide)) appliesFirst_of_check
    [.invoke 0 (.applyGrant 1), .move 0, .move 0, .move 0, .move 0, .move 0] (by decide +kernel)
  exact ⟨_, hr, by decide +kernel, extended_at_most_once (by decide) (dayDB_getGrant 1) hr rfl⟩

/-- **Two extensions.**  One call of `Apply` passes the re-read of the pending grant and is overtaken by another that extends the
subscription; the first then reads the extended subscription and extends it again. -/
theorem extended_twice : ∃ db id g σ sub sub', (db.subs.map Subscription.id).Nodup ∧ db.getGrantByID id = .ok g ∧
    Reach (system (Only (· = .applyGrant id))) db σ ∧ db.getSubscription g.tenantID = .ok sub ∧
    σ.world.store.getSubscription g.tenantID = .ok sub' ∧ 0 < period g ∧
    sub'.currentPeriodEnd = sub.currentPeriodEnd + period g + period g := by
  -- call 0 passes the re-read, call 1 extends, and call 0 reads what it has saved
  have hr := Reach.played (M := system (Only (· = .applyGrant 1))) (s := dayDB 1) (@exec_serve 0 9 "" (by decide))
    (only_of_check (p := (· = .applyGrant 1)) fun _ => of_decide_eq_true)
    [.invoke 0 (.applyGrant 1), .move 0, .move 0, .move 0, .invoke 1 (.applyGrant 1), .move 1, .move 1, .move 1, .move 1, .move 1, .move 0, .move 0]
    (by decide +kernel)
  refine ⟨dayDB 1, 1, dayGrant, _, daySub 1, daySub 3, by decide, dayDB_getGrant 1, hr, rfl, ?_, ?_, ?_⟩
  · decide +kernel
  · decide +kernel
  · decide +kernel

end Race

end Crm.Grant
