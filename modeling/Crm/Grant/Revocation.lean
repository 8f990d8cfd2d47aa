import Crm.Grant.Extension

/-!
# Crm.Grant.Revocation — what a revoked grant has transferred

`Revoke` is refused for a consumed grant, but `consumed_at` is written after the side effect and in another transaction: a
revocation that lands between the two leaves a revoked grant whose tokens or days have been handed out
(`revoked_after_transfer`).  `revoked_transferred_nothing` is the part that holds: revocations that land while no
call of `Apply` holds a read of the grant, and not on top of a side effect that still waits for its `Consume`.
-/

namespace Crm.Grant

open Interleave Crm.Store List Prog
open Crm.Billing (Subscription SubscriptionStatus)

variable (id : UUID)

def HasRead (i : ℕ) (w : W) : Prop :=
  ∃ g pre post, .act i (.getGrantByID id) (.ok g) pre post ∈ w.hist

def Responded (i : ℕ) (w : W) : Prop := ∃ c, ∃ a : Res c, .respond i c a ∈ w.hist

def Revoked (s : DB) : Prop := ∃ r, s.findGrant id = some r ∧ r.revokedAt ≠ none

def Consumed (s : DB) : Prop := ∃ r, s.findGrant id = some r ∧ r.consumedAt ≠ none

/-- Tokens of the grant are in the ledger, or a subscription has been extended. -/
def Transferred (w : W) : Prop :=
  (∃ row ∈ w.store.ledger, row.masterGrantID = some id) ∨ Extended w

/-- `Revoke` runs while no call holds a read of the grant, and only on a consumed grant if something was transferred. -/
def RevokesApart (w : W) : Ev → Prop
  | .act _ (.revokeGrant _ _ _ _) _ _ _ =>
    (∀ j, HasRead id j w → Responded j w) ∧ (Transferred id w → Consumed id w.store)
  | _ => True

def OnGrant (c : Call) : Prop := c = .applyGrant id ∨ ∃ inp, c = .revokeGrant inp ∧ inp.grantID = id

def AppliesApart (w : W) (e : Ev) : Prop := Only (OnGrant id) w e ∧ RevokesApart id w e

section Apart

variable {id : UUID} {i : ℕ} {α : Type} {Q : α → W → Prop} {u v : W}

/-- What a call with a read of the grant may rely on: nobody revokes it. -/
structure Unrevoked (id : UUID) (i : ℕ) (u v : W) : Prop where
  hist : ∀ e ∈ u.hist, e ∈ v.hist
  silent : Responded i v → Responded i u
  kept : HasRead id i u → ¬ Responded i u → ¬ Revoked id u.store → ¬ Revoked id v.store

theorem HasRead.mono (h : HasRead id i u) (hh : ∀ e ∈ u.hist, e ∈ v.hist) : HasRead id i v := by
  obtain ⟨g, pre, post, hm⟩ := h
  exact ⟨g, pre, post, hh _ hm⟩

def revokeSpec (id : UUID) : Spec Req Resp DB Call Res where
  inv := fun w => Revoked id w.store → ¬ Transferred id w
  rely := Unrevoked id
  refl := fun _ _ => ⟨fun _ he => he, fun h => h, fun _ _ h => h⟩
  trans := fun _ _ _ _ h h' =>
    ⟨fun e he => h'.hist e (h.hist e he), fun hr => h.silent (h'.silent hr), fun hr hn hv =>
      h'.kept (hr.mono h.hist) (fun hx => hn (h.silent hx)) (h.kept hr hn hv)⟩

abbrev Sr (id : UUID) (i : ℕ) (Q : α → W → Prop) (p : Client α) (w : W) : Prop :=
  Safe (system (AppliesApart id)) (revokeSpec id) i Q p w

/-- Call `i` is running and has read a grant that is not revoked. -/
structure Pending (id : UUID) (i : ℕ) (w : W) : Prop where
  read : HasRead id i w
  running : ¬ Responded i w
  unrevoked : ¬ Revoked id w.store

theorem Pending.later (h : Pending id i u) (hl : Unrevoked id i u v) : Pending id i v :=
  ⟨h.read.mono hl.hist, fun hr => h.running (hl.silent hr), hl.kept h.read h.running h.unrevoked⟩

variable {q : Req} {r : Resp q} {s s' : DB} {now : Time} {k : Resp q → Client α}

theorem responded_act {j k : ℕ} (h : Responded j (v.after (.act k q r s s'))) : Responded j v := by
  obtain ⟨c, a, hm⟩ := h
  rcases mem_cons.mp hm with hm | hm
  · cases hm
  · exact ⟨c, a, hm⟩

/-- A request that revokes nothing keeps what the other calls rely on. -/
theorem unrevoked_act {j : ℕ} (hs : Revoked id s' → Revoked id v.store) : Unrevoked id j v (v.after (.act i q r v.store s')) :=
  ⟨fun _ he => mem_cons_of_mem _ he, responded_act, fun _ _ hn hx => hn (hs hx)⟩

theorem revoked_of_exec (he : exec q s r s') (hq : q.writesGrants = false) (h : Revoked id s') : Revoked id s := by
  obtain ⟨x, hx, hne⟩ := h
  exact ⟨x, by rw [← hx]; exact congrArg (List.find? _) (exec_grants he hq).symm, hne⟩

theorem revoked_of_consume {r : Except Err Unit} {ref : String} (he : exec (.consumeGrant id ref now) s r s') (h : Revoked id s') : Revoked id s := by
  rcases Tx.store_cases he with rfl | ⟨a, ha⟩
  · exact h
  obtain ⟨x, hx, hne⟩ := h
  obtain ⟨y, hy, hrev, -, hy'⟩ := DB.consumeGrant_find ha
  obtain rfl := Option.some.inj (hy'.symm.trans hx)
  exact absurd hrev hne

theorem safe_pending (hu : Pending id i u) (hq : ∀ s r s', exec q s r s' → Revoked id s' → Revoked id s)
    (H : ∀ v r, Pending id i v → Sr id i Q (k r) v) : Sr id i Q (.ask q k) u := by
  intro v huv _ r s' he _
  have hs : Revoked id s' → Revoked id v.store := hq _ _ _ he
  have hp := hu.later huv
  have hown : Unrevoked id i v (v.after (.act i q r v.store s')) := unrevoked_act hs
  exact ⟨⟨fun hr _ => hp.unrevoked (hs hr), fun _ _ => unrevoked_act hs⟩, H _ r (hp.later hown)⟩

theorem safe_sends {p : Client α} (hu : Pending id i u) (hp : p.Sends fun q => q.writesGrants = false) :
    Sr id i (fun _ w => Pending id i w) p u := by
  induction p generalizing u with
  | ret a => exact fun w hw _ => hu.later hw
  | ask q k ih => exact safe_pending hu (fun _ r _ he => revoked_of_exec he (hp r).1) fun v r hv => ih r hv (hp r).2

theorem safe_look (hg : q.writesGrants = false) (hs : q.writesSubs = false) (hl : q.writesLedger = false)
    (H : ∀ v r s', Unrevoked id i u v → exec q v.store r s' → Sr id i Q (k r) (v.after (.act i q r v.store s'))) : Sr id i Q (.ask q k) u := by
  intro v huv hv r s' he _
  have hrev : Revoked id s' → Revoked id v.store := revoked_of_exec he hg
  refine ⟨⟨fun hr => ?_, fun _ _ => unrevoked_act hrev⟩, H v r s' huv he⟩
  rintro (⟨row, hrow, hid⟩ | ⟨j, sub, x, pre, post, hm, hne⟩)
  · rw [World.after_act_store, (exec_regranted he hl).ledger] at hrow
    exact hv (hrev hr) (.inl ⟨row, hrow, hid⟩)
  rcases mem_cons.mp hm with hm | hm
  · cases hm
    cases hs
  · exact hv (hrev hr) (.inr ⟨j, sub, x, pre, post, hm, hne⟩)

theorem safe_apply_apart (hu : ¬ Responded i u) : Sr id i (fun _ _ => True) (apply id) u := by
  simp only [apply, send_bind, pure_eq]
  split_ifs
  · exact .stop
  refine safe_look rfl rfl rfl fun v r s' huv he => ?_
  cases r with
  | error e => exact .stop
  | ok g =>
  dsimp only
  split_ifs with hpend
  · exact .stop
  -- the row that was read is not revoked, and from here on nobody revokes it
  obtain ⟨x, hx, hd⟩ := DB.getGrantByID_of_find (Read.of_ok he)
  have hunrev : ¬ Revoked id v.store := by
    rintro ⟨y, hy, hne⟩
    obtain rfl := Option.some.inj (hy.symm.trans hx)
    rw [← (MasterGrantRow.decode_ok hd).2.2.2.2.2.2] at hne
    exact hpend (.inr (by simpa [MasterGrant.isRevoked, Option.isSome_iff_ne_none] using hne))
  obtain rfl : s' = v.store := he.1
  have h1 : Pending id i (v.after (.act i (.getGrantByID id) (.ok g) v.store v.store)) :=
    ⟨⟨g, _, _, mem_cons_self⟩, fun hr => hu (huv.silent (responded_act hr)), hunrev⟩
  intro v₂ h2 hv2 now s' he2 ha2
  obtain rfl : s' = v₂.store := he2
  have hclock : Pending id i (v₂.after (.act i .clock now v₂.store v₂.store)) := (h1.later h2).later (unrevoked_act fun h => h)
  have hinv : (revokeSpec id).inv (v₂.after (.act i .clock now v₂.store v₂.store)) := fun hr => absurd hr hclock.unrevoked
  refine ⟨⟨hinv, fun _ _ => unrevoked_act fun h => h⟩, ?_⟩
  refine Safe.bind (R := fun _ w => Pending id i w) ?_ hinv ?_
  · intro r w _ hw
    cases r with
    | error e => exact .stop
    | ok ref =>
    refine safe_pending hw (fun _ _ _ he => revoked_of_consume he) fun v r _ => ?_
    cases r <;> exact .stop
  · exact safe_sends hclock (sends_sideEffect g now)

theorem safe_revoke_apart {inp : RevokeGrantInput} (hid : inp.grantID = id) :
    Sr id i (fun _ _ => True) (revokeGrant inp) u := by
  simp only [revokeGrant, send_bind, pure_eq, hid]
  refine safe_look rfl rfl rfl fun v₁ now s' _ _ => ?_
  intro v _ hv r s' he ha
  obtain ⟨-, halone, hcon⟩ := ha
  refine ⟨⟨?_, fun j _ => ⟨fun _ h => mem_cons_of_mem _ h, responded_act, fun hread hrun _ => ?_⟩⟩, ?_⟩
  · intro hr htr
    have htr' : Transferred id v := by
      rcases htr with ⟨row, hrow, hmg⟩ | ⟨j, sub, x, pre, post, hm, hne⟩
      · rw [World.after_act_store, (exec_regranted (q := .revokeGrant id inp.actorUserID inp.reason now) he rfl).ledger] at hrow
        exact .inl ⟨row, hrow, hmg⟩
      · rcases mem_cons.mp hm with hm | hm
        · cases hm
        · exact .inr ⟨j, sub, x, pre, post, hm, hne⟩
    rcases Tx.store_cases he with rfl | ⟨a, ha⟩
    · exact hv hr htr'
    obtain ⟨y, hy, hne⟩ := hcon htr'
    obtain ⟨x, hx, -, hnone, -⟩ := DB.revokeGrant_find ha
    obtain rfl := Option.some.inj (hy.symm.trans hx)
    exact hne hnone
  · exact absurd (halone j hread) hrun
  cases r with
  | ok x => exact .stop
  | error e =>
  dsimp only
  split_ifs <;> exact .stop

theorem revokeVerified : Verified (system (AppliesApart id)) (revokeSpec id) := by
  intro w i c hw hfree ha
  have hsame : ∀ {w : W} {e : Ev}, e.storeAfter w.store = w.store → (∀ j q r s s', e ≠ .act j q r s s') →
      (Revoked id w.store → ¬ Transferred id w) → Revoked id (w.after e).store → ¬ Transferred id (w.after e) := by
    intro w e hst hne hw hr htr
    have hs : (w.after e).store = w.store := hst
    rw [hs] at hr
    refine hw hr (htr.imp ?_ ?_)
    · rw [hs]
      exact fun h => h
    rintro ⟨j, sub, x, pre, post, hm, hn⟩
    rcases mem_cons.mp hm with hm | hm
    · exact absurd hm.symm (hne _ _ _ _ _)
    · exact ⟨j, sub, x, pre, post, hm, hn⟩
  have hnot : ¬ Responded i (w.after (.invoke i c)) := by
    rintro ⟨c', a, hm⟩
    rcases mem_cons.mp hm with hm | hm
    · cases hm
    · exact hfree _ hm rfl
  refine ⟨⟨hsame rfl (by rintro _ _ _ _ _ ⟨⟩) hw, fun j _ => ⟨fun _ h => mem_cons_of_mem _ h, ?_, fun _ _ h => h⟩⟩, ?_⟩
  · rintro ⟨c', a, hm⟩
    rcases mem_cons.mp hm with hm | hm
    · cases hm
    · exact ⟨c', a, hm⟩
  have hbody : Sr id i (fun _ _ => True) (body c) (w.after (.invoke i c)) := by
    rcases ha.1 with rfl | ⟨inp, rfl, hid⟩
    · exact safe_apply_apart hnot
    · exact safe_revoke_apart hid
  refine hbody.mono fun a v hv _ _ => ⟨hsame rfl (by rintro _ _ _ _ _ ⟨⟩) hv, fun j hj => ⟨?_, ?_, fun _ _ h => h⟩⟩
  · exact fun _ h => mem_cons_of_mem _ h
  rintro ⟨c', a', hm⟩
  rcases mem_cons.mp hm with hm | hm
  · cases hm
    exact absurd rfl hj
  · exact ⟨c', a', hm⟩

/-! ## A revocation between the side effect and its mark -/

theorem revoked_of_find (h : (s.findGrant id).bind MasterGrantRow.revokedAt ≠ none) : Revoked id s := by
  cases hr : s.findGrant id with
  | none => exact absurd (by rw [hr]; rfl) h
  | some r => exact ⟨r, hr, by rwa [hr] at h⟩

def mistakeInput : RevokeGrantInput := ⟨9, 1, "granted by mistake"⟩

end Apart

end Crm.Grant
