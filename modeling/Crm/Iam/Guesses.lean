import Crm.Iam.Isolation

/-!
# Crm.Iam.Guesses — how many passwords are tried in one window

Wrong passwords for one account, from any number of calls.  The look-up of the lockout, the verification, the count and the lock are separate steps,
so every call that has seen no lockout goes on to a verification: `unbounded_guesses` lets any number of them do so at one instant.
-/

namespace Crm.Iam

open Interleave SlidingWindow List Prog

/-- The stores with the clock, which never goes back. -/
structure Timed where
  clock : Time
  db : LockDB

abbrev Ev : Type := Event Req Resp Timed Call fun _ => Except Err Session

abbrev W : Type := World Req Resp Timed Call fun _ => Except Err Session

variable (Δ : Deployment) (u : User)

/-- One request, answered at the instant that it leaves on the clock. -/
def timedExec (q : Req) (s : Timed) (r : Resp q) (s' : Timed) : Prop :=
  s.clock ≤ s'.clock ∧ ∃ E : Env, E.now = s'.clock ∧ (r, s'.db) = serve Δ E q s.db

def Wrong (c : Call) : Prop := ∀ b, Δ.verify u.passwordHash c.password ≠ .ok (true, b)

/-- Wrong passwords for the account of `u`, in runs whose events satisfy `P`. -/
def attack (P : W → Ev → Prop) : System Req Resp Timed Call fun _ => Except Err Session where
  exec := timedExec Δ
  body := body Δ
  allow := fun w e => (∀ i c, e = .invoke i c → c.user Δ = some u ∧ Wrong Δ u c) ∧ P w e

/-! ## What the history records -/

/-- The millisecond of a verification against the stored hash. -/
def tried : Ev → Option ℤ
  | .act _ (.verifyPassword _ _) _ _ post => some (unixMilli post.clock)
  | _ => none

/-- The millisecond of a failure that the limiter has counted. -/
def counted : Ev → Option ℤ
  | .act _ (.allow _ _ _) (.ok (true, _)) _ post => some (unixMilli post.clock)
  | _ => none

def tries (w : W) : List ℤ := w.hist.filterMap tried

def hits (w : W) : List ℤ := w.hist.filterMap counted

def isCheck : Ev → Bool
  | .act _ (.isLocked _ _) _ _ _ => true
  | _ => false

def isResponse : Ev → Bool
  | .respond _ _ _ => true
  | _ => false

/-- Whether the call has looked up the lockout, and whether it has responded. -/
def place (i : ℕ) (w : W) : Bool × Bool := ((w.own i).any isCheck, (w.own i).any isResponse)

/-- The call has looked up the lockout and has not responded. -/
def Inside (i : ℕ) (w : W) : Prop := place i w = (true, false)

/-- No call looks up the lockout while another one is inside. -/
def Serial (w : W) (e : Ev) : Prop := isCheck e = true → ∀ j, ¬ Inside j w

section Inside

variable {i j : ℕ} {v w : W} {e : Ev}

theorem own_after (w : W) (e : Ev) : (w.after e).own e.tid = e :: w.own e.tid := by simp [World.own]

theorem place_congr (h : w.own i = v.own i) : place i w = place i v := by rw [place, place, h]

theorem inside_congr (h : place i w = place i v) : Inside i w ↔ Inside i v := by rw [Inside, Inside, h]

theorem place_after (hc : isCheck e = false) (hr : isResponse e = false) (j : ℕ) : place j (v.after e) = place j v := by
  by_cases hj : e.tid = j
  · subst hj
    simp [place, own_after, hc, hr]
  · exact place_congr (World.own_after_of_ne hj)

theorem place_check (hc : isCheck e = true) (hr : isResponse e = false) : place e.tid (v.after e) = (true, (place e.tid v).2) := by
  simp [place, own_after, hc, hr]

theorem not_inside_response (hr : isResponse e = true) : ¬ Inside e.tid (v.after e) := by
  simp [Inside, place, own_after, hr]

end Inside

/-! ## The invariant -/

def span : ℤ := milliseconds (policyOf Δ u).lockout.duration

/-- Every verification of the window has been counted in it. -/
def Balanced (a : ℤ) (w : W) : Prop := within (span Δ u) a (tries w) ≤ within (span Δ u) a (hits w)

/-- The window is over, or the account is locked until it is. -/
def Closed (a : ℤ) (w : W) : Prop :=
  a + span Δ u ≤ unixMilli w.store.clock ∨ ∃ row, w.store.db.lockouts u.id = some row ∧ a + span Δ u ≤ unixMilli row.lockedUntil

structure Guard (w : W) : Prop where
  sole : ∀ i j, Inside i w → Inside j w → i = j
  epoch : zeroTime ≤ w.store.clock
  realm : ∀ row, w.store.db.lockouts u.id = some row → row.tenantID = u.tenantID
  covers : Covers (span Δ u) (unixMilli w.store.clock) (w.store.db.redis (failedLoginKey Δ u.email)) (hits w)
  capped : Capped (span Δ u) (policyOf Δ u).lockout.threshold (hits w)
  bound : ∀ a, within (span Δ u) a (tries w) ≤ within (span Δ u) a (hits w) + 1
  settled : (∀ i, ¬ Inside i w) → ∀ a, Balanced Δ u a w ∨ Closed Δ u a w

def view (w : W) : LockDB × List ℤ × List ℤ := (w.store.db, tries w, hits w)

/-- While a call is inside, the others only let time pass. -/
def guardSpec : Spec Req Resp Timed Call fun _ => Except Err Session where
  inv := Guard Δ u
  rely := fun i v w => w.own i = v.own i ∧ v.store.clock ≤ w.store.clock ∧ (Inside i v → view w = view v)
  refl := fun _ _ => ⟨rfl, le_rfl, fun _ => rfl⟩
  trans := fun _ _ _ _ h h' => ⟨h'.1.trans h.1, h.2.1.trans h'.2.1, fun hi => (h'.2.2 ((place_congr h.1).trans hi)).trans (h.2.2 hi)⟩

/-- Call `i` is inside, and every window is balanced or satisfies `φ`. -/
def Knows (i : ℕ) (φ : ℤ → W → Prop) (w : W) : Prop := Inside i w ∧ ∀ a, Balanced Δ u a w ∨ φ a w

/-- The fact outlives what passes while the call is inside. -/
def Stable (φ : ℤ → W → Prop) : Prop := ∀ a v w, view w = view v → v.store.clock ≤ w.store.clock → φ a v → φ a w

def Passed (a : ℤ) (w : W) : Prop := a + span Δ u ≤ unixMilli w.store.clock

def Begun (a : ℤ) (w : W) : Prop := a ≤ unixMilli w.store.clock

def BegunBy (now : Time) (a : ℤ) (_ : W) : Prop := a ≤ unixMilli now

section Facts

variable {Δ u} {i : ℕ} {v w : W} {φ : ℤ → W → Prop} {a : ℤ}

theorem stable_passed : Stable (Passed Δ u) := fun _ _ _ _ hc h => h.trans (unixMilli_mono hc)

theorem stable_begun : Stable Begun := fun _ _ _ _ hc h => h.trans (unixMilli_mono hc)

theorem stable_begunBy (now : Time) : Stable (BegunBy now) := fun _ _ _ _ _ h => h

theorem db_of_view (h : view w = view v) : w.store.db = v.store.db := congrArg Prod.fst h

theorem tries_of_view (h : view w = view v) : tries w = tries v := congrArg (fun x => x.2.1) h

theorem hits_of_view (h : view w = view v) : hits w = hits v := congrArg (fun x => x.2.2) h

theorem stable_closed : Stable (Closed Δ u) := by
  rintro a v w hv hc (h | h)
  · exact .inl (h.trans (unixMilli_mono hc))
  · exact .inr (by rwa [db_of_view hv])

theorem Balanced.congr (h : view w = view v) : Balanced Δ u a w ↔ Balanced Δ u a v := by
  rw [Balanced, Balanced, tries_of_view h, hits_of_view h]

theorem Knows.later (h : Knows Δ u i φ v) (hφ : Stable φ) (hi : Inside i w) (hv : view w = view v) (hc : v.store.clock ≤ w.store.clock) :
    Knows Δ u i φ w :=
  ⟨hi, fun a => (h.2 a).imp (Balanced.congr hv).mpr (hφ a v w hv hc)⟩

theorem Knows.rely (h : Knows Δ u i φ v) (hφ : Stable φ) (hr : (guardSpec Δ u).rely i v w) : Knows Δ u i φ w :=
  h.later hφ ((place_congr hr.1).trans h.1) (hr.2.2 h.1) hr.2.1

theorem Guard.of_view (hv : Guard Δ u v) (hview : view w = view v) (hc : v.store.clock ≤ w.store.clock)
    (hin : ∀ j, Inside j w ↔ Inside j v) : Guard Δ u w where
  sole := fun i j hi hj => hv.sole i j ((hin i).mp hi) ((hin j).mp hj)
  epoch := hv.epoch.trans hc
  realm := by rw [db_of_view hview]; exact hv.realm
  covers := by rw [db_of_view hview, hits_of_view hview]; exact hv.covers.later (unixMilli_mono hc)
  capped := by rw [hits_of_view hview]; exact hv.capped
  bound := by rw [tries_of_view hview, hits_of_view hview]; exact hv.bound
  settled := fun hn a =>
    (hv.settled (fun j hj => hn j ((hin j).mpr hj)) a).imp (Balanced.congr hview).mpr (stable_closed a v w hview hc)

variable {e : Ev}

theorem Guard.of_inside (hg : Guard Δ u v) (hi : Inside i v) (hcheck : isCheck e = false) (hres : isResponse e = false)
    (hc : v.store.clock ≤ (v.after e).store.clock) (hrealm : Homed u (v.after e).store.db)
    (hcovers : Covers (span Δ u) (unixMilli (v.after e).store.clock) ((v.after e).store.db.redis (failedLoginKey Δ u.email)) (hits (v.after e)))
    (hcapped : Capped (span Δ u) (policyOf Δ u).lockout.threshold (hits (v.after e)))
    (hbound : ∀ a, within (span Δ u) a (tries (v.after e)) ≤ within (span Δ u) a (hits (v.after e)) + 1) : Guard Δ u (v.after e) where
  sole := fun j k hj hk => hg.sole j k ((place_after hcheck hres j).symm.trans hj) ((place_after hcheck hres k).symm.trans hk)
  epoch := hg.epoch.trans hc
  realm := hrealm
  covers := hcovers
  capped := hcapped
  bound := hbound
  settled := fun hn => absurd ((place_after hcheck hres i).trans hi) (hn i)

/-- The first look-up of a call, with nobody inside. -/
theorem Guard.of_check (hg : Guard Δ u v) (hnone : ∀ j, ¬ Inside j v) (he : Inside e.tid (v.after e)) (hview : view (v.after e) = view v)
    (hc : v.store.clock ≤ (v.after e).store.clock) : Guard Δ u (v.after e) where
  sole := by
    have honly : ∀ j, Inside j (v.after e) → j = e.tid := by
      intro j hj
      by_contra hne
      exact hnone j ((place_congr (World.own_after_of_ne fun h => hne h.symm)).symm.trans hj)
    exact fun j k hj hk => (honly j hj).trans (honly k hk).symm
  epoch := hg.epoch.trans hc
  realm := by rw [db_of_view hview]; exact hg.realm
  covers := by rw [db_of_view hview, hits_of_view hview]; exact hg.covers.later (unixMilli_mono hc)
  capped := by rw [hits_of_view hview]; exact hg.capped
  bound := by rw [tries_of_view hview, hits_of_view hview]; exact hg.bound
  settled := fun hn => absurd he (hn e.tid)

theorem Guard.keeps_inside (hg : Guard Δ u v) (hi : Inside i v) (he : e.tid = i) (hc : v.store.clock ≤ (v.after e).store.clock)
    (hg' : Guard Δ u (v.after e)) : (guardSpec Δ u).Keeps i v e :=
  ⟨hg', fun j hj => ⟨World.own_after_of_ne fun h => hj (h.symm.trans he), hc, fun hjv => absurd (hg.sole j i hjv hi) hj⟩⟩

end Facts

/-! ## The steps of a login -/

/-- The call leaves every window settled, if it has been inside at all. -/
def Done (i : ℕ) (w : W) : Prop := ¬ Inside i w ∨ Knows Δ u i (Closed Δ u) w

def Quiet : Req → Bool
  | .isLocked _ _ => false
  | .lock _ _ _ _ => false
  | .clear _ _ => false
  | .allow _ _ _ => false
  | .verifyPassword _ _ => false
  | _ => true

abbrev Sf {α : Type} (i : ℕ) (Q : α → Prop) (p : Client α) (w : W) : Prop :=
  Safe (attack Δ u Serial) (guardSpec Δ u) i (fun a v => Done Δ u i v ∧ Q a) p w

section Steps

variable {Δ u} {i : ℕ} {α : Type} {Q : α → Prop} {w : W}

theorem Done.rely {v : W} (h : Done Δ u i w) (hr : (guardSpec Δ u).rely i w v) : Done Δ u i v :=
  h.imp (fun hn hi => hn ((place_congr hr.1).symm.trans hi)) fun hk => hk.rely stable_closed hr

theorem safe_ret {a : α} (h : Done Δ u i w) (ha : Q a) : Sf Δ u i Q (.ret a) w := fun _ hr _ => ⟨h.rely hr, ha⟩

theorem quiet_view {q : Req} {r : Resp q} {v : W} {s' : Timed} (hq : Quiet q = true) (he : timedExec Δ q v.store r s') :
    view (v.after (.act i q r v.store s')) = view v ∧ isCheck (.act i q r v.store s') = false := by
  obtain ⟨-, E, -, hs⟩ := he
  have hdb : s'.db = (serve Δ E q v.store.db).2 := congrArg Prod.snd hs
  cases q with
  | isLocked _ _ => cases hq
  | lock _ _ _ _ => cases hq
  | clear _ _ => cases hq
  | allow _ _ _ => cases hq
  | verifyPassword _ _ => cases hq
  | _ => exact ⟨Prod.ext hdb rfl, rfl⟩

theorem safe_quiet {K : W → Prop} {q : Req} {k : Resp q → Client α} (hq : Quiet q = true)
    (hK : ∀ v v', place i v' = place i v → (Inside i v → view v' = view v) → v.store.clock ≤ v'.store.clock → K v → K v') (h : K w)
    (H : ∀ v s r, Guard Δ u v → K v → timedExec Δ q s r v.store → Sf Δ u i Q (k r) v) : Sf Δ u i Q (.ask q k) w := by
  intro v hr hg r s' he _
  obtain ⟨hview, hcheck⟩ := quiet_view (i := i) hq he
  have hin := place_after (v := v) hcheck rfl
  have hg' := hg.of_view hview he.1 fun j => inside_congr (hin j)
  refine ⟨⟨hg', fun j hj => ⟨World.own_after_of_ne hj.symm, he.1, fun _ => hview⟩⟩, H _ v.store r hg' ?_ he⟩
  exact hK v _ (hin i) (fun _ => hview) he.1 (hK w v (place_congr hr.1) hr.2.2 hr.2.1 h)

def Outside (i : ℕ) (w : W) : Prop := place i w = (false, false)

theorem outside_kept (v v' : W) (hin : place i v' = place i v) (_ : Inside i v → view v' = view v) (_ : v.store.clock ≤ v'.store.clock)
    (h : Outside i v) : Outside i v' := hin.trans h

theorem knows_kept {φ : ℤ → W → Prop} (hφ : Stable φ) (v v' : W) (hin : place i v' = place i v) (hview : Inside i v → view v' = view v)
    (hc : v.store.clock ≤ v'.store.clock) (h : Knows Δ u i φ v) : Knows Δ u i φ v' :=
  h.later hφ (hin.trans h.1) (hview h.1) hc

/-- The look-up: nobody else is inside, so every window is settled. -/
theorem safe_isLocked {k : Except Err (Option Time) → Client α} (hout : Outside i w)
    (Hlocked : ∀ v lockedUntil, Knows Δ u i (Closed Δ u) v → Sf Δ u i Q (k (.ok (some lockedUntil))) v)
    (Hfree : ∀ v, Knows Δ u i (Passed Δ u) v → Sf Δ u i Q (k (.ok none)) v) :
    Sf Δ u i Q (.ask (.isLocked u.tenantID u.id) k) w := by
  rintro v hr hg r s' ⟨hc, E, hE, hs⟩ hallow
  have hnone : ∀ j, ¬ Inside j v := hallow.2 rfl
  obtain ⟨hans, hdb⟩ := Prod.mk.inj hs
  have hview : view (v.after (.act i (.isLocked u.tenantID u.id) r v.store s')) = view v := Prod.ext hdb rfl
  have hi : Inside i (v.after (.act i (.isLocked u.tenantID u.id) r v.store s')) := by
    have hplace : place i v = (false, false) := (place_congr hr.1).trans hout
    have hnew := place_check (v := v) (e := .act i (.isLocked u.tenantID u.id) r v.store s') rfl rfl
    rwa [Event.tid, hplace] at hnew
  have hsettled : Knows Δ u i (Closed Δ u) (v.after (.act i (.isLocked u.tenantID u.id) r v.store s')) :=
    ⟨hi, fun a => (hg.settled hnone a).imp (Balanced.congr hview).mpr (stable_closed a v _ hview hc)⟩
  refine ⟨⟨hg.of_check hnone hi hview hc, fun j hj => ⟨World.own_after_of_ne hj.symm, hc, fun _ => hview⟩⟩, ?_⟩
  cases hlock : v.store.db.isLocked u.tenantID u.id E.now with
  | some lockedUntil =>
    obtain rfl : r = .ok (some lockedUntil) := by rw [hans, hlock]
    exact Hlocked _ lockedUntil hsettled
  | none =>
  obtain rfl : r = .ok none := by rw [hans, hlock]
  -- a lockout that was in force through the window has expired, and the window with it
  refine Hfree _ ⟨hi, fun a => (hsettled.2 a).imp_right ?_⟩
  rintro (hover | ⟨row, hrow, hover⟩)
  · exact hover
  have hrow' : v.store.db.lockouts u.id = some row := hdb ▸ hrow
  rw [LockDB.isLocked_eq hrow' (hg.realm row hrow'), hE] at hlock
  have htime : row.lockedUntil ≤ s'.clock := not_lt.mp fun hlt => by simp [hlt] at hlock
  exact hover.trans (unixMilli_mono htime)

theorem safe_verifyPassword {encoded password : String} {k : Except Err (Bool × Bool) → Client α} (hspan : 0 ≤ span Δ u)
    (h : Knows Δ u i (Passed Δ u) w) (H : ∀ v, Guard Δ u v → Knows Δ u i Begun v → Sf Δ u i Q (k (Δ.verify encoded password)) v) :
    Sf Δ u i Q (.ask (.verifyPassword encoded password) k) w := by
  rintro v hr hg r s' ⟨hc, E, hE, hs⟩ -
  obtain ⟨rfl, hdb⟩ := Prod.mk.inj hs
  have hk := h.rely stable_passed hr
  have hms := unixMilli_mono hc
  have htries : ∀ a, within (span Δ u) a (tries (v.after (.act i (.verifyPassword encoded password) (Δ.verify encoded password) v.store s'))) =
      within (span Δ u) a (tries v) + if a ≤ unixMilli s'.clock ∧ unixMilli s'.clock < a + span Δ u then 1 else 0 :=
    fun a => within_cons a _ _
  have hknow : Knows Δ u i Begun (v.after (.act i (.verifyPassword encoded password) (Δ.verify encoded password) v.store s')) := by
    refine ⟨(place_after rfl rfl i).trans hk.1, fun a => ?_⟩
    by_cases ha : a ≤ unixMilli s'.clock
    · exact .inr ha
    rcases hk.2 a with hbal | hpass
    · refine .inl ?_
      rw [Balanced, htries, if_neg fun h => ha h.1]
      exact hbal
    · exact absurd (by unfold Passed at hpass; omega) ha
  have hcov := hg.covers.later hms
  rw [← hdb] at hcov
  have hg' : Guard Δ u (v.after (.act i (.verifyPassword encoded password) (Δ.verify encoded password) v.store s')) := by
    refine hg.of_inside hk.1 rfl rfl hc (hdb ▸ hg.realm) hcov hg.capped fun a => ?_
    have hhits : hits (v.after (.act i (.verifyPassword encoded password) (Δ.verify encoded password) v.store s')) = hits v := rfl
    rw [htries, hhits]
    rcases hk.2 a with hbal | hpass
    · have hbal' : within (span Δ u) a (tries v) ≤ within (span Δ u) a (hits v) := hbal
      split_ifs <;> omega
    · rw [if_neg fun hin => absurd hin.2 (not_lt.mpr (hpass.trans hms))]
      exact hg.bound a
  exact ⟨hg.keeps_inside hk.1 rfl hc hg', H _ hg' hknow⟩

/-- The count.  A failure that is counted settles the windows that have begun. -/
theorem safe_allow {k : Except Err (Bool × ℤ) → Client α} {key : String} (hkey : key = failedLoginKey Δ u.email)
    (henabled : (policyOf Δ u).lockoutEnabled = true) (h : Knows Δ u i Begun w)
    (Hin : ∀ v wait, Knows Δ u i (Closed Δ u) v → Sf Δ u i Q (k (.ok (true, wait))) v)
    (Hout : ∀ v wait, Knows Δ u i Begun v → Sf Δ u i Q (k (.ok (false, wait))) v) :
    Sf Δ u i Q (.ask (.allow key (policyOf Δ u).lockout.duration (policyOf Δ u).lockout.threshold) k) w := by
  subst hkey
  rintro v hr hg r s' ⟨hc, E, hE, hs⟩ -
  obtain ⟨hn, hd⟩ := of_decide_eq_true henabled
  have hk := h.rely stable_begun hr
  have hms := unixMilli_mono hc
  obtain ⟨allowed, wait, R', hallow, hcov, hcap⟩ := Redis.allow_log (failedLoginKey_ne_empty Δ u.email) hd hn hg.covers hg.capped hms
  simp only [serve, hE, hallow] at hs
  obtain ⟨rfl, hdb⟩ := Prod.mk.inj hs
  have hrealm : Homed u s'.db := by
    rw [hdb]
    exact hg.realm
  have hred : s'.db.redis = R' := by rw [hdb]
  rw [← hred] at hcov
  cases allowed with
  | false =>
    refine ⟨hg.keeps_inside hk.1 rfl hc (hg.of_inside hk.1 rfl rfl hc hrealm hcov hcap hg.bound), Hout _ wait ?_⟩
    exact ⟨(place_after rfl rfl i).trans hk.1, fun a => (hk.2 a).imp_right fun hb => hb.trans hms⟩
  | true =>
  -- the count is in every window of this instant; the others are as they were, or over
  have hhits : ∀ a, within (span Δ u) a (unixMilli s'.clock :: hits v) =
      within (span Δ u) a (hits v) + if a ≤ unixMilli s'.clock ∧ unixMilli s'.clock < a + span Δ u then 1 else 0 :=
    fun a => within_cons a _ _
  have hbound : ∀ a, within (span Δ u) a (tries v) ≤ within (span Δ u) a (unixMilli s'.clock :: hits v) + 1 := by
    intro a
    have hold := hg.bound a
    rw [hhits]
    omega
  refine ⟨hg.keeps_inside hk.1 rfl hc (hg.of_inside hk.1 rfl rfl hc hrealm hcov hcap hbound), Hin _ wait ?_⟩
  refine ⟨(place_after rfl rfl i).trans hk.1, fun a => ?_⟩
  by_cases ha : a ≤ unixMilli s'.clock ∧ unixMilli s'.clock < a + span Δ u
  · refine .inl ?_
    have hnew := hhits a
    rw [if_pos ha] at hnew
    exact (hg.bound a).trans_eq hnew.symm
  rcases hk.2 a with hbal | hbegun
  · refine .inl ?_
    have hnew := hhits a
    rw [if_neg ha] at hnew
    exact Nat.le_trans hbal hnew.symm.le
  · exact .inr (.inl (not_lt.mp fun hlt => ha ⟨hbegun.trans hms, hlt⟩))

theorem safe_lockClock {k : Time → Client α} (h : Knows Δ u i Begun w)
    (H : ∀ v now, zeroTime ≤ now → Knows Δ u i (BegunBy now) v → Sf Δ u i Q (k now) v) : Sf Δ u i Q (.ask .clock k) w := by
  rintro v hr hg r s' ⟨hc, E, hE, hs⟩ -
  obtain ⟨rfl, hdb⟩ := Prod.mk.inj hs
  have hk := h.rely stable_begun hr
  have hview : view (v.after (.act i .clock E.now v.store s')) = view v := Prod.ext hdb rfl
  refine ⟨⟨hg.of_view hview hc fun j => inside_congr (place_after rfl rfl j), fun j hj => ⟨World.own_after_of_ne hj.symm, hc, fun _ => hview⟩⟩, H _ E.now ?_ ?_⟩
  · rw [hE]
    exact hg.epoch.trans hc
  · refine ⟨(place_after rfl rfl i).trans hk.1, fun a => (hk.2 a).imp (Balanced.congr hview).mpr fun hb => ?_⟩
    rw [hE]
    exact hb.trans (unixMilli_mono hc)

theorem safe_lock {k : Except Err Unit → Client α} {now : Time} {reason : String} (hid : u.id ≠ UUID.Nil)
    (henabled : (policyOf Δ u).lockoutEnabled = true) (h : Knows Δ u i (BegunBy now) w) (hnow : zeroTime ≤ now)
    (H : ∀ v, Knows Δ u i (Closed Δ u) v → Sf Δ u i Q (k (.ok ())) v) :
    Sf Δ u i Q (.ask (.lock u.tenantID u.id (now + (policyOf Δ u).lockout.duration) reason) k) w := by
  rintro v hr hg r s' ⟨hc, E, hE, hs⟩ -
  obtain ⟨-, hd⟩ := of_decide_eq_true henabled
  have hk := h.rely (stable_begunBy now) hr
  have hz : now + (policyOf Δ u).lockout.duration ≠ zeroTime :=
    ne_of_gt (lt_of_le_of_lt hnow (Int.lt_add_of_pos_right now hd))
  obtain ⟨row, hscope, huntil, hlock⟩ := LockDB.lock_eq reason hid hz hg.realm
  simp only [serve, hlock] at hs
  obtain ⟨rfl, hdb⟩ := Prod.mk.inj hs
  have hlockouts : s'.db.lockouts u.id = some row := by
    rw [hdb]
    exact Function.update_self ..
  have hrealm : Homed u s'.db := by
    intro row' hrow'
    rw [hlockouts] at hrow'
    cases hrow'
    exact hscope
  have hcov := hg.covers.later (unixMilli_mono hc)
  have hred : s'.db.redis = v.store.db.redis := by rw [hdb]
  rw [← hred] at hcov
  refine ⟨hg.keeps_inside hk.1 rfl hc (hg.of_inside hk.1 rfl rfl hc hrealm hcov hg.capped hg.bound), H _ ?_⟩
  refine ⟨(place_after rfl rfl i).trans hk.1, fun a => (hk.2 a).imp_right fun hb => .inr ⟨row, hlockouts, ?_⟩⟩
  have hdead := unixMilli_deadline hd.le now
  rw [huntil]
  exact (Int.add_le_add_right hb _).trans hdead

/-! ## The calls -/

theorem safe_recordLoginFailure {S : Service} {tenantID : UUID} {email : String} {req : RequestInfo} (hid : u.id ≠ UUID.Nil)
    (henabled : (policyOf Δ u).lockoutEnabled = true) (hS : Serves Δ u S) (hkey : failedLoginKey Δ email = failedLoginKey Δ u.email) (h : Knows Δ u i Begun w) :
    Sf Δ u i (fun _ => True) (recordLoginFailure Δ S tenantID u.id email req) w := by
  obtain ⟨lockouts, limiter, policy, alerter, masterUsers, rehash, ttl⟩ := S
  obtain ⟨(rfl : limiter = true), (rfl : policy = policyOf Δ u), (rfl : lockouts = some u.tenantID)⟩ := hS
  simp only [recordLoginFailure, send_bind, pure_eq, henabled]
  rw [if_neg (by simp)]
  refine safe_allow hkey henabled h ?_ ?_
  · exact fun v _ hv => safe_ret (.inr hv) trivial
  intro v _ hv
  refine safe_lockClock hv fun v now hnow hv => safe_lock hid henabled hv hnow fun v hv => ?_
  dsimp only
  split
  · exact safe_quiet rfl (knows_kept stable_closed) hv fun v _ _ _ hv _ => safe_ret (.inr hv) trivial
  · exact safe_ret (.inr hv) trivial

theorem safe_checkPassword {S : Service} {precheck : String} {tenantID : UUID} {email password : String} {req : RequestInfo}
    (hid : u.id ≠ UUID.Nil) (henabled : (policyOf Δ u).lockoutEnabled = true) (hS : Serves Δ u S)
    (hkey : failedLoginKey Δ email = failedLoginKey Δ u.email) (hwrong : ∀ b, Δ.verify u.passwordHash password ≠ .ok (true, b))
    (h : Outside i w) :
    Sf Δ u i (fun a => ∃ e, a = .error e) (checkPassword Δ S precheck tenantID u.id u.passwordHash email password req) w := by
  simp only [checkPassword, isLocked, hS.scope, send_bind, pure_eq]
  have hspan : 0 ≤ span Δ u := Int.tdiv_nonneg (of_decide_eq_true henabled).2.le (by decide)
  refine safe_isLocked h (fun v lockedUntil hv => ?_) fun v hv => ?_
  · exact safe_quiet rfl (knows_kept stable_closed) hv fun v _ _ _ hv _ => safe_ret (.inr hv) ⟨_, rfl⟩
  refine safe_verifyPassword hspan hv fun v hg hv => ?_
  -- the failure is recorded whether the verifier answers no or fails
  have hfail : Sf Δ u i (fun a => ∃ e, a = .error e)
      (recordLoginFailure Δ S tenantID u.id email req >>= fun locked => .ret (.error (rejection locked) : Except Err Bool)) v :=
    Safe.bind (fun a v _ hd => safe_ret hd.1 ⟨_, rfl⟩) hg (safe_recordLoginFailure hid henabled hS hkey hv)
  rcases hver : Δ.verify u.passwordHash password with e | ⟨_ | _, needsRehash⟩
  · exact hfail
  · exact hfail
  · exact absurd hver (hwrong needsRehash)

variable {c : Call}

/-- A call with a wrong password for the account leaves every window settled. -/
theorem safe_body (henabled : (policyOf Δ u).lockoutEnabled = true) (hc : c.user Δ = some u) (hwrong : Wrong Δ u c) (h : Outside i w) :
    Sf Δ u i (fun _ => True) (body Δ c) w := by
  have hkey := Call.user_key hc
  have hout : ∀ {v : W}, Outside i v → Done Δ u i v := fun hv => .inl fun hi => by rw [Inside, hv] at hi; cases hi
  have hrealm := (Call.user_realm hc).2
  cases c with
  | login host email password req =>
    cases hhost : Δ.hosts host with
    | error e =>
      rw [Call.user, hhost] at hc
      cases hc
    | ok tenantID =>
    rw [Call.user, hhost] at hc
    rw [Call.realm, hhost] at hrealm
    have htenant : u.tenantID = some tenantID := (Option.some.inj hrealm).symm
    have hpolicy : (tenantService Δ tenantID).loginPolicy = policyOf Δ u := by rw [policyOf, htenant]; rfl
    simp only [body, iamAdapterLogin, login, send_bind, pure_eq]
    refine safe_quiet rfl outside_kept h fun v s r _ hv he => ?_
    obtain ⟨-, E, -, hs⟩ := he
    obtain rfl : r = .ok tenantID := (congrArg Prod.fst hs).trans hhost
    dsimp only
    split
    · exact safe_ret (hout hv) trivial
    refine safe_quiet rfl outside_kept hv fun v s r _ hv he => ?_
    obtain ⟨-, E, -, hs⟩ := he
    obtain rfl : r = .ok tenantID := (congrArg Prod.fst hs).trans hhost
    refine safe_quiet rfl outside_kept hv fun v s r hg hv he => ?_
    obtain ⟨-, E, -, hs⟩ := he
    have hfind : findUser Δ tenantID email = some u := hc
    obtain rfl : r = .ok (u.id, u.passwordHash) :=
      (congrArg Prod.fst hs).trans (congrArg (fun o => Except.ok (credentials o)) hfind)
    dsimp only
    split_ifs with hid
    · exact safe_quiet rfl outside_kept hv fun v _ _ _ hv _ => safe_ret (hout hv) trivial
    refine Safe.bind ?_ hg (safe_checkPassword hid henabled ⟨rfl, hpolicy, congrArg some htenant.symm⟩ hkey hwrong hv)
    rintro _ v - ⟨hd, e, rfl⟩
    exact safe_ret hd trivial
  | masterLogin email password req =>
  have htenant : u.tenantID = none := (Option.some.inj hrealm).symm
  have hpolicy : (masterService Δ).loginPolicy = policyOf Δ u := by rw [policyOf, htenant]; rfl
  simp only [body, masterLogin, send_bind, pure_eq]
  rw [if_neg (by simp [masterService])]
  refine safe_quiet rfl outside_kept h fun v s r hg hv he => ?_
  obtain ⟨-, E, -, hs⟩ := he
  have hfind : findMaster Δ email = some u := hc
  obtain rfl : r = .ok (u.id, u.passwordHash) := (congrArg Prod.fst hs).trans (congrArg (fun o => Except.ok (credentials o)) hfind)
  dsimp only
  split_ifs with hid
  · exact safe_quiet rfl outside_kept hv fun v _ _ _ hv _ => safe_ret (hout hv) trivial
  refine Safe.bind ?_ hg (safe_checkPassword hid henabled ⟨rfl, hpolicy, congrArg some htenant.symm⟩ hkey hwrong hv)
  rintro _ v - ⟨hd, e, rfl⟩
  exact safe_ret hd trivial

theorem Guard.start {s : Timed} (hclock : zeroTime ≤ s.clock)
    (hrealm : Homed u s.db) (hn : 0 ≤ (policyOf Δ u).lockout.threshold) :
    Guard Δ u ⟨s, []⟩ where
  sole := fun i j hi _ => by cases hi
  epoch := hclock
  realm := hrealm
  covers := Covers.nil
  capped := fun _ => hn
  bound := fun _ => Nat.zero_le _
  settled := fun _ _ => .inl le_rfl

theorem keeps_invoke (hg : Guard Δ u w) : (guardSpec Δ u).Keeps i w (.invoke i c) :=
  ⟨hg.of_view rfl le_rfl fun j => inside_congr (place_after rfl rfl j), fun _ hj => ⟨World.own_after_of_ne hj.symm, le_rfl, fun _ => rfl⟩⟩

theorem keeps_respond {a : Except Err Session} (hg : Guard Δ u w) (h : Done Δ u i w) : (guardSpec Δ u).Keeps i w (.respond i c a) := by
  have hgone : ¬ Inside i (w.after (.respond i c a)) := not_inside_response (v := w) (e := .respond i c a) rfl
  have hother : ∀ j, j ≠ i → (Inside j (w.after (.respond i c a)) ↔ Inside j w) := fun j hj =>
    inside_congr (place_congr (World.own_after_of_ne hj.symm))
  refine ⟨?_, fun _ hj => ⟨World.own_after_of_ne hj.symm, le_rfl, fun _ => rfl⟩⟩
  rcases h with hout | hknow
  · refine hg.of_view rfl le_rfl fun j => ?_
    by_cases hj : j = i
    · subst hj
      exact ⟨fun h => absurd h hgone, fun h => absurd h hout⟩
    · exact hother j hj
  have hnone : ∀ j, ¬ Inside j (w.after (.respond i c a)) := by
    intro j hin
    by_cases hj : j = i
    · exact hgone (hj ▸ hin)
    · exact hj (hg.sole j i ((hother j hj).mp hin) hknow.1)
  exact {
    sole := fun j _ hin _ => absurd hin (hnone j)
    epoch := hg.epoch
    realm := hg.realm
    covers := hg.covers
    capped := hg.capped
    bound := hg.bound
    settled := fun _ => hknow.2 }

theorem verified_attack (henabled : (policyOf Δ u).lockoutEnabled = true) : Verified (attack Δ u Serial) (guardSpec Δ u) := by
  intro w i c hg hunused ha
  obtain ⟨hc, hwrong⟩ := ha.1 i c rfl
  have hout : Outside i (w.after (.invoke i c)) := by
    have hown : w.own i = [] := filter_eq_nil_iff.mpr fun e he => by simpa using hunused e he
    refine (place_after rfl rfl i).trans ?_
    rw [place, hown]
    rfl
  refine ⟨keeps_invoke hg, Safe.mono ?_ (safe_body henabled hc hwrong hout)⟩
  exact fun a v hv hd _ => keeps_respond hv hd.1

end Steps

/-! ## The bound -/

/-- A verification against the stored hash at an instant from `start` to before `start + d`. -/
def verifies (start d : Time) : Ev → Bool
  | .act _ (.verifyPassword _ _) _ _ post => start ≤ post.clock ∧ post.clock < start + d
  | _ => false

def verifications (start d : Time) (w : W) : ℕ := w.hist.countP (verifies start d)

/-- In whole milliseconds the limiter sees the window as it is. -/
theorem verifications_eq {start d : Time} (hstart : (1000000 : ℤ) ∣ start) (hd : (1000000 : ℤ) ∣ d) (hpos : 0 ≤ d) (w : W) :
    verifications start d w = within (milliseconds d) (unixMilli start) (tries w) := by
  rw [within, tries, countP_filterMap]
  refine countP_congr fun e _ => ?_
  cases e with
  | act i q r pre post =>
    cases q with
    | verifyPassword encoded password =>
      simp only [verifies, tried, Option.map_some, Option.getD_some, decide_eq_true_eq]
      exact unixMilli_window hstart hd hpos
    | _ => rfl
  | invoke i c => rfl
  | respond i c a => rfl

def ana : User := ⟨12, some 2, "ana@x.com", "hidden", .tenantCommon, false, false⟩

def anaGuess : Call := wrongPassword "b" "ana@x.com"

variable {P : W → Ev → Prop}

/-- A request that changes nothing, at the first instant. -/
theorem step_at_start {w : W} {i : ℕ} {α : Type} {q : Req} {k : Resp q → Client α} {Q : W → Prop} (hw : w.store = ⟨0, emptyDB⟩)
    (hs : (serve twoTenants (atStart anaGuess).1 q emptyDB).2 = emptyDB)
    (hP : P w (.act i q (serve twoTenants (atStart anaGuess).1 q emptyDB).1 w.store ⟨0, emptyDB⟩))
    (h : ∃ p' w', Solo (attack twoTenants ana P) i (k (serve twoTenants (atStart anaGuess).1 q emptyDB).1)
      (w.after (.act i q (serve twoTenants (atStart anaGuess).1 q emptyDB).1 w.store ⟨0, emptyDB⟩)) p' w' ∧ Q w') :
    ∃ p' w', Solo (attack twoTenants ana P) i (.ask q k) w p' w' ∧ Q w' := by
  obtain ⟨p', w', hsolo, hQ⟩ := h
  refine ⟨p', w', .ask _ ⟨0, emptyDB⟩ ?_ ⟨by rintro _ _ ⟨⟩, hP⟩ hsolo, hQ⟩
  rw [hw]
  exact ⟨le_rfl, (atStart anaGuess).1, rfl, Prod.ext rfl hs.symm⟩

/-- A wrong password can be brought as far as its verification at the first instant, as long as nothing has been counted. -/
theorem guess_once {w : W} {i : ℕ} (hw : w.store = ⟨0, emptyDB⟩)
    (hP : ∀ v e, (isCheck e = true → ∀ e' ∈ v.hist, isCheck e' = true → e' ∈ w.hist) → P v e) :
    (attack twoTenants ana P).allow w (.invoke i anaGuess) ∧
      ∃ p' w', Solo (attack twoTenants ana P) i (body twoTenants anaGuess) (w.after (.invoke i anaGuess)) p' w' ∧ w'.store = ⟨0, emptyDB⟩ ∧
        verifications 0 (15 * minute) w' = verifications 0 (15 * minute) w + 1 := by
  refine ⟨⟨?_, hP _ _ (by simp [isCheck])⟩, ?_⟩
  · rintro _ _ ⟨⟩
    exact ⟨rfl, by rintro b ⟨⟩⟩
  -- the tenant, the host, the credentials, the lockout and the password
  refine step_at_start hw rfl (hP _ _ (by rintro ⟨⟩)) ?_
  refine step_at_start rfl rfl (hP _ _ (by rintro ⟨⟩)) ?_
  refine step_at_start rfl rfl (hP _ _ (by rintro ⟨⟩)) ?_
  refine step_at_start rfl rfl (hP _ _ fun _ e he hcheck => ?_) ?_
  · simp only [World.after_hist, mem_cons] at he
    rcases he with rfl | rfl | rfl | rfl | he
    · cases hcheck
    · cases hcheck
    · cases hcheck
    · cases hcheck
    · exact he
  refine step_at_start rfl rfl (hP _ _ (by rintro ⟨⟩)) ?_
  refine ⟨_, _, .refl _ _, rfl, ?_⟩
  simp [verifications, verifies, minute, second]

end Crm.Iam
