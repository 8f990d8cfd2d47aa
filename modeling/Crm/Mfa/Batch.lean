import Crm.Mfa.Recovery

/-!
# Crm.Mfa.Batch — one batch of recovery codes

A new batch is made in two transactions: `InvalidateAll`, and after the codes have been drawn and hashed `InsertHashes`.  Two calls that both
invalidate before either inserts leave both batches active (`two_batches`), and a call that fails in between leaves none (`codes_lost`).
-/

namespace Crm.Mfa

open Interleave Prog List

variable (K : Crypto) (P : Plane) (issuer : String)

/-! ## Batches one after the other -/

/-- Between a call's `InvalidateAll` and its `InsertHashes` no call inserts codes of the user. -/
def Exclusive (userID : UUID) (w : W) : Ev → Prop
  | .act i (.insertHashes owner _) _ _ _ => owner = userID → ∀ h₁ h₂ (r : Resp (.invalidateAll userID)) pre post,
      w.hist = h₁ ++ .act i (.invalidateAll userID) r pre post :: h₂ →
      ∀ j hashes (r' : Resp (.insertHashes userID hashes)) pre' post', .act j (.insertHashes userID hashes) r' pre' post' ∉ h₁
  | _ => True

/-- The active codes of the user are of one batch: that of the start, or what one call has inserted. -/
def OneBatch (userID : UUID) (db₀ : MfaDB) (w : W) : Prop :=
  (∀ row ∈ w.store.active userID, row ∈ db₀.active userID) ∨
  ∃ i hashes r pre post, .act i (.insertHashes userID hashes) r pre post ∈ w.hist ∧
    ∀ row ∈ w.store.active userID, row.id ∈ post.codes.map CodeRow.id ∧ row.id ∉ pre.codes.map CodeRow.id

section

variable {K P issuer} {allow : W → Ev → Prop} {userID : UUID} {db db' : MfaDB} {σ : Conf Req Resp MfaDB Call Res}

theorem active_invalidateAll {n : ℕ} (he : exec K P (.invalidateAll userID) db (.ok n) db') : db'.active userID = [] := by
  obtain ⟨now, htx⟩ := he
  have hput := htx.of_ok
  unfold MfaDB.invalidateAll at hput
  split_ifs at hput
  cases hput
  refine filter_eq_nil_iff.mpr fun row hrow => ?_
  obtain ⟨old, -, rfl⟩ := mem_map.mp hrow
  by_cases hactive : old.activeFor userID = true
  · rw [if_pos hactive, CodeRow.use_activeFor]
    exact Bool.false_ne_true
  · rw [if_neg hactive]
    exact hactive

theorem active_nil_kept {q : Req} {r : Resp q} (he : exec K P q db r db') (hq : ∀ hashes, q ≠ .insertHashes userID hashes)
    (h : db.active userID = []) : db'.active userID = [] := by
  rcases active_cases he userID with hsub | ⟨_, hashes, heq, -⟩
  · rw [h] at hsub
    exact sublist_nil.mp hsub
  · exact absurd heq (hq hashes)

variable {h₁ h₂ : List Ev} {i : ℕ} {pre post : MfaDB} {hashes : List String} {r : Resp (.insertHashes userID hashes)}

theorem active_since_invalidateAll (hr : Reach (system K P issuer allow) db σ) {n : ℕ}
    (h : σ.world.hist = h₁ ++ .act i (.invalidateAll userID) (.ok n) pre post :: h₂)
    (hno : ∀ j hashes (r : Resp (.insertHashes userID hashes)) pre' post', .act j (.insertHashes userID hashes) r pre' post' ∉ h₁) :
    σ.world.store.active userID = [] := by
  obtain ⟨-, -, -, he, -⟩ := hr.act_split h
  refine hr.since (I := fun db => db.active userID = []) h (active_invalidateAll (K := K) he) fun j q r s s' hm he hnil => ?_
  refine active_nil_kept he ?_ hnil
  rintro hashes rfl
  exact hno j hashes r s s' hm

theorem none_active_at_insert (hr : Reach (system K P issuer (Exclusive userID)) db σ)
    (h : σ.world.hist = h₁ ++ .act i (.insertHashes userID hashes) r pre post :: h₂) : hashes.length = recoveryCodeCount ∧ pre.active userID = [] := by
  obtain ⟨hlen, n, pre', post', hinv⟩ := (recorded hr).due h₁ i _ r pre post h₂ h
  refine ⟨hlen, ?_⟩
  obtain ⟨σ', hr', hw, -, hallow⟩ := hr.act_split h
  obtain ⟨l₁, l₂, hl⟩ := append_of_mem hinv
  have hl' : σ'.world.hist = l₁ ++ .act i (.invalidateAll userID) (.ok n) pre' post' :: l₂ := by rw [hw, hl]
  have hnil := active_since_invalidateAll hr' hl' (hallow rfl l₁ l₂ _ _ _ hl')
  rw [hw] at hnil
  exact hnil

theorem OneBatch.after {db₀ : MfaDB} {w : W} (h : OneBatch userID db₀ w) {e : Ev}
    (hsub : ∀ row ∈ (e.storeAfter w.store).active userID, row ∈ w.store.active userID) : OneBatch userID db₀ (w.after e) := by
  rcases h with h | ⟨i, hashes, r, pre, post, hm, h⟩
  · exact .inl fun row hrow => h row (hsub row hrow)
  · exact .inr ⟨i, hashes, r, pre, post, mem_cons_of_mem _ hm, fun row hrow => h row (hsub row hrow)⟩

theorem one_batch (hinit : (db.active userID).length ≤ recoveryCodeCount) (hr : Reach (system K P issuer (Exclusive userID)) db σ) :
    (σ.world.store.active userID).length ≤ recoveryCodeCount ∧ OneBatch userID db σ.world := by
  induction hr with
  | refl => exact ⟨hinit, .inl fun _ hrow => hrow⟩
  | @tail σ σ' hr hs ih =>
    obtain ⟨hlen, hbatch⟩ := ih
    have hr' := hr.tail hs
    cases hs with
    | invoke c hp ha => exact ⟨hlen, hbatch.after fun _ hrow => hrow⟩
    | respond hp ha => exact ⟨hlen, hbatch.after fun _ hrow => hrow⟩
    | @act i c q k r s' hp he ha =>
    rcases active_cases he userID with hsub | ⟨ids, hashes, rfl, hids, hfresh, hcodes, hactive⟩
    · exact ⟨hsub.length_le.trans hlen, hbatch.after fun _ hrow => hsub.subset hrow⟩
    -- the new batch is all there is
    obtain ⟨hten, hnil⟩ := none_active_at_insert hr' (nil_append _).symm
    rw [hnil, nil_append] at hactive
    have hstore : (σ.set (.act i (.insertHashes userID hashes) r σ.world.store s') i (.running c (k r))).world.store = s' := rfl
    rw [hstore, OneBatch, hstore, hactive]
    refine ⟨?_, .inr ⟨i, hashes, r, _, s', mem_cons_self, fun row hrow => ⟨?_, ?_⟩⟩⟩
    · rw [length_map, length_zip, hids, Nat.min_self, hten]
    · rw [hcodes, map_append]
      exact mem_append_right _ (mem_map_of_mem hrow)
    · obtain ⟨x, hx, rfl⟩ := mem_map.mp hrow
      exact hfresh x.1 (of_mem_zip hx).1

theorem spent_before_insert (hr : Reach (system K P issuer (Exclusive userID)) db σ)
    (hm : .act i (.insertHashes userID hashes) r pre post ∈ σ.world.hist) {id : UUID} (hid : id ∈ pre.codes.map CodeRow.id) :
    Spent userID id σ.world.store := by
  obtain ⟨h₁, h₂, h⟩ := append_of_mem hm
  obtain ⟨-, hnil⟩ := none_active_at_insert hr h
  have hspent : Spent userID id pre := ⟨hid, by simp [hnil]⟩
  obtain ⟨-, -, -, he, -⟩ := hr.act_split h
  have hinsert : exec K P (.insertHashes userID hashes) pre r post := he
  exact hr.since h (hspent.kept hinsert) fun _ _ _ _ _ _ he hs => hs.kept he

/-- A call that is invoked after a batch has come is not shown an earlier code. -/
theorem listed_after_insert (hr : Reach (system K P issuer (Exclusive userID)) db σ) {j : ℕ} {c : Call} {row : RecoveryCodeRecord}
    (h : σ.world.hist = h₁ ++ .invoke j c :: h₂) (hm : .act i (.insertHashes userID hashes) r pre post ∈ h₂)
    (hlisted : Listed j userID row σ.world.hist) : row.id ∉ pre.codes.map CodeRow.id := by
  intro hid
  obtain ⟨rows, pre', post', hlist, hrow⟩ := hlisted
  -- the call lists after its invocation
  have hafter : .act j (.listActive userID) (.ok rows) pre' post' ∈ h₁ := by
    rw [h] at hlist
    rcases mem_append.mp hlist with hlist | hlist
    · exact hlist
    · rcases mem_cons.mp hlist with heq | hlist
      · cases heq
      · exact absurd rfl (hr.unused_before h _ hlist)
  obtain ⟨l₁, l₂, rfl⟩ := append_of_mem hafter
  have hl : σ.world.hist = l₁ ++ .act j (.listActive userID) (.ok rows) pre' post' :: (l₂ ++ .invoke j c :: h₂) := by simp [h]
  obtain ⟨σ', hr', hw, he, -⟩ := hr.act_split hl
  have hspent := spent_before_insert hr' (by rw [hw]; exact mem_append_right _ (mem_cons_of_mem _ hm)) hid
  rw [hw] at hspent
  obtain ⟨-, code, hcode, hcodeid⟩ := listed_active he hrow
  exact hspent.2 code hcode hcodeid

end

/-- **Retirement.**  In every interleaving of the calls with any failures, in which nobody inserts codes of the user between a call's `InvalidateAll`
and its `InsertHashes`: at any time one batch of ten codes at most is active, and a `ConsumeRecovery` that is invoked after a `RegenerateRecovery` of
the user has returned success accepts no code that was in the table before that call's batch. -/
theorem old_codes_retired (K : Crypto) (P : Plane) (issuer : String) (userID : UUID) (db : MfaDB) (hinit : (db.active userID).length ≤ 10)
    (σ : Conf Req Resp MfaDB Call Res) (hr : Reach (system K P issuer (Exclusive userID)) db σ) :
    ((σ.world.store.active userID).length ≤ 10 ∧ OneBatch userID db σ.world) ∧
    ∀ h₁ h₂ i j submitted ctx ctx' codes, σ.world.hist = h₁ ++ .invoke j (.consumeRecovery userID submitted ctx) :: h₂ →
      .respond i (.regenerateRecovery userID ctx') (.ok codes) ∈ h₂ →
      .respond j (.consumeRecovery userID submitted ctx) (.ok ()) ∈ σ.world.hist →
      ∃ hashes pre post, .act i (.insertHashes userID hashes) (.ok ()) pre post ∈ h₂ ∧ (∃ id, Accepted K j userID submitted id σ.world.hist) ∧
        ∀ id, Accepted K j userID submitted id σ.world.hist → id ∉ pre.codes.map CodeRow.id := by
  refine ⟨one_batch hinit hr, fun h₁ h₂ i j submitted ctx ctx' codes h hregenerated hconsumed => ?_⟩
  obtain ⟨σ', hr', hw, -⟩ := hr.split h
  obtain ⟨hashes, pre, post, hm⟩ := (recorded hr').inserted i userID ctx' codes (by rw [hw]; exact hregenerated)
  rw [hw] at hm
  refine ⟨hashes, pre, post, hm, (recorded hr).accepted j userID submitted ctx hconsumed, ?_⟩
  rintro id ⟨-, row, -, -, -, hlisted, rfl, -, -⟩
  exact listed_after_insert hr h hm hlisted

/-! ## Two batches -/

abbrev regenerateOne : Call := .regenerateRecovery 7 noContext

def noCode : MfaDB := ⟨fun _ => none, [⟨1, 7, "AAAAABBBBB", some 0⟩]⟩

def inserts : Ev → Bool
  | .act _ (.insertHashes _ _) _ _ _ => true
  | _ => false

def insertsFirst (w : W) (e : Ev) : Bool := !inserts e || w.hist.all fun e => !inserts e

theorem exclusive_of_insertsFirst (w : W) (e : Ev) (h : insertsFirst w e) : Exclusive 7 w e := by
  cases e with
  | act i q r pre post =>
    cases q with
    | insertHashes owner hashes =>
      intro _ h₁ h₂ r' pre' post' hw j hashes' r'' pre'' post'' hm
      cases all_eq_true.mp h _ (hw ▸ mem_append_left _ hm)
    | _ => trivial
  | _ => trivial

theorem old_codes_retired_alone : ∃ σ, Reach (system plain .tenant "" (Exclusive 7)) oneCode σ ∧
    (∃ codes, .respond 0 regenerateOne (.ok codes) ∈ σ.world.hist) ∧ (σ.world.store.active 7).length ≤ 10 := by
  let M := system plain .tenant "" (Exclusive 7)
  let turns : List (Turn Call) := .invoke 0 regenerateOne :: List.replicate 25 (.move 0)
  obtain ⟨hc, hok⟩ : (Conf.start oneCode).checks M (serve .tenant) (fun _ _ => true) insertsFirst turns = true ∧
      ∃ a ∈ ((Conf.start oneCode).play M (serve .tenant) turns).world.result 0 regenerateOne, ∃ codes ∈ a.toOption, a = .ok codes := by
    decide +kernel
  have hr := Reach.played (exec_serve .tenant) exclusive_of_insertsFirst turns hc
  obtain ⟨_, ha, codes, -, rfl⟩ := hok
  exact ⟨_, hr, ⟨codes, World.mem_of_result ha⟩, (old_codes_retired plain .tenant "" 7 oneCode (by decide) _ hr).1.1⟩

/-- **Two batches.**  A call has invalidated the codes when another one regenerates them; then the first one inserts its own.  Both return success, no
call is in progress, and twenty codes are active. -/
theorem two_batches : ∃ σ, Reach (system plain .tenant "" fun _ _ => True) oneCode σ ∧ (∀ i, σ.pool i = .done ∨ σ.pool i = .idle) ∧
    (∃ codes, .respond 0 regenerateOne (.ok codes) ∈ σ.world.hist) ∧ (∃ codes, .respond 1 regenerateOne (.ok codes) ∈ σ.world.hist) ∧
    (σ.world.store.active 7).length = 20 := by
  let turns := overtaking regenerateOne regenerateOne 1 25 24
  have hr := Conf.steps_serve (M := system plain .tenant "" fun _ _ => True) (exec_serve .tenant) (fun _ _ _ _ => trivial) (fun _ _ _ _ => trivial)
    turns (Conf.start oneCode) fun _ _ _ _ => trivial
  let w := ((Conf.start oneCode).play (system plain .tenant "" fun _ _ => True) (serve .tenant) turns).world
  obtain ⟨⟨_, h0, codes₀, -, rfl⟩, ⟨_, h1, codes₁, -, rfl⟩, htwenty⟩ : (∃ a ∈ w.result 0 regenerateOne, ∃ codes ∈ a.toOption, a = .ok codes) ∧
      (∃ a ∈ w.result 1 regenerateOne, ∃ codes ∈ a.toOption, a = .ok codes) ∧ (w.store.active 7).length = 20 := by decide +kernel
  refine ⟨_, hr, fun i => ?_, ⟨codes₀, World.mem_of_result h0⟩, ⟨codes₁, World.mem_of_result h1⟩, htwenty⟩
  rcases Nat.lt_or_ge i 2 with hi | hi
  · interval_cases i <;> exact .inl rfl
  · exact .inr (Reach.idle hr (by decide +kernel) hi)

/-! ## A regeneration that fails -/

/-- The call's `InvalidateAll` has failed and changed nothing. -/
def NotInvalidated (userID : UUID) (l : List (Exchange Req Resp MfaDB)) : Prop :=
  ∀ (r : Resp (.invalidateAll userID)) pre post, ⟨.invalidateAll userID, r, pre, post⟩ ∈ l → (∃ e, r = .error e) ∧ post = pre

def NotInserted (userID : UUID) (l : List (Exchange Req Resp MfaDB)) : Prop :=
  ∀ hashes (r : Resp (.insertHashes userID hashes)) pre post, ⟨.insertHashes userID hashes, r, pre, post⟩ ∈ l → post = pre

section

variable {K P} {userID : UUID} {db : MfaDB}

theorem NotInserted.mono {l l' : List (Exchange Req Resp MfaDB)} (h : NotInserted userID l') (hsub : l ⊆ l') : NotInserted userID l :=
  fun hashes r pre post hm => h hashes r pre post (hsub hm)

theorem ensures_quiet {α : Type} {p : Client α} (hp : p.Sends fun q => ∀ s (r : Resp q) s', exec K P q s r s' → s' = s) :
    Ensures (exec K P) p db fun _ _ db' => db' = db :=
  Ensures.of_sends (I := fun s => s = db) (fun _ s r s' hq he hs => (hq s r s' he).trans hs) hp rfl

theorem ensures_storeCodes (call generate : String) (hnil : db.active userID = []) : Ensures (exec K P) (storeCodes call generate userID) db
    fun l _ db' => NotInserted userID l → db'.active userID = [] := by
  refine Ensures.bind (ensures_quiet (sends_generateRecoveryCodes (fun _ _ _ he => he.1) recoveryCodeCount)) ?_
  rintro l₁ a db₁ rfl
  cases a with
  | error e => exact .ret fun _ => hnil
  | ok codes =>
  refine Ensures.bind (ensures_quiet (sends_hashCodes (fun _ _ _ _ he => he) call codes 0)) ?_
  rintro l₂ a db₂ rfl
  cases a with
  | error e => exact .ret fun _ => hnil
  | ok hashes =>
  refine .ask fun r db₃ _ => ?_
  have hkept : ∀ l, NotInserted userID (l₁ ++ (l₂ ++ ⟨.insertHashes userID hashes, r, db₂, db₃⟩ :: l)) → db₃.active userID = [] := by
    intro l hno
    rw [hno hashes r db₂ db₃ (by simp)]
    exact hnil
  cases r <;> exact .ret (hkept [])

theorem ensures_regenerateRecovery (ctx : RequestContext) : Ensures (exec K P) (regenerateRecovery userID ctx) db fun l result db' =>
    ∀ e, result = .error e → NotInvalidated userID l ∨ (db.active userID = [] ∧ NotInserted userID l) → db'.active userID = db.active userID := by
  simp only [regenerateRecovery, Prog.send_bind, Prog.pure_eq]
  split
  · exact .ret fun _ _ _ => rfl
  refine .ask fun r db₁ he => ?_
  -- if there was nothing to invalidate, there is still nothing
  have hnone : db.active userID = [] → db₁.active userID = [] := active_nil_kept he (by rintro _ ⟨⟩)
  cases r with
  | error e =>
    refine .ret fun _ _ hwhen => ?_
    rcases hwhen with hno | ⟨hempty, -⟩
    · rw [(hno _ _ _ mem_cons_self).2]
    · rw [hnone hempty, hempty]
  | ok n =>
  -- the call goes on, so it is the second case
  have hgoes : ∀ {l : List (Exchange Req Resp MfaDB)}, ⟨.invalidateAll userID, .ok n, db, db₁⟩ ∈ l →
      NotInvalidated userID l ∨ (db.active userID = [] ∧ NotInserted userID l) → db.active userID = [] ∧ NotInserted userID l := by
    intro l hm hwhen
    refine hwhen.resolve_left fun hno => ?_
    obtain ⟨e, he⟩ := (hno _ _ _ hm).1
    cases he
  by_cases hempty : db.active userID = []
  · refine Ensures.bind (ensures_storeCodes "mfa: RegenerateRecovery" ": generate codes" (hnone hempty)) fun l₁ a db₂ hstored => ?_
    have hend : ∀ l : List (Exchange Req Resp MfaDB), NotInserted userID (⟨.invalidateAll userID, .ok n, db, db₁⟩ :: (l₁ ++ l)) →
        db₂.active userID = db.active userID := by
      intro l hno
      rw [hstored (hno.mono fun _ hm => mem_cons_of_mem _ (mem_append_left _ hm)), hempty]
    cases a with
    | error e => exact .ret fun _ _ hwhen => hend [] (hgoes mem_cons_self hwhen).2
    | ok codes =>
    refine .ask fun r db₃ he3 => ?_
    obtain rfl : db₃ = db₂ := he3
    cases r with
    | error e => exact .ret fun _ _ hwhen => hend _ (hgoes mem_cons_self hwhen).2
    | ok =>
    refine Ensures.bind (ensures_quiet (sends_alertOrRecord (fun _ _ _ _ he => he) (fun _ _ _ _ _ _ he => he) _)) fun l₂ _ db₄ _ => ?_
    exact .ret (by rintro _ ⟨⟩)
  · -- the user had codes, so the condition does not hold
    intro l a db' hrun e _ hwhen
    exact absurd (hgoes mem_cons_self hwhen).1 hempty

end

end Crm.Mfa
