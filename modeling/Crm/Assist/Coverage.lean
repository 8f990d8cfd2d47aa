import Crm.Assist.Summarize
import Crm.Store.Serve

/-!
# Crm.Assist.Coverage — what a dispatch is paid with

`Summarize` reserves under a key made of the request id, dispatches, and commits or releases under two other keys of the same
id.  A reserve key that is used again brings back the reservation it opened, whatever has become of it since.
-/

namespace Crm.Assist

open Int64Arith Interleave Interleave.Prog Crm.Store List
open Crm.Wallet (TokenWallet Reservation freshExec Sound Posted Reserved Committed reserve_ensures commit_ensures release_ensures)

/-! ## Definitions -/

abbrev Exch : Type := Prog.Exchange Req Resp AssistDB

def Req.dispatches : Req → Bool
  | .complete _ => true
  | _ => false

def Reserves (e : Exch) (r : Reservation) : Prop := ∃ t a k pre post, e = ⟨.reserve t a k, .ok r, pre, post⟩

def Settled (s : AssistDB) (r : Reservation) : Prop := ∃ row ∈ s.core.ledger, row.settles r.id.string = true

/-- Every dispatch comes right after a `Reserve`, and the reservation that returned is open. -/
def Covered (l : List Exch) : Prop :=
  ∀ l₁ e l₂, l = l₁ ++ e :: l₂ → e.q.dispatches = true → ∃ l₀ e' r, l₁ = l₀ ++ [e'] ∧ Reserves e' r ∧ ¬ Settled e.pre r

/-- Between `s` and `s'` the tenant has paid `a` tokens for reservation `r`. -/
structure Charged (tenantID : UUID) (r : Reservation) (a : ℤ) (s s' : AssistDB) : Prop where
  pos : 1 ≤ a
  le : a ≤ r.amount
  row : ∃ row ∈ s'.core.ledger, row ∉ s.core.ledger ∧ row.kind = .commit ∧ row.externalRef = some r.id.string ∧ row.amount = -a
  balance : ∃ b, s.core.balance tenantID = some b ∧ s'.core.balance tenantID = some (b - a)

/-- The call has paid for the reservation that its `Reserve` returned. -/
def Debited (tenantID : UUID) (l : List Exch) (s s' : AssistDB) : Prop :=
  ∃ e ∈ l, ∃ r a, Reserves e r ∧ Charged tenantID r a s s'

/-- The request's reserve key is unused, or no row settles the reservation that was opened under it. -/
def Reusable (req : SummarizeRequest) (s : AssistDB) : Prop :=
  ∀ row ∈ s.core.ledger, row.tenantID = req.tenantID → row.idempotencyKey = idempotencyKey req reservationKeySuffix →
    ∀ ref ∈ row.externalRef, ∀ row' ∈ s.core.ledger, row'.settles ref = false

structure Record where
  req : SummarizeRequest
  exchanges : List Exch
  result : Except Failure SummarizeResponse
  pre : AssistDB
  post : AssistDB

/-- Calls of the service one after another, with a record of every `Summarize`. -/
inductive Sequence (svc : Service) : AssistDB → List Record → AssistDB → Prop
  | nil (s : AssistDB) : Sequence svc s [] s
  | summarize {req : SummarizeRequest} {s s' s'' : AssistDB} {l : List Exch} {a : Except Failure SummarizeResponse} {cs : List Record}
      (h : Prog.Runs exec (summarize svc req) s l a s') (rest : Sequence svc s' cs s'') : Sequence svc s (⟨req, l, a, s, s'⟩ :: cs) s''
  | invalidate {t c : UUID} {s s' s'' : AssistDB} {l : List Exch} {a : Except Failure Unit} {cs : List Record}
      (h : Prog.Runs exec (invalidate t c) s l a s') (rest : Sequence svc s' cs s'') : Sequence svc s cs s''

/-! ## The tables stay sound -/

theorem exec_sound {q : Req} {r : Resp q} {s s' : AssistDB} (h : exec q s r s') (hs : Sound s.core) : Sound s'.core := by
  have hsame : s' = s → Sound s'.core := fun he => he ▸ hs
  cases q with
  | reserve t a k =>
    obtain ⟨⟨l, hl⟩, -⟩ := h
    exact (reserve_ensures hs t a k l r _ hl).1.sound hs
  | commit res a k =>
    obtain ⟨⟨l, hl⟩, -⟩ := h
    exact (commit_ensures hs res a k l r _ hl).1.sound hs
  | release res k =>
    obtain ⟨⟨l, hl⟩, -⟩ := h
    exact Posted.sound (release_ensures hs res k l r _ hl) hs
  | saveSummary m =>
    rcases Tx.store_cases h with he | ⟨u, hu⟩
    · exact hsame he
    unfold AssistDB.saveSummary at hu
    split_ifs at hu
    cases hu
    exact hs
  | invalidateForConversation t c now =>
    rcases Tx.store_cases h with he | ⟨u, hu⟩
    · exact hsame he
    unfold AssistDB.invalidateForConversation at hu
    split_ifs at hu
    cases hu
    exact hs
  | getLatestValid t c now => exact hsame h.1
  | _ => exact hsame h

theorem runs_sound {α : Type} {p : Client α} {s s' : AssistDB} {l : List Exch} {a : α} (h : Prog.Runs exec p s l a s')
    (hs : Sound s.core) : Sound s'.core := by
  induction h with
  | ret => exact hs
  | ask he _ ih => exact ih (exec_sound he hs)

/-! ## Traces -/

def Quiet (l : List Exch) : Prop := ∀ e ∈ l, e.q.dispatches = false

section Traces

variable {l l' : List Exch} {e : Exch}

theorem Quiet.nil : Quiet [] := fun _ he => nomatch he

theorem Quiet.cons (he : e.q.dispatches = false) (h : Quiet l) : Quiet (e :: l) := by
  intro e' he'
  rcases mem_cons.mp he' with rfl | he'
  · exact he
  · exact h e' he'

theorem Quiet.covered (h : Quiet l) : Covered l := by
  rintro l₁ e l₂ rfl hd
  exact absurd hd (by rw [h e (by simp)]; decide)

/-- A covered trace does not begin with a dispatch, so exchanges without one may stand in front of it. -/
theorem Covered.quiet_append (h : Quiet l) (h' : Covered l') : Covered (l ++ l') := by
  induction l with
  | nil => exact h'
  | cons e l ih =>
    intro l₁ e₁ l₂ heq hd
    cases l₁ with
    | nil =>
      obtain ⟨rfl, -⟩ := cons_eq_cons.mp heq
      exact absurd hd (by rw [h e mem_cons_self]; decide)
    | cons e₂ l₁ =>
    obtain ⟨rfl, htail⟩ := cons_eq_cons.mp heq
    obtain ⟨l₀, e', r, rfl, hr⟩ := ih (fun e he => h e (mem_cons_of_mem _ he)) l₁ e₁ l₂ htail hd
    exact ⟨e :: l₀, e', r, rfl, hr⟩

theorem Covered.append_quiet (h : Covered l) (h' : Quiet l') : Covered (l ++ l') := by
  intro l₁ e l₂ heq hd
  rcases append_eq_append_iff.mp heq with ⟨m, -, hm⟩ | ⟨m, hl, hm⟩
  · exact absurd hd (by rw [h' e (by rw [hm]; simp)]; decide)
  cases m with
  | nil => exact absurd hd (by rw [h' e (by rw [← nil_append l', ← hm]; simp)]; decide)
  | cons e₁ m =>
  obtain ⟨rfl, -⟩ := cons_eq_cons.mp hm
  exact h l₁ e m hl hd

/-- A dispatch right after the `Reserve` it rests on. -/
theorem Covered.dispatch {r : Reservation} {e' : Exch} (he : Reserves e r) (hopen : ¬ Settled e'.pre r) (h : Quiet l) :
    Covered (e :: e' :: l) := by
  obtain ⟨t, a, k, pre, post, rfl⟩ := he
  intro l₁ e₁ l₂ heq hd
  match l₁ with
  | [] =>
    obtain ⟨rfl, -⟩ := cons_eq_cons.mp heq
    cases hd
  | [e₂] =>
    obtain ⟨rfl, htail⟩ := cons_eq_cons.mp heq
    obtain ⟨rfl, -⟩ := cons_eq_cons.mp htail
    exact ⟨[], _, r, rfl, ⟨t, a, k, pre, post, rfl⟩, hopen⟩
  | e₂ :: e₃ :: l₁ =>
    obtain ⟨rfl, htail⟩ := cons_eq_cons.mp heq
    obtain ⟨rfl, rfl⟩ := cons_eq_cons.mp htail
    exact absurd hd (by rw [h e₁ (by simp)]; decide)

end Traces

/-! ## The gates -/

section Gates

variable {svc : Service} {req : SummarizeRequest} {policy : Policy} {s : AssistDB}

def Passes {α : Type} (s : AssistDB) (l : List Exch) (_ : α) (s' : AssistDB) : Prop := Quiet l ∧ s' = s

theorem checkConsent_passes : Ensures exec (checkConsent svc req policy) s (Passes s) := by
  simp only [checkConsent, send_bind, pure_eq]
  split
  · exact .ret ⟨.nil, rfl⟩
  split
  · exact .ret ⟨.nil, rfl⟩
  split
  · exact .ret ⟨.nil, rfl⟩
  refine .ask fun r s₁ he => ?_
  obtain rfl : s₁ = s := he
  cases r with
  | error e => exact .ret ⟨.cons rfl .nil, rfl⟩
  | ok preview =>
  refine .ask fun r s₂ he2 => ?_
  obtain rfl : s₂ = s₁ := he2
  split <;> exact .ret ⟨.cons rfl (.cons rfl .nil), rfl⟩

theorem checkRateLimit_passes : Ensures exec (checkRateLimit svc req) s (Passes s) := by
  simp only [checkRateLimit, send_bind, pure_eq]
  split
  · exact .ret ⟨.nil, rfl⟩
  refine .ask fun r s₁ he => ?_
  obtain rfl : s₁ = s := he
  split <;> exact .ret ⟨.cons rfl .nil, rfl⟩

theorem lookupCache_passes {now : Time} : Ensures exec (lookupCache req now) s (Passes s) := by
  simp only [lookupCache, send_bind, pure_eq]
  split_ifs
  · exact .ret ⟨.nil, rfl⟩
  refine .ask fun r s₁ he => ?_
  obtain rfl : s₁ = s := he.1
  split <;> exact .ret ⟨.cons rfl .nil, rfl⟩

theorem buildDispatchPrompt_passes : Ensures exec (buildDispatchPrompt svc req policy) s (Passes s) := by
  have hanon : Ensures exec (anonymizeForDispatch svc req.prompt policy) s (Passes s) := by
    simp only [anonymizeForDispatch, send_bind, pure_eq]
    split_ifs
    · exact .ret ⟨.nil, rfl⟩
    refine .ask fun r s₁ he => ?_
    obtain rfl : s₁ = s := he
    split <;> exact .ret ⟨.cons rfl .nil, rfl⟩
  refine Ensures.bind hanon fun l r s₁ ⟨hq, he⟩ => ?_
  obtain rfl := he
  have hret : ∀ x, Ensures exec (.ret x : Client (Except Failure String)) s₁ fun l₂ => Passes s₁ (l ++ l₂) :=
    fun x => .ret ⟨by rwa [append_nil], rfl⟩
  cases r with
  | error e => exact hret _
  | ok body =>
  dsimp only
  split <;> exact hret _

end Gates

/-! ## Reserve, dispatch and commit -/

section Dispatch

variable {svc : Service} {req : SummarizeRequest} {policy : Policy} {s s₁ : AssistDB} {r : Reservation}

/-- The reservation that comes back is open: it is new, or it was found open. -/
theorem not_settled_of_reserved (hreuse : Reusable req s)
    (h : Reserved req.tenantID (idempotencyKey req reservationKeySuffix) r s.core s₁.core) : ¬ Settled s₁ r := by
  rintro ⟨row', hmem', hsettles⟩
  generalize s₁.core = c at h hmem'
  cases h with
  | found hmem htenant hkey hholds =>
    rw [hreuse _ hmem htenant hkey _ hholds.2 row' hmem'] at hsettles
    cases hsettles
  | opened ha _ _ hkind hfresh =>
  have hrow : row'.externalRef = some r.id.string ∧ (row'.kind = .commit ∨ row'.kind = .release) := of_decide_eq_true hsettles
  rw [ha.ledger] at hmem'
  rcases mem_append.mp hmem' with hold | hnew
  · exact hfresh row' hold hrow.1
  · obtain rfl := mem_singleton.mp hnew
    rw [hkind] at hrow
    rcases hrow.2 with h | h <;> cases h

variable {t : UUID} {s' : AssistDB} {l : List Exch}

theorem ledger_subset_of_reserved {k : String} {c c' : DB} (h : Reserved t k r c c') : c.ledger ⊆ c'.ledger := by
  cases h with
  | found => exact fun _ hx => hx
  | opened ha _ _ _ _ =>
  rw [ha.ledger]
  exact subset_append_left _ _

theorem balance_of_reserved {k : String} {c c' : DB} (hs : Sound c) (hs' : Sound c') (h : Reserved t k r c c') : c'.balance t = c.balance t := by
  cases h with
  | found => rfl
  | opened ha ht hbal _ _ =>
  have hpre := hs.balance_eq ha.mem
  have hpost := hs'.balance_eq ha.mem_wallets
  rw [ha.tenantID, ht, hbal] at hpost
  rw [ht] at hpre
  rw [hpre, hpost]

theorem actualTokens_bounds (h : 0 < r.amount) (llmResp : LLMResponse) :
    1 ≤ actualTokens r llmResp ∧ actualTokens r llmResp ≤ r.amount := by
  unfold actualTokens
  dsimp only
  split_ifs <;> omega

theorem charged_of_committed {s₂ s₃ : AssistDB} {a : ℤ} {w w' : TokenWallet} {row : LedgerRow} (hs : Sound s₂.core) (hs' : Sound s₃.core)
    (hsub : s.core.ledger ⊆ s₂.core.ledger) (hbal : s₂.core.balance r.tenantID = s.core.balance r.tenantID) (hopen : ¬ Settled s₂ r)
    (hpos : 1 ≤ a) (hle : a ≤ r.amount) (h : Committed r a s₂.core w w' row s₃.core) : Charged r.tenantID r a s s₃ := by
  refine ⟨hpos, hle, ⟨row, ?_, ?_, h.kind, h.ref, h.amount⟩, w.balance, ?_, ?_⟩
  · rw [h.appended.ledger]
    exact mem_append_right _ (mem_singleton_self row)
  · exact fun hold => hopen ⟨row, hsub hold, decide_eq_true ⟨h.ref, .inl h.kind⟩⟩
  · rw [← hbal, ← h.tenantID]
    exact hs.balance_eq h.appended.mem
  · rw [← h.tenantID, ← h.appended.tenantID, ← h.balance]
    exact hs'.balance_eq h.appended.mem_wallets

theorem saveSummary_core {m : Summary} {x : Except Err Unit} (h : exec (.saveSummary m) s x s') : s'.core = s.core := by
  rcases Tx.store_cases h with rfl | ⟨u, hu⟩
  · rfl
  unfold AssistDB.saveSummary at hu
  split_ifs at hu
  cases hu
  rfl

theorem Charged.of_core {a : ℤ} {s'' : AssistDB} (h : Charged t r a s s') (he : s''.core = s'.core) : Charged t r a s s'' := by
  obtain ⟨hpos, hle, hrow, hbal⟩ := h
  rw [← he] at hrow hbal
  exact ⟨hpos, hle, hrow, hbal⟩

structure Dispatched (req : SummarizeRequest) (s : AssistDB) (l : List Exch) (r : Reservation) (s' : AssistDB) : Prop where
  reserves : ∃ e ∈ l, Reserves e r
  tenantID : r.tenantID = req.tenantID
  pos : 0 < r.amount
  sound : Sound s'.core
  isOpen : ¬ Settled s' r
  ledger : s.core.ledger ⊆ s'.core.ledger
  balance : s'.core.balance req.tenantID = s.core.balance req.tenantID

theorem reserveAndCall_ends (hs : Sound s.core) (hreuse : Reusable req s) {dispatchPrompt : String} :
    Ensures exec (reserveAndCall req policy dispatchPrompt) s fun l x s' =>
      Covered l ∧ ∀ r llmResp, x = .ok (r, llmResp) → Dispatched req s l r s' := by
  simp only [reserveAndCall, send_bind, pure_eq]
  refine .ask fun x s₁ hreserve => ?_
  have hs1 := exec_sound hreserve hs
  obtain ⟨⟨lw, hrun⟩, -⟩ := hreserve
  cases x with
  | error e => exact .ret ⟨(Quiet.cons rfl .nil).covered, by rintro _ _ ⟨⟩⟩
  | ok r =>
  obtain ⟨htenant, hamount, hpos, hreserved⟩ := (reserve_ensures hs _ _ _ lw _ _ hrun).2 r rfl
  have hopen := not_settled_of_reserved hreuse hreserved
  refine .ask fun x s₂ he => ?_
  obtain rfl : s₂ = s₁ := he
  cases x with
  | ok llmResp =>
    refine .ret ⟨.dispatch ⟨_, _, _, _, _, rfl⟩ hopen .nil, fun r' _ h => ?_⟩
    cases h
    exact ⟨⟨_, mem_cons_self, _, _, _, _, _, rfl⟩, htenant, hamount ▸ hpos, hs1, hopen, ledger_subset_of_reserved hreserved,
      balance_of_reserved hs hs1 hreserved⟩
  | error e =>
  refine .ask fun x s₃ _ => ?_
  split <;> exact .ret ⟨.dispatch ⟨_, _, _, _, _, rfl⟩ hopen (.cons rfl .nil), by rintro _ _ ⟨⟩⟩

theorem commitAndPersist_ends (h : Dispatched req s l r s₁) {llmResp : LLMResponse} {now : Time} :
    Ensures exec (commitAndPersist svc req policy r llmResp now) s₁ fun l' x s' =>
      Quiet l' ∧ ∀ m, x = .ok m → ∃ a, Charged req.tenantID r a s s' := by
  simp only [commitAndPersist, send_bind, pure_eq]
  refine .ask fun x s₂ hcommit => ?_
  have hs2 := exec_sound hcommit h.sound
  obtain ⟨⟨lw, hrun⟩, -⟩ := hcommit
  cases x with
  | error e => exact .ret ⟨.cons rfl .nil, by rintro _ ⟨⟩⟩
  | ok u =>
  have hcharged : Charged req.tenantID r (actualTokens r llmResp) s s₂ := by
    obtain ⟨hpos, hle⟩ := actualTokens_bounds h.pos llmResp
    rcases (commit_ensures h.sound _ _ _ lw _ _ hrun).2 rfl with hsettled | ⟨w, w', row, hc⟩
    · exact absurd hsettled h.isOpen
    · have hbal := h.balance
      rw [← h.tenantID] at hbal ⊢
      exact charged_of_committed h.sound hs2 h.ledger hbal h.isOpen hpos hle hc
  dsimp only
  split
  · exact .ret ⟨.cons rfl .nil, by rintro _ ⟨⟩⟩
  refine .ask fun id s₃ he => ?_
  obtain rfl : s₃ = s₂ := he
  refine .ask fun x s₄ hsave => ?_
  have hq : ∀ (id : UUID) (m : Summary) (y : Except Err Unit), Quiet
      [⟨.commit r (actualTokens r llmResp) (idempotencyKey req commitKeySuffix), .ok u, s₁, s₃⟩, ⟨.newUUID, id, s₃, s₃⟩,
        ⟨.saveSummary m, y, s₃, s₄⟩] := fun _ _ _ => .cons rfl (.cons rfl (.cons rfl .nil))
  split
  · exact .ret ⟨hq _ _ _, by rintro _ ⟨⟩⟩
  · exact .ret ⟨hq _ _ _, fun _ _ => ⟨_, hcharged.of_core (saveSummary_core hsave)⟩⟩

def Ends (req : SummarizeRequest) (s : AssistDB) (l : List Exch) (a : Except Failure SummarizeResponse) (s' : AssistDB) : Prop :=
  Covered l ∧ ∀ resp, a = .ok resp → resp.cacheHit = false → Debited req.tenantID l s s'

theorem Ends.quiet {a : Except Failure SummarizeResponse} (h : Quiet l) (ha : ∀ resp, a = .ok resp → resp.cacheHit = true) : Ends req s l a s' :=
  ⟨h.covered, fun resp hr hc => by rw [ha resp hr] at hc; cases hc⟩

theorem Ends.quiet_append {l' : List Exch} {a : Except Failure SummarizeResponse} (hq : Quiet l) (h : Ends req s l' a s') :
    Ends req s (l ++ l') a s' := by
  refine ⟨h.1.quiet_append hq, fun resp hr hc => ?_⟩
  obtain ⟨e, he, hd⟩ := h.2 resp hr hc
  exact ⟨e, mem_append_right _ he, hd⟩

/-- **From the prompt on**: a call that finds its reserve key reusable dispatches on an open reservation and pays. -/
theorem dispatch_ends (hs : Sound s.core) (hreuse : Reusable req s) {now : Time} :
    Ensures exec (dispatch svc req policy now) s (Ends req s) := by
  have hfail : ∀ {l : List Exch} {s' : AssistDB} {e : Failure}, Covered l →
      Ends req s l (.error e : Except Failure SummarizeResponse) s' := fun hc => ⟨hc, by rintro _ ⟨⟩⟩
  unfold dispatch
  refine Ensures.bind buildDispatchPrompt_passes fun l₁ x s₁ ⟨hq, he⟩ => ?_
  obtain rfl := he
  refine Ensures.mono ?_ fun _ _ _ => Ends.quiet_append hq
  cases x with
  | error e => exact .ret (hfail Quiet.nil.covered)
  | ok dispatchPrompt =>
  refine Ensures.bind (reserveAndCall_ends hs hreuse) fun l₂ x s₂ ⟨hcov, hdisp⟩ => ?_
  cases x with
  | error e => exact .ret (hfail (by rwa [append_nil]))
  | ok y =>
  obtain ⟨r, llmResp⟩ := y
  have hd := hdisp r llmResp rfl
  refine Ensures.bind (commitAndPersist_ends hd) fun l₃ x s₃ ⟨hq3, hcharged⟩ => ?_
  have hcov3 : Covered (l₂ ++ l₃) := hcov.append_quiet hq3
  cases x with
  | error e => exact .ret (hfail (by rwa [append_nil]))
  | ok m =>
  obtain ⟨a, ha⟩ := hcharged m rfl
  obtain ⟨e, he, her⟩ := hd.reserves
  exact .ret ⟨by rwa [append_nil], fun _ _ _ => ⟨e, by simp [he], r, a, her, ha⟩⟩

theorem summarize_ends (hs : Sound s.core) (hreuse : Reusable req s) : Ensures exec (summarize svc req) s (Ends req s) := by
  have hfail : ∀ {l : List Exch} {s' : AssistDB} {e : Failure}, Quiet l →
      Ends req s l (.error e : Except Failure SummarizeResponse) s' := fun hq => .quiet hq (by rintro _ ⟨⟩)
  simp only [summarize, send_bind, pure_eq]
  split
  · exact .ret (hfail .nil)
  refine .ask fun x s₁ he => ?_
  obtain rfl : s₁ = s := he
  refine Ensures.mono ?_ fun l _ _ (h : Ends req s₁ l _ _) => h.quiet_append (Quiet.cons rfl .nil)
  cases x with
  | error e => exact .ret (hfail .nil)
  | ok policy =>
  dsimp only
  split
  · exact .ret (hfail .nil)
  refine Ensures.bind checkConsent_passes fun l x s₂ ⟨hq, he⟩ => ?_
  obtain rfl := he
  refine Ensures.mono ?_ fun _ _ _ => Ends.quiet_append hq
  cases x with
  | error e => exact .ret (hfail .nil)
  | ok u =>
  refine Ensures.bind checkRateLimit_passes fun l x s₃ ⟨hq, he⟩ => ?_
  obtain rfl := he
  refine Ensures.mono ?_ fun _ _ _ => Ends.quiet_append hq
  cases x with
  | error e => exact .ret (hfail .nil)
  | ok u =>
  refine .ask fun now s₄ he => ?_
  obtain rfl : s₄ = s₃ := he
  refine Ensures.mono ?_ fun l _ _ (h : Ends req s₄ l _ _) => h.quiet_append (Quiet.cons rfl .nil)
  refine Ensures.bind lookupCache_passes fun l x s₅ ⟨hq, he⟩ => ?_
  obtain rfl := he
  refine Ensures.mono ?_ fun _ _ _ => Ends.quiet_append hq
  split
  · exact .ret (hfail .nil)
  · exact .ret (.quiet .nil fun resp h => by cases h; rfl)
  · exact dispatch_ends hs hreuse

end Dispatch

/-! ## Two calls under one request id -/

def plainService : Service where
  rateLimitBucket := none
  anonymizerVersion := none
  ttl := 1
  bucket := (by rintro _ ⟨⟩)
  version := (by rintro _ ⟨⟩)
  ttl_pos := by decide

def plainPolicy : Policy where
  aiEnabled := true
  optIn := true
  anonymize := false
  model := "m"
  maxOutputTokens := 0
  promptVersion := ""
  structuredFields := []
  consentRequired := false

def request (force : Bool) : SummarizeRequest where
  tenantID := 2
  conversationID := 3
  requestID := "r"
  prompt := "hi"
  scope := ⟨"", ""⟩
  force := force

def reply : LLMResponse := ⟨"ok", 4, 6⟩

def reserveKey : String := idempotencyKey (request false) reservationKeySuffix

def commitKey : String := idempotencyKey (request false) commitKeySuffix

def account (balance reserved version : ℤ) : TokenWallet := ⟨1, 2, balance, reserved, version, 0, 0⟩

def openingRow : LedgerRow where
  id := 1
  walletID := 1
  tenantID := 2
  kind := .grant
  amount := 100
  idempotencyKey := DB.courtesyIdempotencyKey 2
  externalRef := none
  source := .consumption
  masterGrantID := none
  occurredAt := 0
  createdAt := 0

def reservation : Reservation where
  id := 4
  walletID := 1
  tenantID := 2
  amount := 50
  idempotencyKey := reserveKey
  createdAt := 0

def reserveRow : LedgerRow := .ofEntry (Wallet.reserveEntry (account 100 50 2) 50 reserveKey 0 4 5)

def commitRow : LedgerRow := .ofEntry (Wallet.settlementEntry (account 90 0 3) .commit reservation 10 commitKey 0 6)

def walletDB (w : TokenWallet) (rows : List LedgerRow) : DB := ⟨[w], rows, [], [], []⟩

def fundedDB : DB := walletDB (account 100 0 1) [openingRow]

def paidDB : DB := walletDB (account 90 0 3) [openingRow, reserveRow, commitRow]

/-- The wallet's store at time 0; the identifiers drawn are those of the list. -/
def drawing : (q : Store.Req) → DB × List UUID → Store.Resp q × (DB × List UUID)
  | .newUUID, t => (t.2.headD 1, t.1, t.2.tail)
  | q, t => ((Store.serve 0 1 "" q t.1).1, (Store.serve 0 1 "" q t.1).2, t.2)

/-- The identifier drawn next, if one is, stands in no row. -/
def drawsNew : Store.Req → DB × List UUID → Bool
  | .newUUID, t => t.1.ledger.all fun row => row.externalRef ≠ some (t.2.headD 1).string
  | _, _ => true

theorem freshExec_drawing (q : Store.Req) (t : DB × List UUID) (h : drawsNew q t) : freshExec q t.1 (drawing q t).1 (drawing q t).2.1 := by
  have hid : (1 : UUID) ≠ UUID.Nil := by decide
  cases q with
  | newUUID => exact ⟨rfl, fun row hm => of_decide_eq_true (all_eq_true.mp h row hm)⟩
  | _ => exact ⟨@Store.exec_serve 0 1 "" hid _ t.1, trivial⟩

def callWallet {α : Type} (p : Store.Client α) (ids : List UUID) (s : AssistDB) : α × AssistDB :=
  ((p.eval drawing (s.core, ids)).1, ⟨(p.eval drawing (s.core, ids)).2.1, s.summaries⟩)

theorem walletCall_of_okay {α : Type} {p : Store.Client α} {ids : List UUID} {s : AssistDB} (h : p.okay drawing drawsNew (s.core, ids)) :
    walletCall p s (callWallet p ids s).1 (callWallet p ids s).2 :=
  ⟨⟨_, Prog.Runs.okay Prod.fst freshExec_drawing p (s.core, ids) h⟩, rfl⟩

def serve : (q : Req) → AssistDB → Resp q × AssistDB
  | .resolve _ _, s => (.ok plainPolicy, s)
  | .anonymize text, s => (.ok text, s)
  | .hasConsent _ _ _, s => (.ok true, s)
  | .allow _ _, s => (.ok true, s)
  | .clock, s => ((0 : Time), s)
  | .getLatestValid t c now, s => ((s.validSummaries t c now).head?.elim (.error .aiCacheMiss) .ok, s)
  | .reserve t a k, s => callWallet (Wallet.reserve t a k) [4, 5] s
  | .commit r a k, s => callWallet (Wallet.commit (some r) a k) [6] s
  | .release r k, s => callWallet (Wallet.release (some r) k) [6] s
  | .complete _, s => (.ok reply, s)
  | .newUUID, s => (if s.summaries = [] then (7 : UUID) else (8 : UUID), s)
  | .saveSummary m, s => Tx.run s (s.saveSummary m)
  | .invalidateForConversation t c now, s => Tx.run s (s.invalidateForConversation t c now)

def answers : Req → AssistDB → Bool
  | .getLatestValid t c now, s => t ≠ UUID.Nil ∧ c ≠ UUID.Nil ∧ (s.validSummaries t c now).length ≤ 1
  | .reserve t a k, s => (Wallet.reserve t a k).okay drawing drawsNew (s.core, [4, 5])
  | .commit r a k, s => (Wallet.commit (some r) a k).okay drawing drawsNew (s.core, [6])
  | .release r k, s => (Wallet.release (some r) k).okay drawing drawsNew (s.core, [6])
  | _, _ => true

theorem exec_serve (q : Req) (s : AssistDB) (h : answers q s) : exec q s (serve q s).1 (serve q s).2 := by
  cases q with
  | getLatestValid t c now =>
    obtain ⟨ht, hc, hone⟩ := of_decide_eq_true h
    refine ⟨rfl, .inl ?_⟩
    cases hvalid : s.validSummaries t c now with
    | nil =>
      rw [show (serve (.getLatestValid t c now) s).1 = .error .aiCacheMiss by rw [serve, hvalid]; rfl, AssistDB.GetLatestValid, if_neg ht, if_neg hc]
      exact ⟨rfl, hvalid⟩
    | cons m l =>
    obtain rfl : l = [] := by
      rw [hvalid] at hone
      exact length_eq_zero_iff.mp (by simpa using hone)
    rw [show (serve (.getLatestValid t c now) s).1 = .ok m by rw [serve, hvalid]; rfl]
    refine ⟨ht, hc, by simp [hvalid], fun m' hm' => ?_⟩
    rw [hvalid] at hm'
    rw [mem_singleton.mp hm']
  | reserve t a k => exact walletCall_of_okay h
  | commit r a k => exact walletCall_of_okay h
  | release r k => exact walletCall_of_okay h
  | saveSummary m => exact Tx.of_run _ _
  | invalidateForConversation t c now => exact Tx.of_run _ _
  | _ => rfl

def madeSummary (id : UUID) : Summary := newSummary id 2 3 "ok" "m" 4 6 0 1

theorem sound_fundedDB : Sound fundedDB where
  walletIDs := nodup_singleton _
  tenants := nodup_singleton _
  nonNil := by decide
  wf := by
    intro w hw
    rw [mem_singleton.mp hw]
    exact ⟨by decide, by decide, by decide⟩
  owner := by decide
  refs := by
    intro r hr hk
    rw [mem_singleton.mp hr] at hk
    cases hk

def fundedAssist : AssistDB := ⟨fundedDB, []⟩

/-- The tables after the one commit, with a summary under each of `ids`. -/
def paidAssist (ids : List UUID) : AssistDB := ⟨paidDB, ids.map fun id => AssistDB.rowOf (madeSummary id)⟩

deriving instance DecidableEq for AssistDB

def reserved : Exch → Option Reservation
  | ⟨.reserve _ _ _, .ok r, _, _⟩ => some r
  | _ => none

theorem not_covered {l : List Exch} {n : ℕ} {r : Reservation} (hr : (l.take n).getLast?.bind reserved = some r)
    (hd : l[n]?.any fun e => e.q.dispatches && e.pre.core.ledger.any fun row => row.settles r.id.string) : ¬ Covered l := by
  intro hcov
  obtain ⟨e, he, hd⟩ : ∃ e, l[n]? = some e ∧ (e.q.dispatches && e.pre.core.ledger.any fun row => row.settles r.id.string) = true := by
    cases he : l[n]? with
    | none =>
      rw [he] at hd
      cases hd
    | some e =>
    rw [he] at hd
    exact ⟨e, rfl, hd⟩
  obtain ⟨hlt, rfl⟩ := List.getElem?_eq_some_iff.mp he
  obtain ⟨hdis, hset⟩ := Bool.and_eq_true_iff.mp hd
  have hl : l = l.take n ++ l[n] :: l.drop (n + 1) := by rw [← drop_eq_getElem_cons hlt, take_append_drop]
  obtain ⟨l₀, e', r', htake, ⟨t, a, k, pre, post, rfl⟩, hopen⟩ := hcov _ _ _ hl hdis
  rw [htake, getLast?_concat] at hr
  obtain rfl : r' = r := Option.some.inj hr
  obtain ⟨row, hm, hs⟩ := any_eq_true.mp hset
  exact hopen ⟨row, hm, hs⟩

def exchanges (req : SummarizeRequest) (s : AssistDB) : List Exch :=
  ((summarize plainService req).served serve s).map fun x => ⟨x.q, x.r, x.pre, x.post⟩

-- one evaluation of both calls
theorem calls_served :
    ((summarize plainService (request false)).okay serve answers fundedAssist = true ∧
      (summarize plainService (request false)).eval serve fundedAssist = (.ok ⟨madeSummary 7, false⟩, paidAssist [7]) ∧
      (summarize plainService (request true)).okay serve answers (paidAssist [7]) = true ∧
      (summarize plainService (request true)).eval serve (paidAssist [7]) = (.ok ⟨madeSummary 8, false⟩, paidAssist [7, 8])) ∧
    (((exchanges (request true) (paidAssist [7])).take 3).getLast?.bind reserved = some reservation ∧
      (exchanges (request true) (paidAssist [7]))[3]?.any (fun e => e.q.dispatches && e.pre.core.ledger.any fun row =>
        row.settles reservation.id.string) = true) ∧ openingRow.idempotencyKey ≠ reserveKey := by
  decide +kernel

theorem first_call : Prog.Runs exec (summarize plainService (request false)) fundedAssist (exchanges (request false) fundedAssist)
    (.ok ⟨madeSummary 7, false⟩) (paidAssist [7]) := by
  obtain ⟨⟨hok, heval, -⟩, -⟩ := calls_served
  have h := Prog.Runs.okay id exec_serve _ _ hok
  rwa [heval] at h

theorem forced_call : Prog.Runs exec (summarize plainService (request true)) (paidAssist [7]) (exchanges (request true) (paidAssist [7]))
    (.ok ⟨madeSummary 8, false⟩) (paidAssist [7, 8]) := by
  obtain ⟨⟨-, -, hok, heval⟩, -⟩ := calls_served
  have h := Prog.Runs.okay id exec_serve _ _ hok
  rwa [heval] at h

/-! ## Sequences of calls -/

/-- **Every dispatch is paid for.**  In any sequence of calls, a call that finds its reserve key unused or its reservation open
dispatches on an open reservation, and if it answers with a new summary the tenant has paid between one token and the amount reserved. -/
theorem dispatch_covered {svc : Service} {s s' : AssistDB} {cs : List Record} (h : Sequence svc s cs s') (hs : Sound s.core)
    {c : Record} (hc : c ∈ cs) (hreuse : Reusable c.req c.pre) :
    Covered c.exchanges ∧
      ∀ resp, c.result = .ok resp → resp.cacheHit = false → Debited c.req.tenantID c.exchanges c.pre c.post := by
  induction h with
  | nil => cases hc
  | invalidate hrun _ ih => exact ih (runs_sound hrun hs) hc
  | summarize hrun _ ih =>
    rcases mem_cons.mp hc with rfl | hc
    · exact summarize_ends hs hreuse _ _ _ hrun
    · exact ih (runs_sound hrun hs) hc

theorem dispatch_covered_first : ∃ l, Sequence plainService fundedAssist
    [⟨request false, l, .ok ⟨madeSummary 7, false⟩, fundedAssist, paidAssist [7]⟩] (paidAssist [7]) ∧
      Covered l ∧ Debited 2 l fundedAssist (paidAssist [7]) := by
  have hseq : Sequence plainService fundedAssist [⟨request false, _, .ok ⟨madeSummary 7, false⟩, fundedAssist, paidAssist [7]⟩]
      (paidAssist [7]) := .summarize first_call (.nil _)
  have hreuse : Reusable (request false) fundedAssist := by
    intro row hrow _ hkey
    rw [mem_singleton.mp hrow] at hkey
    exact absurd hkey calls_served.2.2
  obtain ⟨hcov, hdeb⟩ := dispatch_covered hseq sound_fundedDB (mem_singleton_self _) hreuse
  exact ⟨_, hseq, hcov, hdeb _ rfl rfl⟩

/-- **A forced replay**: the request of a call that has committed is sent again with `Force`.  Reserve and Commit are answered by the rows
of the first call, the model is called once more, a second summary is stored, and nothing is paid for it. -/
theorem forced_replay_unpaid : ∃ c₁ c₂ : Record, Sound c₁.pre.core ∧ Sequence plainService c₁.pre [c₁, c₂] c₂.post ∧
    c₂.req = { c₁.req with force := true } ∧ ¬ Covered c₂.exchanges ∧ (∃ m, c₂.result = .ok ⟨m, false⟩) ∧
      c₂.post.core = c₂.pre.core ∧ ¬ Debited c₂.req.tenantID c₂.exchanges c₂.pre c₂.post := by
  refine ⟨⟨request false, _, .ok ⟨madeSummary 7, false⟩, fundedAssist, paidAssist [7]⟩,
    ⟨request true, _, .ok ⟨madeSummary 8, false⟩, paidAssist [7], paidAssist [7, 8]⟩, sound_fundedDB,
    .summarize first_call (.summarize forced_call (.nil _)), rfl, ?_, ⟨_, rfl⟩, rfl, ?_⟩
  · -- the reservation it dispatches on was committed by the first call
    obtain ⟨-, ⟨hreserved, hsettled⟩, -⟩ := calls_served
    exact not_covered hreserved hsettled
  · rintro ⟨_, -, r, a, -, hc⟩
    obtain ⟨row, hmem, hnew, -⟩ := hc.row
    exact hnew hmem

end Crm.Assist
