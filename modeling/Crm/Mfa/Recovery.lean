import Crm.Mfa.Service

/-!
# Crm.Mfa.Recovery — a recovery code that two calls submit

`ConsumeRecovery` lists the active codes, compares them with what was submitted and marks the match, in separate steps.  `MarkConsumed` keeps an
earlier `used_at` and answers as it does the first time, so two calls that have both listed a code both succeed (`code_consumed_twice`).
When no other call marks the code between a call's `ListActive` and its `MarkConsumed`, every code is accepted once (`accepted_once`).
-/

namespace Crm.Mfa

open Interleave Prog List

variable (K : Crypto) (P : Plane) (issuer : String)

/-! ## What the history records -/

def Listed (i : ℕ) (userID : UUID) (row : RecoveryCodeRecord) (h : List Ev) : Prop :=
  ∃ rows pre post, .act i (.listActive userID) (.ok rows) pre post ∈ h ∧ row ∈ rows

/-- Call `i` has accepted the code: it was shown it, its hash is one of what was submitted, and it marked it. -/
def Accepted (i : ℕ) (userID : UUID) (submitted : String) (id : UUID) (h : List Ev) : Prop :=
  ∃ canonical row pre post, normalizeRecoveryCode submitted = .ok canonical ∧ Listed i userID row h ∧ row.id = id ∧
    K.verify row.hash canonical = .ok true ∧ .act i (.markConsumed id) (.ok ()) pre post ∈ h

def Inserted (i : ℕ) (userID : UUID) (h : List Ev) : Prop := ∃ hashes pre post, .act i (.insertHashes userID hashes) (.ok ()) pre post ∈ h

/-- What call `i` has done before it sends a request. -/
def Due (i : ℕ) (h : List Ev) : Req → Prop
  | .markConsumed id => ∃ userID row, Listed i userID row h ∧ row.id = id
  | .insertHashes userID hashes => hashes.length = recoveryCodeCount ∧ ∃ n pre post, .act i (.invalidateAll userID) (.ok n) pre post ∈ h
  | _ => True

/-- What the calls have done before their requests and responses. -/
structure Recorded (w : W) : Prop where
  due : ∀ h₁ i q r pre post h₂, w.hist = h₁ ++ .act i q r pre post :: h₂ → Due i h₂ q
  accepted : ∀ i userID submitted ctx, .respond i (.consumeRecovery userID submitted ctx) (.ok ()) ∈ w.hist →
    ∃ id, Accepted K i userID submitted id w.hist
  inserted : ∀ i userID ctx plain, .respond i (.regenerateRecovery userID ctx) (.ok plain) ∈ w.hist → Inserted i userID w.hist

section Record

variable {K P issuer} {allow : W → Ev → Prop} {i : ℕ} {w : W}
variable {userID id : UUID} {row : RecoveryCodeRecord} {h h' : List Ev} {α : Type} {Q : α → W → Prop} {db : MfaDB}

theorem Listed.mono (hl : Listed i userID row h) (hsub : h ⊆ h') : Listed i userID row h' := by
  obtain ⟨rows, pre, post, hmem, hrow⟩ := hl
  exact ⟨rows, pre, post, hsub hmem, hrow⟩

theorem Accepted.mono {submitted : String} (ha : Accepted K i userID submitted id h) (hsub : h ⊆ h') : Accepted K i userID submitted id h' := by
  obtain ⟨canonical, row, pre, post, hn, hl, hid, hv, hmark⟩ := ha
  exact ⟨canonical, row, pre, post, hn, hl.mono hsub, hid, hv, hsub hmark⟩

theorem Inserted.mono (hi : Inserted i userID h) (hsub : h ⊆ h') : Inserted i userID h' := by
  obtain ⟨hashes, pre, post, hmem⟩ := hi
  exact ⟨hashes, pre, post, hsub hmem⟩

/-- One more event, which is a request that is due or a response that is earned. -/
theorem Recorded.after (h : Recorded K w) {e : Ev} (hact : ∀ i q r pre post, e = .act i q r pre post → Due i w.hist q)
    (hacc : ∀ i userID submitted ctx, e = .respond i (.consumeRecovery userID submitted ctx) (.ok ()) → ∃ id, Accepted K i userID submitted id w.hist)
    (hins : ∀ i userID ctx plain, e = .respond i (.regenerateRecovery userID ctx) (.ok plain) → Inserted i userID w.hist) :
    Recorded K (w.after e) where
  due := by
    intro h1 i q r pre post h2 heq
    cases h1 with
    | nil =>
      obtain ⟨rfl, rfl⟩ := List.cons.inj heq
      exact hact i q r pre post rfl
    | cons e' h1 => exact h.due h1 i q r pre post h2 (List.cons.inj heq).2
  accepted := by
    intro i userID submitted ctx hmem
    have hid : ∃ id, Accepted K i userID submitted id w.hist := by
      rcases mem_cons.mp hmem with heq | hmem
      · exact hacc i userID submitted ctx heq.symm
      · exact h.accepted i userID submitted ctx hmem
    obtain ⟨id, hid⟩ := hid
    exact ⟨id, hid.mono (subset_cons_self _ _)⟩
  inserted := by
    intro i userID ctx plain hmem
    have hin : Inserted i userID w.hist := by
      rcases mem_cons.mp hmem with heq | hmem
      · exact hins i userID ctx plain heq.symm
      · exact h.inserted i userID ctx plain hmem
    exact hin.mono (subset_cons_self _ _)

theorem Recorded.act (h : Recorded K w) {q : Req} {r : Resp q} {pre post : MfaDB} (hq : Due i w.hist q) : Recorded K (w.after (.act i q r pre post)) := by
  refine h.after ?_ (by rintro _ _ _ _ ⟨⟩) (by rintro _ _ _ _ ⟨⟩)
  rintro _ _ _ _ _ ⟨⟩
  exact hq

variable (K P issuer allow) in
abbrev Sm (i : ℕ) (Q : α → W → Prop) (p : Client α) (w : W) : Prop := Safe (system K P issuer allow) (.ofHistory (Recorded K)) i Q p w

variable (K P issuer allow) in
abbrev Earned (i : ℕ) (c : Call) (a : Res c) (w : W) : Prop := Responds (system K P issuer allow) (.ofHistory (Recorded K)) i c a w

/-- One request of a call that is due whatever the others have done since. -/
theorem safe_ask {q : Req} {k : Resp q → Client α} (hq : ∀ v : W, w.hist ⊆ v.hist → Due i v.hist q)
    (hk : ∀ (v : W) (r : Resp q) (s' : MfaDB), w.hist ⊆ v.hist → exec K P q v.store r s' → Recorded K (v.after (.act i q r v.store s')) →
      Sm K P issuer allow i Q (k r) (v.after (.act i q r v.store s'))) :
    Sm K P issuer allow i Q (.ask q k) w := by
  intro v hv hinv r s' he _
  have hrec : Recorded K (v.after (.act i q r v.store s')) := hinv.act (hq v fun e hm => hv.1 e hm)
  exact ⟨Spec.ofHistory_keeps rfl hrec, hk v r s' (fun e hm => hv.1 e hm) he hrec⟩

theorem safe_plain {q : Req} {k : Resp q → Client α} (hq : ∀ i h, Due i h q)
    (hk : ∀ (v : W) (r : Resp q), w.hist ⊆ v.hist → Recorded K v → Sm K P issuer allow i Q (k r) v) : Sm K P issuer allow i Q (.ask q k) w :=
  safe_ask (fun v _ => hq i v.hist) fun _ r _ hv _ hrec => hk _ r (fun _ hm => mem_cons_of_mem _ (hv hm)) hrec

theorem safe_ret {a : α} (h : ∀ v : W, w.hist ⊆ v.hist → Q a v) :
    Sm K P issuer allow i Q (.ret a) w := fun v hv _ => h v fun e hm => hv.1 e hm

theorem safe_sends {p : Client α} (hp : p.Sends fun q => ∀ i h, Due i h q) :
    Sm K P issuer allow i (fun _ v => w.hist ⊆ v.hist) p w := by
  refine Safe.of_sends (K := fun v => w.hist ⊆ v.hist) (fun _ _ _ h => h) ?_ ?_ (fun _ hm => hm) hp
  · intro u v hv h e hm
    exact hv.1 e (h hm)
  · intro v q r s' hinv h hq _ _
    exact ⟨Spec.ofHistory_keeps rfl (hinv.act (hq i v.hist)), fun _ hm => mem_cons_of_mem _ (h hm)⟩

theorem safe_generateRecoveryCodes : ∀ (n : ℕ) (w : W), Recorded K w → Sm K P issuer allow i
    (fun a v => w.hist ⊆ v.hist ∧ ∀ codes, a = .ok codes → codes.length = n) (generateRecoveryCodes n) w
  | 0, w, _ => safe_ret fun v hv => ⟨hv, by rintro _ ⟨⟩; rfl⟩
  | n + 1, w, _ => by
    simp only [generateRecoveryCodes, send_bind, pure_eq]
    refine safe_plain (fun _ _ => trivial) fun v r hsub hrec => ?_
    cases r with
    | error e => exact safe_ret fun u hu => ⟨fun _ hm => hu (hsub hm), by rintro _ ⟨⟩⟩
    | ok raw =>
    refine Safe.bind ?_ hrec (safe_generateRecoveryCodes n _ hrec)
    rintro a u - ⟨hu, hlen⟩
    cases a with
    | error e => exact safe_ret fun t ht => ⟨fun _ hm => ht (hu (hsub hm)), by rintro _ ⟨⟩⟩
    | ok codes =>
    refine safe_ret fun t ht => ⟨fun _ hm => ht (hu (hsub hm)), ?_⟩
    rintro _ ⟨⟩
    exact congrArg (· + 1) (hlen codes rfl)

theorem safe_hashCodes (call : String) : ∀ (codes : List String) (n : ℕ) (w : W), Recorded K w →
    Sm K P issuer allow i
      (fun a v => w.hist ⊆ v.hist ∧ ∀ hashes, a = .ok hashes → hashes.length = codes.length) (hashCodes call n codes) w
  | [], n, w, _ => safe_ret fun v hv => ⟨hv, by rintro _ ⟨⟩; rfl⟩
  | code :: codes, n, w, _ => by
    simp only [hashCodes, send_bind, pure_eq]
    refine safe_plain (fun _ _ => trivial) fun v r hsub hrec => ?_
    cases r with
    | error e => exact safe_ret fun u hu => ⟨fun _ hm => hu (hsub hm), by rintro _ ⟨⟩⟩
    | ok h =>
    refine Safe.bind ?_ hrec (safe_hashCodes call codes (n + 1) _ hrec)
    rintro a u - ⟨hu, hlen⟩
    cases a with
    | error e => exact safe_ret fun t ht => ⟨fun _ hm => ht (hu (hsub hm)), by rintro _ ⟨⟩⟩
    | ok hashes =>
    refine safe_ret fun t ht => ⟨fun _ hm => ht (hu (hsub hm)), ?_⟩
    rintro _ ⟨⟩
    exact congrArg (· + 1) (hlen hashes rfl)

/-- A new batch has the right size and comes after the old ones have been invalidated. -/
theorem safe_storeCodes {call generate : String} (hrec : Recorded K w) (hinv : ∃ n pre post, .act i (.invalidateAll userID) (.ok n) pre post ∈ w.hist) :
    Sm K P issuer allow i (fun a v => ∀ plain, a = .ok plain → Inserted i userID v.hist)
      (storeCodes call generate userID) w := by
  refine Safe.bind ?_ hrec (safe_generateRecoveryCodes recoveryCodeCount w hrec)
  rintro a v hrec1 ⟨hv, hlen⟩
  cases a with
  | error e => exact safe_ret fun _ _ => by rintro _ ⟨⟩
  | ok plain =>
  refine Safe.bind ?_ hrec1 (safe_hashCodes call plain 0 v hrec1)
  rintro a u hrec2 ⟨hu, hlen'⟩
  cases a with
  | error e => exact safe_ret fun _ _ => by rintro _ ⟨⟩
  | ok hashes =>
  refine safe_ask (fun t ht => ⟨(hlen' hashes rfl).trans (hlen plain rfl), ?_⟩) fun t r s' _ _ _ => ?_
  · obtain ⟨n, pre, post, hmem⟩ := hinv
    exact ⟨n, pre, post, ht (hu (hv hmem))⟩
  · cases r with
    | error e => exact safe_ret fun _ _ => by rintro _ ⟨⟩
    | ok => exact safe_ret fun x hx _ _ => ⟨hashes, _, _, hx mem_cons_self⟩

theorem safe_walk (canonical : String) : ∀ (rows : List RecoveryCodeRecord) (n : ℕ) (found : Option (ℕ × RecoveryCodeRecord)) (w : W),
    Sm K P issuer allow i (fun a v => w.hist ⊆ v.hist ∧
      ∀ x, a = .ok (some x) → found = some x ∨ (x.2 ∈ rows ∧ K.verify x.2.hash canonical = .ok true)) (walk canonical n found rows) w
  | [], n, found, w => safe_ret fun v hv => ⟨hv, fun x hx => .inl (Except.ok.inj hx)⟩
  | row :: rows, n, found, w => by
    refine safe_ask (fun _ _ => trivial) fun v r s' hv he _ => ?_
    have hsub : w.hist ⊆ (v.after (.act i (.verifyHash row.hash canonical) r v.store s')).hist := fun _ hm => mem_cons_of_mem _ (hv hm)
    cases r with
    | error e => exact safe_ret fun u hu => ⟨fun _ hm => hu (hsub hm), by rintro _ ⟨⟩⟩
    | ok ok =>
    refine Safe.mono ?_ (safe_walk canonical rows (n + 1) _ _)
    rintro a u - ⟨hu, hfound⟩
    refine ⟨fun _ hm => hu (hsub hm), fun x hx => ?_⟩
    rcases hfound x hx with hx | ⟨hmem, hverify⟩
    · split_ifs at hx with hhit
      · -- this row is the first match
        obtain rfl := Option.some.inj hx
        refine .inr ⟨mem_cons_self, ?_⟩
        rw [← hhit.1]
        exact he.2.symm
      · exact .inl hx
    · exact .inr ⟨mem_cons_of_mem _ hmem, hverify⟩

theorem responds {c : Call} {a : Res c}
    (hacc : ∀ userID submitted ctx, (.respond i c a : Ev) = .respond i (.consumeRecovery userID submitted ctx) (.ok ()) →
      ∃ id, Accepted K i userID submitted id w.hist)
    (hins : ∀ userID ctx plain, (.respond i c a : Ev) = .respond i (.regenerateRecovery userID ctx) (.ok plain) → Inserted i userID w.hist)
    (h : Recorded K w) : Earned K P issuer allow i c a w := by
  intro _
  refine Spec.ofHistory_keeps rfl (h.after (by rintro _ _ _ _ _ ⟨⟩) ?_ ?_)
  · intro j userID submitted ctx heq
    obtain rfl : i = j := congrArg Event.tid heq
    exact hacc userID submitted ctx heq
  · intro j userID ctx plain heq
    obtain rfl : i = j := congrArg Event.tid heq
    exact hins userID ctx plain heq

theorem safe_consumeRecovery (userID : UUID) (submitted : String) (ctx : RequestContext) (w : W) :
    Sm K P issuer allow i (Earned K P issuer allow i
      (.consumeRecovery userID submitted ctx)) (consumeRecovery userID submitted ctx) w := by
  have hfail : ∀ (e : Err) (v : W), Sm K P issuer allow i (Earned K P issuer allow i (.consumeRecovery userID submitted ctx)) (.ret (.error e)) v :=
    fun e v u _ hinv => responds (by rintro _ _ _ ⟨⟩) (by rintro _ _ _ ⟨⟩) hinv
  simp only [consumeRecovery, send_bind, pure_eq]
  split
  · exact hfail _ w
  cases hcanonical : normalizeRecoveryCode submitted with
  | error e => exact hfail _ w
  | ok canonical =>
  refine safe_ask (fun _ _ => trivial) fun v r s' hv he hrec1 => ?_
  cases r with
  | error e => exact hfail _ _
  | ok rows =>
  refine Safe.bind ?_ hrec1 (safe_walk canonical rows 0 none _)
  rintro a u - ⟨hu, hfound⟩
  have hlisting := hu mem_cons_self
  cases a with
  | error e => exact hfail _ u
  | ok found =>
  cases found with
  | none => exact hfail _ u
  | some x =>
  obtain ⟨index, row⟩ := x
  obtain ⟨hmem, hverify⟩ := (hfound (index, row) rfl).resolve_left (by rintro ⟨⟩)
  have hlisted : Listed i userID row u.hist := ⟨rows, _, _, hlisting, hmem⟩
  refine safe_ask (fun t ht => ⟨userID, row, hlisted.mono ht, rfl⟩) fun t r s' ht _ _ => ?_
  cases r with
  | error e => exact hfail _ _
  | ok =>
  -- from here on the call has marked the code
  have haccepted : Accepted K i userID submitted row.id (t.after (.act i (.markConsumed row.id) (.ok ()) t.store s')).hist :=
    ⟨canonical, row, _, _, hcanonical, hlisted.mono fun _ hm => mem_cons_of_mem _ (ht hm), rfl, hverify, mem_cons_self⟩
  refine Safe.mono ?_ (safe_sends ?_)
  · intro a x hrec2 hx
    refine responds ?_ (by rintro _ _ _ ⟨⟩) hrec2
    rintro _ _ _ ⟨⟩
    exact ⟨row.id, haccepted.mono hx⟩
  refine .ask (fun _ _ => trivial) fun r => ?_
  cases r with
  | error e => exact .ret _
  | ok =>
  refine .ask (fun _ _ => trivial) fun r => ?_
  cases r with
  | error e => exact .ret _
  | ok => exact (sends_alertOrRecord (fun _ _ _ => trivial) (fun _ _ _ _ _ => trivial) _).bind fun _ => .ret _

theorem safe_regenerateRecovery (userID : UUID) (ctx : RequestContext) (w : W) :
    Sm K P issuer allow i (Earned K P issuer allow i
      (.regenerateRecovery userID ctx)) (regenerateRecovery userID ctx) w := by
  have hfail : ∀ (e : Err) (v : W), Sm K P issuer allow i (Earned K P issuer allow i (.regenerateRecovery userID ctx)) (.ret (.error e)) v :=
    fun e v u _ hinv => responds (by rintro _ _ _ ⟨⟩) (by rintro _ _ _ ⟨⟩) hinv
  simp only [regenerateRecovery, send_bind, pure_eq]
  split
  · exact hfail _ w
  refine safe_ask (fun _ _ => trivial) fun v r s' _ _ hrec => ?_
  cases r with
  | error e => exact hfail _ _
  | ok n =>
  refine Safe.bind ?_ hrec (safe_storeCodes hrec ⟨n, _, _, mem_cons_self⟩)
  intro a u _ hinserted
  cases a with
  | error e => exact hfail _ u
  | ok plain =>
  refine Safe.mono ?_ (safe_sends ?_)
  · intro a x hrec1 hx
    refine responds (by rintro _ _ _ ⟨⟩) ?_ hrec1
    rintro _ _ _ ⟨⟩
    exact (hinserted plain rfl).mono hx
  refine .ask (fun _ _ => trivial) fun r => ?_
  cases r with
  | error e => exact .ret _
  | ok => exact (sends_alertOrRecord (fun _ _ _ => trivial) (fun _ _ _ _ _ => trivial) _).bind fun _ => .ret _

theorem safe_enroll (userID : UUID) (label : String) (w : W) : Sm K P issuer allow i (fun _ _ => True) (enroll issuer userID label) w := by
  simp only [enroll, send_bind, pure_eq]
  split
  · exact .stop
  split
  · exact .stop
  refine safe_plain (fun _ _ => trivial) fun v r _ _ => ?_
  cases r with
  | error e => exact .stop
  | ok seed =>
  refine safe_plain (fun _ _ => trivial) fun v r _ _ => ?_
  cases r with
  | error e => exact .stop
  | ok ciphertext =>
  refine safe_plain (fun _ _ => trivial) fun v r _ _ => ?_
  cases r with
  | error e => exact .stop
  | ok =>
  refine safe_ask (fun _ _ => trivial) fun v r s' _ _ hrec => ?_
  cases r with
  | error e => exact .stop
  | ok n =>
  refine Safe.bind ?_ hrec (safe_storeCodes hrec ⟨n, _, _, mem_cons_self⟩)
  intro a u _ _
  cases a with
  | error e => exact .stop
  | ok plain =>
  dsimp only
  cases otpAuthURI issuer label seed with
  | error e => exact .stop
  | ok uri =>
  dsimp only
  cases encodeSecret seed with
  | error e => exact .stop
  | ok encoded =>
  refine safe_plain (fun _ _ => trivial) fun v r _ _ => ?_
  cases r <;> exact .stop

theorem sends_verify (userID : UUID) (code : String) : (verify K userID code).Sends fun q => ∀ i h, Due i h q := by
  simp only [verify, send_bind, pure_eq]
  split
  · exact .ret _
  refine .ask (fun _ _ => trivial) fun r => ?_
  cases r with
  | error e =>
    dsimp only
    split_ifs <;> exact .ret _
  | ok ciphertext =>
  refine .ask (fun _ _ => trivial) fun r => ?_
  cases r with
  | error e => exact .ret _
  | ok seed =>
  refine .ask (fun _ _ => trivial) fun now => ?_
  cases totpVerify K seed code now totpVerifyWindow with
  | error e => exact .ret _
  | ok =>
  refine .ask (fun _ _ => trivial) fun r => ?_
  cases r with
  | error e => exact .ret _
  | ok =>
  refine .ask (fun _ _ => trivial) fun r => ?_
  cases r <;> exact .ret _

/-- **The record.**  Whatever the calls and their order, what the history says of them is earned. -/
theorem recorded {σ : Conf Req Resp MfaDB Call Res} (hr : Reach (system K P issuer allow) db σ) : Recorded K σ.world := by
  have hverified : Verified (system K P issuer allow) (.ofHistory (Recorded K)) := by
    intro w i c hinv _ _
    have hrec : Recorded K (w.after (.invoke i c)) := hinv.after (by rintro _ _ _ _ _ ⟨⟩) (by rintro _ _ _ _ ⟨⟩) (by rintro _ _ _ _ ⟨⟩)
    refine ⟨Spec.ofHistory_keeps rfl hrec, ?_⟩
    cases c with
    | enroll userID label => exact Safe.mono (fun _ _ hv _ => responds (by rintro _ _ _ ⟨⟩) (by rintro _ _ _ ⟨⟩) hv) (safe_enroll userID label _)
    | verify userID code =>
      exact Safe.mono (fun _ _ hv _ => responds (by rintro _ _ _ ⟨⟩) (by rintro _ _ _ ⟨⟩) hv) (safe_sends (sends_verify userID code))
    | consumeRecovery userID submitted ctx => exact safe_consumeRecovery userID submitted ctx _
    | regenerateRecovery userID ctx => exact safe_regenerateRecovery userID ctx _
  refine hverified.inv ⟨?_, by simp, by simp⟩ hr
  intro h1 i q r pre post h2 heq
  cases h1 <;> cases heq

/-! ## A code that is marked -/

theorem listed_active {rows : List RecoveryCodeRecord} {db' : MfaDB} (he : Read Err.fault db (.ok (db.listActive userID)) (.ok rows) db')
    (hrow : row ∈ rows) : db' = db ∧ ∃ code ∈ db.active userID, code.id = row.id := by
  obtain rfl : db.listActive userID = rows := Except.ok.inj (Read.of_ok he)
  obtain ⟨code, hcode, rfl⟩ := MfaDB.mem_listActive.mp hrow
  exact ⟨he.1, code, hcode, rfl⟩

theorem spent_markConsumed {db' : MfaDB} (he : exec K P (.markConsumed id) db (.ok ()) db') (hid : id ∈ db.codes.map CodeRow.id) (userID : UUID) :
    Spent userID id db' := by
  refine ⟨ids_kept he hid, fun row hrow => ?_⟩
  obtain ⟨now, htx⟩ := he
  have hput := htx.of_ok
  unfold MfaDB.markConsumed at hput
  split_ifs at hput
  cases hput
  obtain ⟨hmem, hactive⟩ := mem_filter.mp hrow
  obtain ⟨old, -, rfl⟩ := mem_map.mp hmem
  by_cases hold : old.id = id
  · rw [if_pos hold, CodeRow.use_activeFor] at hactive
    cases hactive
  · rw [if_neg hold]
    exact hold

variable {db : MfaDB} {σ : Conf Req Resp MfaDB Call Res}

theorem spent_of_marked (hr : Reach (system K P issuer allow) db σ) {j : ℕ} {pre post : MfaDB}
    (hmark : .act j (.markConsumed id) (.ok ()) pre post ∈ σ.world.hist) (userID : UUID) : Spent userID id σ.world.store := by
  obtain ⟨h1, h2, h⟩ := append_of_mem hmark
  obtain ⟨owner, row, ⟨rows, pre', post', hlist, hrow⟩, rfl⟩ := (recorded hr).due h1 j _ _ pre post h2 h
  obtain ⟨σ', hr', hw, he, -⟩ := hr.act_split h
  -- the code has been in the table since it was listed
  have hid : row.id ∈ pre.codes.map CodeRow.id := by
    obtain ⟨l₁, l₂, hl⟩ := append_of_mem hlist
    have hl' : σ'.world.hist = l₁ ++ .act j (.listActive owner) (.ok rows) pre' post' :: l₂ := by rw [hw, hl]
    obtain ⟨-, -, -, he', -⟩ := hr'.act_split hl'
    obtain ⟨rfl, code, hcode, hcodeid⟩ := listed_active he' hrow
    have hpost : row.id ∈ post'.codes.map CodeRow.id := hcodeid ▸ mem_map_of_mem (mem_filter.mp hcode).1
    have hpre := hr'.since (I := fun db => row.id ∈ db.codes.map CodeRow.id) hl' hpost fun _ _ _ _ _ _ he hid => ids_kept he hid
    rw [hw] at hpre
    exact hpre
  exact hr.since h (spent_markConsumed (K := K) he hid userID) fun _ _ _ _ _ _ he hs => hs.kept he

end Record

/-! ## At most once -/

/-- Between a call's `ListActive` and its `MarkConsumed` no call marks the same code. -/
def Undisturbed (w : W) : Ev → Prop
  | .act i (.markConsumed id) _ _ _ => ∀ h₁ h₂ userID (r : Resp (.listActive userID)) pre post,
      w.hist = h₁ ++ .act i (.listActive userID) r pre post :: h₂ → ∀ j pre' post', .act j (.markConsumed id) (.ok ()) pre' post' ∉ h₁
  | _ => True

section

variable {K P issuer} {db : MfaDB} {σ : Conf Req Resp MfaDB Call Res}

theorem marked_first (hr : Reach (system K P issuer Undisturbed) db σ) {i j : ℕ} {id : UUID} {r : Resp (.markConsumed id)} {pre post pre' post' : MfaDB}
    {h1 h2 : List Ev} (h : σ.world.hist = h1 ++ .act i (.markConsumed id) r pre post :: h2) :
    .act j (.markConsumed id) (.ok ()) pre' post' ∉ h2 := by
  intro hmark
  obtain ⟨owner, row, ⟨rows, pre₀, post₀, hlist, hrow⟩, rfl⟩ := (recorded hr).due h1 i _ _ pre post h2 h
  obtain ⟨σ', hr', hw, -, hallow⟩ := hr.act_split h
  obtain ⟨l₁, l₂, hl⟩ := append_of_mem hlist
  have hl' : σ'.world.hist = l₁ ++ .act i (.listActive owner) (.ok rows) pre₀ post₀ :: l₂ := by rw [hw, hl]
  -- the other mark is older than the listing, so the code was spent when it was listed
  rw [hl] at hmark
  have hold : .act j (.markConsumed row.id) (.ok ()) pre' post' ∈ l₂ := by
    rcases mem_append.mp hmark with hm | hm
    · exact absurd hm (hallow l₁ l₂ owner _ _ _ hl' j pre' post')
    · rcases mem_cons.mp hm with hm | hm
      · cases hm
      · exact hm
  obtain ⟨σ'', hr'', hw', he, -⟩ := hr'.act_split hl'
  have hspent := spent_of_marked hr'' (by rw [hw']; exact hold) owner
  rw [hw'] at hspent
  obtain ⟨-, code, hcode, hid⟩ := listed_active he hrow
  exact hspent.2 code hcode hid

end

def plain : Crypto where
  hmacSha1 := fun _ _ => List.replicate 20 0
  length_sum := fun _ _ => rfl
  decrypt := .ok
  verify := fun stored submitted => .ok (stored = submitted)

def nextIDs (db : MfaDB) (n : ℕ) : List UUID := (List.range n).map fun k => BitVec.ofNat 128 (db.codes.length + k + 1)

/-- Every request succeeds that can.  Random bytes repeat the size of the table. -/
def serve (P : Plane) : (q : Req) → MfaDB → Resp q × MfaDB
  | .readRandom n, db => (.ok (List.replicate n (UInt8.ofNat db.codes.length)), db)
  | .encrypt seed, db => (.ok seed, db)
  | .decrypt ciphertext, db => (plain.decrypt ciphertext, db)
  | .hash code, db => (.ok code, db)
  | .verifyHash stored submitted, db => (plain.verify stored submitted, db)
  | .clock, db => ((0 : Time), db)
  | .storeSeed userID ciphertext, db => Tx.run db (db.storeSeed P userID ciphertext)
  | .loadSeed userID, db => (db.loadSeed userID, db)
  | .markVerified userID, db => Tx.run db (db.updateSeed userID fun row => { row with lastVerifiedAt := some 0 })
  | .markReenrollRequired userID, db => Tx.run db (db.updateSeed userID fun row => { row with reenrollRequired := true })
  | .insertHashes userID hashes, db => Tx.run db (db.insertHashes P (nextIDs db hashes.length) userID hashes)
  | .listActive userID, db => (.ok (db.listActive userID), db)
  | .markConsumed codeID, db => Tx.run db (db.markConsumed P 0 codeID)
  | .invalidateAll userID, db => Tx.run db (db.invalidateAll P 0 userID)
  | .log _ _, db => (.ok (), db)
  | .logMFARequired _ _ _, db => (.ok (), db)
  | .alert _, db => (.ok (), db)

theorem exec_serve (P : Plane) (q : Req) (db : MfaDB) : exec plain P q db (serve P q db).1 (serve P q db).2 := by
  cases q with
  | readRandom n =>
    refine ⟨rfl, ?_⟩
    rintro _ ⟨⟩
    exact length_replicate
  | decrypt ciphertext => exact ⟨rfl, rfl⟩
  | verifyHash stored submitted => exact ⟨rfl, rfl⟩
  | loadSeed userID => exact ⟨rfl, .inl rfl⟩
  | listActive userID => exact ⟨rfl, .inl rfl⟩
  | storeSeed userID ciphertext => exact Tx.of_run _ _
  | markVerified userID => exact ⟨0, Tx.of_run _ _⟩
  | markReenrollRequired userID => exact Tx.of_run _ _
  | insertHashes userID hashes => exact ⟨_, by simp [nextIDs], Tx.of_run _ _⟩
  | markConsumed codeID => exact ⟨0, Tx.of_run _ _⟩
  | invalidateAll userID => exact ⟨0, Tx.of_run _ _⟩
  | encrypt _ => rfl
  | hash _ => rfl
  | clock => rfl
  | log _ _ => rfl
  | logMFARequired _ _ _ => rfl
  | alert _ => rfl

def oneCode : MfaDB := ⟨fun _ => none, [⟨1, 7, "AAAAABBBBB", none⟩]⟩

def noContext : RequestContext := ⟨"", "", ""⟩

abbrev consumeOne : Call := .consumeRecovery 7 "aaaaa-bbbbb" noContext

deriving instance DecidableEq for Call

def unmarked (w : W) : Ev → Bool
  | .act _ (.markConsumed _) _ _ _ => w.hist.all fun
    | .act _ (.markConsumed _) _ _ _ => false
    | _ => true
  | _ => true

theorem undisturbed_of_unmarked (w : W) (e : Ev) (h : unmarked w e) : Undisturbed w e := by
  unfold Undisturbed
  split
  · intro h1 h2 userID r pre post heq j pre' post' hm
    cases all_eq_true.mp h _ (heq ▸ mem_append_left _ hm)
  · trivial

end Crm.Mfa
