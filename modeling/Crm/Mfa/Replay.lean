import Crm.Mfa.Service

/-!
# Crm.Mfa.Replay — a time-based code that is submitted again

A code is in range for three time steps, and an accepted call leaves nothing behind that the next one looks at: `last_verified_at` is only written.
The same code is accepted twice (`code_replayed`).  Between calls that are at least three steps apart the counters increase
(`accepted_counters_increase`).
-/

namespace Crm.Mfa

open Interleave Prog

variable (K : Crypto) (P : Plane)

def ClockReads (t : Time) : (q : Req) → Resp q → Prop
  | .clock, r => r = t
  | _, _ => True

def execAt (t : Time) (q : Req) (db : MfaDB) (r : Resp q) (db' : MfaDB) : Prop := exec K P q db r db' ∧ ClockReads t q r

/-- One call of `Verify`, with its instant and its result. -/
structure Attempt where
  time : Time
  code : String
  result : Except Err Unit

inductive History (userID : UUID) : MfaDB → List Attempt → MfaDB → Prop
  | nil (db : MfaDB) : History userID db [] db
  | cons {db db₁ db₂ : MfaDB} {a : Attempt} {x : List (Exchange Req Resp MfaDB)} {l : List Attempt}
      (hrun : Runs (execAt K P a.time) (verify K userID a.code) db x a.result db₁) (hl : History userID db₁ l db₂) : History userID db (a :: l) db₂

def Attempt.counter (seed : Bytes) (a : Attempt) : Option ℕ :=
  match a.result with
  | .ok () => matched K seed a.code a.time
  | .error _ => none

def Enrolled (userID : UUID) (seed : Bytes) (db : MfaDB) : Prop := ∃ row, db.seeds userID = some row ∧ K.decrypt row.ciphertext = .ok seed

section

variable {K P} {userID : UUID} {seed : Bytes} {db db' : MfaDB} {t : Time} {code : String}

theorem Enrolled.markVerified {r : Except Err Unit} (h : Enrolled K userID seed db) (he : execAt K P t (.markVerified userID) db r db') :
    Enrolled K userID seed db' := by
  obtain ⟨⟨now, htx⟩, -⟩ := he
  rcases htx.store_cases with rfl | ⟨a, hput⟩
  · exact h
  obtain ⟨row, hrow, hdec⟩ := h
  cases hput
  refine ⟨{ row with lastVerifiedAt := some now }, ?_, hdec⟩
  exact (Function.update_self ..).trans (congrArg (Option.map _) hrow)

/-- One call: an accepted code matches a counter within one step of the instant. -/
theorem ensures_verify (h : Enrolled K userID seed db) : Ensures (execAt K P t) (verify K userID code) db fun _ result db' =>
    Enrolled K userID seed db' ∧ (result = .ok () → ∃ c, matched K seed code t = some c ∧ hotp K seed c = code ∧
      Mfa.counter t ≤ c + 1 ∧ c ≤ Mfa.counter t + 1) := by
  simp only [verify, Prog.send_bind, Prog.pure_eq]
  split
  · exact .ret ⟨h, by rintro ⟨⟩⟩
  obtain ⟨row, hrow, hdec⟩ := h
  have henrolled : Enrolled K userID seed db := ⟨row, hrow, hdec⟩
  refine .ask fun r db₁ he => ?_
  obtain ⟨hread, -⟩ := he
  obtain rfl : db₁ = db := hread.1
  cases r with
  | error e =>
    dsimp only
    split_ifs <;> exact .ret ⟨henrolled, by rintro ⟨⟩⟩
  | ok ciphertext =>
  have hload : db₁.loadSeed userID = .ok ciphertext := Read.of_ok hread
  rw [MfaDB.loadSeed, hrow] at hload
  obtain rfl : row.ciphertext = ciphertext := Except.ok.inj hload
  refine .ask fun r db₂ he2 => ?_
  obtain ⟨⟨rfl, hans⟩, -⟩ := he2
  obtain rfl : r = .ok seed := hans.trans hdec
  refine .ask fun now db₃ he3 => ?_
  obtain ⟨rfl, rfl⟩ := he3
  cases hver : totpVerify K seed code now totpVerifyWindow with
  | error e => exact .ret ⟨henrolled, by rintro ⟨⟩⟩
  | ok =>
  refine .ask fun r db₄ he4 => ?_
  have henrolled4 := henrolled.markVerified he4
  cases r with
  | error e => exact .ret ⟨henrolled4, by rintro ⟨⟩⟩
  | ok =>
  refine .ask fun r db₅ he5 => ?_
  obtain ⟨rfl, -⟩ := he5
  cases r with
  | error e => exact .ret ⟨henrolled4, by rintro ⟨⟩⟩
  | ok => exact .ret ⟨henrolled4, fun _ => totpVerify_ok hver⟩

theorem History.accepted {l : List Attempt} (h : History K P userID db l db') (henrolled : Enrolled K userID seed db) :
    ∀ a ∈ l, a.result = .ok () → ∃ c, matched K seed a.code a.time = some c ∧ hotp K seed c = a.code ∧
      Mfa.counter a.time ≤ c + 1 ∧ c ≤ Mfa.counter a.time + 1 := by
  induction h with
  | nil => simp
  | cons hrun _ ih =>
    obtain ⟨hnext, hacc⟩ := ensures_verify henrolled _ _ _ hrun
    exact List.forall_mem_cons.mpr ⟨hacc, ih hnext⟩

end

/-- **Calls far apart.**  When accepted calls are at least three time steps apart, every accepted code is that of one counter, and the counters of the
accepted codes increase from one accepted call to the next. -/
theorem accepted_counters_increase (K : Crypto) (P : Plane) (userID : UUID) (seed : Bytes) (db db' : MfaDB) (henrolled : Enrolled K userID seed db)
    (l : List Attempt) (h : History K P userID db l db')
    (hapart : l.Pairwise fun a b => a.result = .ok () → b.result = .ok () → counter a.time + 2 < counter b.time) :
    (∀ a ∈ l, a.result = .ok () → ∃ c, a.counter K seed = some c ∧ hotp K seed c = a.code) ∧
      (l.filterMap (Attempt.counter K seed)).Pairwise (· < ·) := by
  have hacc := h.accepted henrolled
  refine ⟨fun a ha hok => ?_, List.pairwise_filterMap.mpr ?_⟩
  · obtain ⟨c, hc, hcode, -, -⟩ := hacc a ha hok
    refine ⟨c, ?_, hcode⟩
    rw [Attempt.counter, hok]
    exact hc
  refine hapart.imp_of_mem fun {a b} ha hb hab c hc c' hc' => ?_
  -- only accepted calls have a counter, and it is within one step of their instant
  have hok : ∀ {a : Attempt} {c : ℕ}, a.counter K seed = some c → a.result = .ok () ∧ matched K seed a.code a.time = some c := by
    intro a c hc
    rw [Attempt.counter] at hc
    cases hres : a.result with
    | error e =>
      rw [hres] at hc
      cases hc
    | ok =>
    rw [hres] at hc
    exact ⟨rfl, hc⟩
  obtain ⟨hra, hma⟩ := hok hc
  obtain ⟨hrb, hmb⟩ := hok hc'
  obtain ⟨x, hx, -, -, hle⟩ := hacc a ha hra
  obtain ⟨y, hy, -, hge, -⟩ := hacc b hb hrb
  obtain rfl : x = c := Option.some.inj (hx.symm.trans hma)
  obtain rfl : y = c' := Option.some.inj (hy.symm.trans hmb)
  have := hab hra hrb
  omega

/-! ## The same code twice -/

/-- A code that shows the counter itself: the last bytes of the message come first, and the offset is zero. -/
def counting : Crypto where
  hmacSha1 := fun _ msg => (msg.drop 4 ++ List.replicate 20 0).take 20
  length_sum := fun _ msg => by simp
  decrypt := .ok
  verify := fun stored plain => .ok (stored = plain)

def seed20 : Bytes := List.replicate 20 0

/-- Up to a million counters have different codes. -/
theorem hotp_counting {c : ℕ} (h : c < 10 ^ 6) : hotp counting seed20 c = String.ofList (Calendar.pad 6 c) := by
  have hbin : (UInt8.ofNat (c / 256 ^ 3)).toNat % 128 * 2 ^ 24 + (UInt8.ofNat (c / 256 ^ 2)).toNat * 2 ^ 16 +
      (UInt8.ofNat (c / 256 ^ 1)).toNat * 2 ^ 8 + (UInt8.ofNat (c / 256 ^ 0)).toNat = c := by
    simp only [UInt8.toNat_ofNat']
    omega
  have hcode : hotp counting seed20 c = String.ofList (Calendar.pad 6 (((UInt8.ofNat (c / 256 ^ 3)).toNat % 128 * 2 ^ 24 +
      (UInt8.ofNat (c / 256 ^ 2)).toNat * 2 ^ 16 + (UInt8.ofNat (c / 256 ^ 1)).toNat * 2 ^ 8 + (UInt8.ofNat (c / 256 ^ 0)).toNat) % 10 ^ 6)) := rfl
  rw [hcode, hbin, Nat.mod_eq_of_lt h]

theorem hotp_counting_inj {c c' : ℕ} (hc : c < 10 ^ 6) (hc' : c' < 10 ^ 6) (h : hotp counting seed20 c = hotp counting seed20 c') : c = c' := by
  rw [hotp_counting hc, hotp_counting hc'] at h
  exact Calendar.pad_injective (String.ofList_injective h)

def minuteOne : Time := 60000000000

def minuteTwoAndHalf : Time := 150000000000

def enrolledDB (lastVerifiedAt : Option Time) : MfaDB := ⟨Function.update (fun _ => none) 7 (some ⟨seed20, false, lastVerifiedAt⟩), []⟩

theorem enrolled_seed20 (lastVerifiedAt : Option Time) : Enrolled counting 7 seed20 (enrolledDB lastVerifiedAt) := ⟨_, rfl, rfl⟩

theorem accepts {t : Time} {code : String} (hcode : totpVerify counting seed20 code t totpVerifyWindow = .ok ()) (lastVerifiedAt : Option Time) :
    ∃ x, Runs (execAt counting .tenant t) (verify counting 7 code) (enrolledDB lastVerifiedAt) x (.ok ()) (enrolledDB (some t)) := by
  have hstore : (enrolledDB lastVerifiedAt).updateSeed 7 (fun row => { row with lastVerifiedAt := some t }) = .ok ((), enrolledDB (some t)) := by
    simp [MfaDB.updateSeed, enrolledDB]
  have hload : execAt counting .tenant t (.loadSeed 7) (enrolledDB lastVerifiedAt) (.ok seed20) (enrolledDB lastVerifiedAt) :=
    ⟨⟨rfl, .inl rfl⟩, trivial⟩
  have hdecrypt : execAt counting .tenant t (.decrypt seed20) (enrolledDB lastVerifiedAt) (.ok seed20) (enrolledDB lastVerifiedAt) :=
    ⟨⟨rfl, rfl⟩, trivial⟩
  have hclock : execAt counting .tenant t .clock (enrolledDB lastVerifiedAt) t (enrolledDB lastVerifiedAt) := ⟨rfl, rfl⟩
  have hmark : execAt counting .tenant t (.markVerified 7) (enrolledDB lastVerifiedAt) (.ok ()) (enrolledDB (some t)) :=
    ⟨⟨t, .done hstore⟩, trivial⟩
  have hlog : execAt counting .tenant t (.log .verified 7) (enrolledDB (some t)) (.ok ()) (enrolledDB (some t)) := ⟨rfl, trivial⟩
  refine Runs.cons hload (Runs.cons hdecrypt (Runs.cons hclock ?_))
  simp only [Prog.bind, hcode]
  exact Runs.cons hmark (Runs.cons hlog ⟨[], .ret _ _⟩)

def twoAttempts : List Attempt := [⟨minuteOne, "000002", .ok ()⟩, ⟨minuteTwoAndHalf, "000005", .ok ()⟩]

theorem accepted_counters_increase_twice : ∃ db', History counting .tenant 7 (enrolledDB none) twoAttempts db' ∧
    twoAttempts.filterMap (Attempt.counter counting seed20) = [2, 5] ∧
    (twoAttempts.filterMap (Attempt.counter counting seed20)).Pairwise (· < ·) := by
  have hfirst : totpVerify counting seed20 "000002" minuteOne totpVerifyWindow = .ok () := by decide +kernel
  have hsecond : totpVerify counting seed20 "000005" minuteTwoAndHalf totpVerifyWindow = .ok () := by decide +kernel
  obtain ⟨x, hrun⟩ := accepts hfirst none
  obtain ⟨y, hrun'⟩ := accepts hsecond (some minuteOne)
  have h : History counting .tenant 7 (enrolledDB none) twoAttempts (enrolledDB (some minuteTwoAndHalf)) := .cons hrun (.cons hrun' (.nil _))
  have hapart : twoAttempts.Pairwise fun a b => a.result = .ok () → b.result = .ok () → counter a.time + 2 < counter b.time := by decide
  exact ⟨_, h, by decide +kernel, (accepted_counters_increase counting .tenant 7 seed20 _ _ (enrolled_seed20 none) _ h hapart).2⟩

/-- **Replay.**  The same code, submitted twice at one instant, is accepted twice, both times at counter 2. -/
theorem code_replayed : (∀ c c' : ℕ, c < 10 ^ 6 → c' < 10 ^ 6 → hotp counting seed20 c = hotp counting seed20 c' → c = c') ∧
    Enrolled counting 7 seed20 (enrolledDB none) ∧
    (∃ db', History counting .tenant 7 (enrolledDB none) [⟨minuteOne, "000002", .ok ()⟩, ⟨minuteOne, "000002", .ok ()⟩] db') ∧
    Attempt.counter counting seed20 ⟨minuteOne, "000002", .ok ()⟩ = some 2 := by
  have hcode : totpVerify counting seed20 "000002" minuteOne totpVerifyWindow = .ok () := by decide +kernel
  obtain ⟨x, hrun⟩ := accepts hcode none
  obtain ⟨y, hrun'⟩ := accepts hcode (some minuteOne)
  exact ⟨fun _ _ => hotp_counting_inj, enrolled_seed20 none, ⟨_, .cons hrun (.cons hrun' (.nil _))⟩, by decide +kernel⟩

end Crm.Mfa
