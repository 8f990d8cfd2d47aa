import Crm.Slug.Reservation

/-!
# Crm.Slug.Lifecycle — a released slug stays locked

Histories of releases, master overrides and clock advances.  A released slug is reserved for 365 days (`slug_locked`), but the row stays in the
unique index when the days are over: the slug is then available and cannot be released again (`second_release_fails`).  Two smaller
holes are left out by the condition as well: an override whose audit entry fails has freed the slug all the same, and a reservation made
between two microseconds runs out at the earlier one.
-/

namespace Crm.Slug

open Interleave Text List

inductive Event : Type
  | release (at_ : Time) (rawSlug : String) (byTenantID : UUID) (r : Except Err Reservation)
  | override (at_ : Time) (rawSlug : String) (masterID : UUID) (reason : String) (logged : Except Err Unit) (r : Except Err Reservation)
  | advance (d : ℕ)

inductive Step (T : CaseTables) : State → Event → State → Prop
  | release (P : Ports) (s : State) (rawSlug : String) (byTenantID : UUID) :
      Step T s (.release s.now rawSlug byTenantID (call P (releaseSlug T rawSlug byTenantID) s).1)
        (call P (releaseSlug T rawSlug byTenantID) s).2
  | override (P : Ports) (s : State) (rawSlug : String) (masterID : UUID) (reason : String) :
      Step T s (.override s.now rawSlug masterID reason P.logged (call P (overrideRelease T rawSlug masterID reason) s).1)
        (call P (overrideRelease T rawSlug masterID reason) s).2
  | advance (s : State) (d : ℕ) : Step T s (.advance d) { s with now := s.now + d }

/-- `Run T may s es s'`: the events `es`, newest first and each in `may` where it happens, lead from `s` to `s'`. -/
inductive Run (T : CaseTables) (may : State → Event → Prop) (s : State) : List Event → State → Prop
  | nil : Run T may s [] s
  | cons {es : List Event} {s₁ s₂ : State} {e : Event} (h : Run T may s es s₁) (hs : Step T s₁ e s₂) (hm : may s₁ e) :
      Run T may s (e :: es) s₂

/-- The row of the slug that no master has released has not run out. -/
def Unlapsed (T : CaseTables) (s : State) (rawSlug : String) : Prop :=
  ∀ r ∈ s.table.rows, normalizeSlug T rawSlug = .ok r.slug → r.releasedByMaster = false → timestamptz s.now < r.expiresAt

/-- A slug is released while no reservation of it has run out by itself, the audit log of an override is written, and the clock goes by
microseconds. -/
def Fine (T : CaseTables) (s : State) : Event → Prop
  | .release _ rawSlug _ _ => Unlapsed T s rawSlug
  | .override _ _ _ _ logged _ => logged = .ok ()
  | .advance d => (1000 : ℤ) ∣ d

def Event.Frees (T : CaseTables) (rawSlug : String) : Event → Prop
  | .override _ rawSlug' _ _ _ r => normalizeSlug T rawSlug' = normalizeSlug T rawSlug ∧ ∃ res, r = .ok res
  | _ => False

section Run

variable {T : CaseTables} {may : State → Event → Prop} {s s' s₀ : State} {es es₁ es₂ : List Event} {e : Event}

theorem Run.split (h : Run T may s (es₂ ++ es₁) s') : ∃ s₁, Run T may s es₁ s₁ ∧ Run T may s₁ es₂ s' := by
  induction es₂ generalizing s' with
  | nil => exact ⟨s', h, .nil⟩
  | cons e es₂ ih =>
    cases h with
    | cons h hs hm =>
    obtain ⟨s₁, h1, h2⟩ := ih h
    exact ⟨s₁, h1, .cons h2 hs hm⟩

/-! ## One step -/

variable {r : Row} {rawSlug : String}

theorem Step.keeps_row (hs : Step T s e s') (hf : Fine T s e) (hr : r ∈ s.table.rows) (hslug : normalizeSlug T rawSlug = .ok r.slug)
    (he : ¬ e.Frees T rawSlug) : r ∈ s'.table.rows := by
  cases hs with
  | advance d => exact hr
  | release P _ rawSlug' byTenantID =>
    cases hn : normalizeSlug T rawSlug' with
    | error e =>
      rw [call_releaseSlug_invalid hn]
      exact hr
    | ok slug =>
    by_cases hfree : ∀ r ∈ s.table.rows, r.releasedByMaster = false → r.slug ≠ slug
    · rw [call_releaseSlug_free hn byTenantID hfree]
      exact mem_append_left _ hr
    · rw [(call_releaseSlug_taken hn byTenantID hfree).2]
      exact hr
  | override P _ rawSlug' masterID reason =>
  rcases @call_overrideRelease T P s rawSlug' masterID reason with h | ⟨slug, r', t, hn, hsoft, hst, hres⟩
  · rw [h]
    exact hr
  -- the override succeeds, so its slug is another one
  have hother : r.slug ≠ slug := by
    rintro rfl
    exact he ⟨hn.trans hslug.symm, _, hres hf⟩
  rw [hst]
  unfold Table.softDelete at hsoft
  obtain ⟨a, -, ha⟩ := Option.map_eq_some_iff.mp hsoft
  cases ha
  refine mem_map.mpr ⟨r, hr, ?_⟩
  rw [Table.release, if_neg fun h => hother h.1]

theorem Step.clock (hs : Step T s e s') (hf : Fine T s e) (h : (1000 : ℤ) ∣ s.now) : (1000 : ℤ) ∣ s'.now := by
  cases hs with
  | release P _ rawSlug byTenantID =>
    rw [call_now]
    exact h
  | override P _ rawSlug masterID reason =>
    rw [call_now]
    exact h
  | advance d => exact Int.dvd_add h hf

/-- A release that succeeds leaves a row of its slug for 365 days. -/
theorem Step.released {t : Time} {byTenantID : UUID} {res : Reservation} (hs : Step T s (.release t rawSlug byTenantID (.ok res)) s') :
    ∃ r ∈ s'.table.rows, normalizeSlug T rawSlug = .ok r.slug ∧
      r.releasedByMaster = false ∧ r.expiresAt = timestamptz (t + reservationWindow) ∧ t = s.now := by
  generalize he : Event.release t rawSlug byTenantID (.ok res) = e at hs
  cases hs with
  | advance d => cases he
  | override P _ rawSlug masterID reason => cases he
  | release P _ rawSlug' byTenantID' =>
  injection he with ht hraw hby hres
  subst ht hraw hby
  cases hn : normalizeSlug T rawSlug with
  | error e =>
    rw [call_releaseSlug_invalid hn] at hres
    cases hres
  | ok slug =>
  by_cases hfree : ∀ r ∈ s.table.rows, r.releasedByMaster = false → r.slug ≠ slug
  · rw [call_releaseSlug_free hn byTenantID hfree]
    exact ⟨_, mem_append_right _ (mem_singleton_self _), rfl, rfl, rfl, rfl⟩
  · obtain ⟨e, he⟩ := (call_releaseSlug_taken (P := P) hn byTenantID hfree).1
    rw [he] at hres
    cases hres

/-! ## Whole runs -/

theorem Run.clock (h : Run T (Fine T) s₀ es s) (h0 : (1000 : ℤ) ∣ s₀.now) : (1000 : ℤ) ∣ s.now := by
  induction h with
  | nil => exact h0
  | cons _ hs hm ih => exact hs.clock hm ih

theorem Run.keeps_row (h : Run T (Fine T) s₀ es s) (hr : r ∈ s₀.table.rows) (hslug : normalizeSlug T rawSlug = .ok r.slug)
    (hes : ∀ e ∈ es, ¬ e.Frees T rawSlug) : r ∈ s.table.rows := by
  induction h with
  | nil => exact hr
  | cons _ hs hm ih =>
    have hes := forall_mem_cons.mp hes
    exact hs.keeps_row hm (ih hes.2) hslug hes.1

theorem checkAvailable_reserved (hr : r ∈ s.table.rows) (hslug : normalizeSlug T rawSlug = .ok r.slug) (hm : r.releasedByMaster = false)
    (hexp : timestamptz s.now < r.expiresAt) (P : Ports) : ∃ e, (call P (checkAvailable T rawSlug) s).1 = .error e ∧ e.is .slugReserved = true := by
  have hsome : (s.table.active r.slug (timestamptz s.now)).isSome = true :=
    find?_isSome.mpr ⟨r, hr, by simp [hm, hexp]⟩
  obtain ⟨r', hr'⟩ := Option.isSome_iff_exists.mp hsome
  refine ⟨reservedError (scanReservation r'), by rw [call_checkAvailable hslug, hr'], ?_⟩
  simp [reservedError, Err.is]

/-- An available slug whose reservations have not run out has none. -/
theorem free_of_available {P : Ports} {slug : String} (hslug : normalizeSlug T rawSlug = .ok slug) (hun : Unlapsed T s rawSlug)
    (h : (call P (checkAvailable T rawSlug) s).1 = .ok ()) : ∀ r ∈ s.table.rows, r.releasedByMaster = false → r.slug ≠ slug := by
  rintro r hr hm rfl
  obtain ⟨e, he, -⟩ := checkAvailable_reserved hr hslug hm (hun r hr hslug hm) P
  rw [he] at h
  cases h

end Run

/-- **A released slug stays locked.**  In every history of releases, overrides and clock advances in which slugs are released while no
reservation of them has run out by itself, the audit log of an override is written and the clock goes by microseconds: after a release
that succeeded at `t`, until `t` plus 365 days, the slug is reserved, unless a later override of it succeeded; and a release of a slug that
is available, and has no reservation that has run out, succeeds. -/
theorem slug_locked {T : CaseTables} {s₀ s : State} {es : List Event} (h0 : (1000 : ℤ) ∣ s₀.now) (hrun : Run T (Fine T) s₀ es s) :
    (∀ es₁ es₂ t rawSlug byTenantID res, es = es₂ ++ .release t rawSlug byTenantID (.ok res) :: es₁ →
      (∀ e ∈ es₂, ¬ e.Frees T rawSlug) → s.now < t + reservationWindow → ∀ P rawSlug', normalizeSlug T rawSlug' = normalizeSlug T rawSlug →
        ∃ e, (call P (checkAvailable T rawSlug') s).1 = .error e ∧ e.is .slugReserved = true) ∧
    (∀ P rawSlug byTenantID, Unlapsed T s rawSlug → (call P (checkAvailable T rawSlug) s).1 = .ok () →
      ∃ res, (call P (releaseSlug T rawSlug byTenantID) s).1 = .ok res) := by
  refine ⟨?_, ?_⟩
  · rintro es₁ es₂ t rawSlug byTenantID res rfl hes hnow P rawSlug' hsame
    obtain ⟨s₂, h1, h2⟩ := hrun.split
    cases h1 with
    | @cons _ s₁ _ _ h1 hs hm =>
    obtain ⟨r, hr, hslug, hfalse, hexp, rfl⟩ := hs.released
    have hdvd : (1000 : ℤ) ∣ s₁.now + reservationWindow := Int.dvd_add (h1.clock h0) (by decide)
    refine checkAvailable_reserved (h2.keeps_row hr hslug hes) (hsame.trans hslug) hfalse ?_ P
    rw [hexp, timestamptz_of_dvd hdvd]
    exact lt_of_le_of_lt (timestamptz_le s.now) hnow
  intro P rawSlug byTenantID hun hav
  cases hslug : normalizeSlug T rawSlug with
  | error e =>
    simp only [call, checkAvailable, hslug, Prog.pure_eq, Prog.eval_ret] at hav
    cases hav
  | ok slug =>
  rw [call_releaseSlug_free hslug byTenantID (free_of_available hslug hun hav)]
  exact ⟨_, rfl⟩

def ports : Ports := ⟨1, .ok (), .ok ()⟩

def start : State := ⟨0, ⟨[], by decide⟩⟩

def released : State := (call ports (releaseSlug .ascii "Acme" 7) start).2

def later (days : ℕ) : State := { released with now := released.now + (days * 86400000000000 : ℕ) }

def acme : Reservation := ⟨1, "acme", 0, 7, reservationWindow, 0⟩

theorem released_acme : (call ports (releaseSlug .ascii "Acme" 7) start).1 = .ok acme := by decide +kernel

theorem run_later {may : State → Event → Prop} (days : ℕ) (h : may start (.release 0 "Acme" 7 (.ok acme)))
    (h' : may released (.advance (days * 86400000000000))) :
    Run .ascii may start [.advance (days * 86400000000000), .release 0 "Acme" 7 (.ok acme)] (later days) := by
  have hstep : Step .ascii start (.release 0 "Acme" 7 (.ok acme)) released := released_acme ▸ Step.release ports start "Acme" 7
  exact .cons (.cons .nil hstep h) (.advance released _) h'

theorem slug_locked_acme : ∃ e, (call ports (checkAvailable .ascii " ACME ") (later 364)).1 = .error e ∧ e.is .slugReserved = true := by
  have hday : (1000 : ℤ) ∣ ((364 * 86400000000000 : ℕ) : ℤ) := by decide
  have hrun := @run_later (Fine .ascii) 364 (fun r hr => absurd hr not_mem_nil) hday
  refine (slug_locked (by decide) hrun).1 [] [_] 0 "Acme" 7 acme rfl ?_ (by decide +kernel) ports " ACME " (by decide +kernel)
  rintro e he
  rw [mem_singleton.mp he]
  exact fun h => h

def unlogged : Ports := ⟨1, .error (.other "audit down"), .ok ()⟩

def halfway : State := (call ports (releaseSlug .ascii "Acme" 7) { start with now := 500 }).2

/-- **The second release fails.**  Tenant 7 releases `acme`.  365 days later the slug is available, but it cannot be released: the row that has
run out is still in the index.  (An override that fails because its audit entry cannot be written has freed the slug, and a reservation
made between two microseconds runs out at the earlier one.) -/
theorem second_release_fails :
    (Run .ascii (fun _ _ => True) start [.advance (365 * 86400000000000), .release 0 "Acme" 7 (.ok acme)] (later 365) ∧
      (call ports (checkAvailable .ascii "acme") (later 365)).1 = .ok () ∧
      (call ports (releaseSlug .ascii "acme" 8) (later 365)).1 = .error (.wrap "slugreservation: release" uniqueViolation)) ∧
    (let override := call unlogged (overrideRelease .ascii "acme" 9 "fraud") released
     override.1 = .error (.wrap "slugreservation: override audit" (.other "audit down")) ∧
       (call ports (checkAvailable .ascii "acme") override.2).1 = .ok ()) ∧
    (call ports (checkAvailable .ascii "acme") { halfway with now := 499 + reservationWindow }).1 = .ok () := by
  refine ⟨⟨run_later 365 trivial trivial, ?_, ?_⟩, ?_, ?_⟩
  all_goals decide +kernel

end Crm.Slug
