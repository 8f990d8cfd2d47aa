import Crm.Billing.Tiling

/-!
# Months — what a renewal does to the calendar

`RenewSubscription` moves a period end by `AddDate(0, 1, 0)` and keeps no other record of the day on which the subscription renews.  A chain
of renewals reaches the months one by one as long as each of them has that day (`renewals_monthly`); the 31st of January is renewed to the
3rd of March, and the day is lost (`february_skipped`).
-/

namespace Crm.Billing

open Calendar

open BillingDB

def month (t : Time) : ℤ := monthOf (dateOf t)

def dayOfMonth (t : Time) : ℤ := dateOf t - monthStart (month t) + 1

def monthDays (k : ℤ) : ℤ := monthStart (k + 1) - monthStart k

theorem month_timestamptz (t : Time) : month (timestamptz t) = month t := by
  rw [month, dateOf_timestamptz, month]

theorem dayOfMonth_timestamptz (t : Time) : dayOfMonth (timestamptz t) = dayOfMonth t := by
  rw [dayOfMonth, dateOf_timestamptz, month_timestamptz, dayOfMonth]

/-- **One renewal**: the next month, exactly if it has the day. -/
theorem month_nextMonth (t : Time) : month (nextMonth t) = month t + 1 ↔ dayOfMonth t ≤ monthDays (month t + 1) := by
  have h := monthOf_addMonths_one t
  unfold month dayOfMonth monthDays nextMonth at *
  rw [h]
  exact Int.lt_iff_add_one_le

theorem dayOfMonth_nextMonth {t : Time} (h : dayOfMonth t ≤ monthDays (month t + 1)) : dayOfMonth (nextMonth t) = dayOfMonth t := by
  have hm := (month_nextMonth t).mpr h
  unfold dayOfMonth
  rw [hm, nextMonth, addMonths_eq, dateOf_add]
  unfold month
  omega

/-- `n` successive renewals of a subscription lead from the period end `t₀` to `t`.  Each is a call of `RenewSubscription` that commits, in
any state of the store, at the period end that the one before it has left in the row. -/
inductive Renewals (subID : UUID) (t₀ : Time) : ℕ → Time → Prop
  | nil : Renewals subID t₀ 0 t₀
  | renew {n : ℕ} {t now : Time} {planPriceCents : ℤ} {invoiceID : UUID} {s s' : BillingDB} {res : RenewResult} (h : Renewals subID t₀ n t)
      (hok : s.renewSubscription subID t planPriceCents now invoiceID = .ok (res, s')) : Renewals subID t₀ (n + 1) (timestamptz res.newPeriodEnd)

theorem newPeriodEnd_eq {subID invoiceID : UUID} {t now : Time} {planPriceCents : ℤ} {s s' : BillingDB} {res : RenewResult}
    (hok : s.renewSubscription subID t planPriceCents now invoiceID = .ok (res, s')) : res.newPeriodEnd = nextMonth t := by
  obtain ⟨sub, -, -, -, -, -, rfl, -⟩ := renewSubscription_ok hok
  rfl

variable {subID : UUID} {t₀ t : Time} {n : ℕ}

theorem Renewals.month_eq (h : Renewals subID t₀ n t) (hday : ∀ k < n, dayOfMonth t₀ ≤ monthDays (month t₀ + k + 1)) :
    month t = month t₀ + n ∧ dayOfMonth t = dayOfMonth t₀ := by
  induction h with
  | nil => simp
  | @renew n t _ _ _ _ _ _ _ hok ih =>
    obtain ⟨hm, hd⟩ := ih fun k hk => hday k (Nat.lt_succ_of_lt hk)
    have hfits : dayOfMonth t ≤ monthDays (month t + 1) := by
      rw [hm, hd]
      exact hday n (Nat.lt_succ_self n)
    rw [newPeriodEnd_eq hok, month_timestamptz, dayOfMonth_timestamptz, (month_nextMonth t).mpr hfits, dayOfMonth_nextMonth hfits, hm, hd]
    exact ⟨by push_cast; ring, rfl⟩

/-- **One renewal per month.**  A chain of `n` renewals advances `n` calendar months, and the next renewal goes on to the month after, if
every month up to that one has the day on which the subscription renews. -/
theorem renewals_monthly (h : Renewals subID t₀ n t) (hday : ∀ k ≤ n, dayOfMonth t₀ ≤ monthDays (month t₀ + k + 1)) :
    month t = month t₀ + n ∧ ∀ {planPriceCents : ℤ} {now : Time} {invoiceID : UUID} {s s' : BillingDB} {res : RenewResult},
      s.renewSubscription subID t planPriceCents now invoiceID = .ok (res, s') → month res.newPeriodEnd = month t + 1 := by
  obtain ⟨hm, hd⟩ := h.month_eq fun k hk => hday k hk.le
  refine ⟨hm, fun hok => ?_⟩
  rw [newPeriodEnd_eq hok, month_nextMonth, hm, hd]
  exact hday n le_rfl

def subAt (t : Time) : BillingDB := ⟨⟨[], [], [], [], [{ januarySub with currentPeriodEnd := t }]⟩, [], []⟩

def renewedAt (t : Time) : RenewResult := renewResult { januarySub with currentPeriodEnd := t } t 9900 7 (70 * day)

theorem renewals_monthly_february : Renewals 3 (27 * day) 1 (58 * day) ∧
    month (58 * day) = month (27 * day) + 1 ∧ month (renewedAt (58 * day)).newPeriodEnd = month (58 * day) + 1 := by
  have hok : ∃ s', (subAt (27 * day)).renewSubscription 3 (27 * day) 9900 (70 * day) 7 =
      .ok (renewedAt (27 * day), s') := ⟨_, rfl⟩
  have hok' : ∃ s', (subAt (58 * day)).renewSubscription 3 (58 * day) 9900 (70 * day) 7 =
      .ok (renewedAt (58 * day), s') := ⟨_, rfl⟩
  obtain ⟨_, hok⟩ := hok
  obtain ⟨_, hok'⟩ := hok'
  have h : Renewals 3 (27 * day) 1 (58 * day) := Renewals.nil.renew hok
  have hthm := renewals_monthly h (by decide)
  exact ⟨h, hthm.1, hthm.2 hok'⟩

/-- **February is skipped.**  A period that ends on the 31st of January is renewed to the 3rd of March. -/
theorem february_skipped : ∃ s', (subAt (30 * day)).renewSubscription 3 (30 * day) 9900 (70 * day) 7 =
      .ok (renewedAt (30 * day), s') ∧
    month (renewedAt (30 * day)).newPeriodEnd = month (30 * day) + 2 :=
  ⟨_, rfl, by decide⟩

end Crm.Billing
