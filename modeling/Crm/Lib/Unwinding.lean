import Crm.Lib.Interleave

/-!
# Unwinding — two runs that agree on what is visible

* `Asks A P p`: as long as the answers are in `A`, every request of `p` is in `P`.  A program whose requests read and write only what two stores
  have in common ends in the same result from both (`Asks.eval_same`); one whose requests do not touch it leaves it (`Asks.eval_keeps`).
* `outputs step l s`: a machine that takes one action after the other, with the output of each.  `noninterference` is the unwinding theorem: if hidden
  actions keep what is visible, and visible actions see nothing else, two histories with the same visible actions have the same visible outputs.
-/

namespace Unwinding

open Interleave List Prog

/-! ## Programs -/

section Programs

variable {Req : Type} {Resp : Req → Type} {S α β : Type}

/-- As long as the answers are in `A`, every request is in `P`. -/
def Asks (A : (q : Req) → Resp q → Prop) (P : Req → Prop) : Prog Req Resp α → Prop
  | .ret _ => True
  | .ask q k => P q ∧ ∀ r, A q r → Asks A P (k r)

variable {A : (q : Req) → Resp q → Prop} {P : Req → Prop}

theorem Asks.ret (a : α) : Asks A P (.ret a : Prog Req Resp α) := trivial

theorem Asks.bind {f : α → Prog Req Resp β} (hf : ∀ a, Asks A P (f a)) : ∀ {p : Prog Req Resp α}, Asks A P p → Asks A P (p >>= f)
  | .ret a, _ => hf a
  | .ask _ _, h => ⟨h.1, fun r hr => Asks.bind hf (h.2 r hr)⟩

/-- The requests of a run whose answers are in `A`. -/
theorem Asks.runs {exec : (q : Req) → S → Resp q → S → Prop} {p : Prog Req Resp α} {s s' : S} {l : List (Prog.Exchange Req Resp S)} {a : α}
    (hrun : Prog.Runs exec p s l a s') (h : Asks A P p) (hA : ∀ x ∈ l, A x.q x.r) : ∀ x ∈ l, P x.q := by
  induction hrun with
  | ret a s => exact fun _ hx => absurd hx not_mem_nil
  | ask he _ ih =>
    obtain ⟨ha, hrest⟩ := forall_mem_cons.mp hA
    exact forall_mem_cons.mpr ⟨h.1, ih (h.2 _ ha) hrest⟩

variable {serve : (q : Req) → S → Resp q × S} {R : S → S → Prop}

theorem Asks.eval_same (hA : ∀ q s, A q (serve q s).1)
    (hP : ∀ q s t, P q → R s t → (serve q s).1 = (serve q t).1 ∧ R (serve q s).2 (serve q t).2) :
    ∀ {p : Prog Req Resp α} {s t : S}, Asks A P p → R s t →
      (p.eval serve s).1 = (p.eval serve t).1 ∧ R (p.eval serve s).2 (p.eval serve t).2
  | .ret _, _, _, _, hR => ⟨rfl, hR⟩
  | .ask q k, s, t, h, hR => by
    obtain ⟨hans, hR'⟩ := hP q s t h.1 hR
    rw [eval_ask, eval_ask, ← hans]
    exact Asks.eval_same hA hP (h.2 _ (hA q s)) hR'

theorem Asks.eval_keeps (hA : ∀ q s, A q (serve q s).1) (hP : ∀ q s t, P q → R s t → R (serve q s).2 t) :
    ∀ {p : Prog Req Resp α} {s t : S}, Asks A P p → R s t → R (p.eval serve s).2 t
  | .ret _, _, _, _, hR => hR
  | .ask q k, s, t, h, hR => by
    rw [eval_ask]
    exact Asks.eval_keeps hA hP (h.2 _ (hA q s)) (hP q s t h.1 hR)

end Programs

/-! ## Machines -/

section Machines

variable {Act Out S : Type} (step : Act → S → Out × S)

/-- The actions of a run with their outputs. -/
def outputs : List Act → S → List (Act × Out)
  | [], _ => []
  | a :: l, s => (a, (step a s).1) :: outputs l (step a s).2

variable {step} {vis : Act → Bool} {ok : Act → Prop} {R : S → S → Prop}

/-- What is visible of a run is the run of its visible actions. -/
theorem outputs_purge (hhid : ∀ a s t, ok a → vis a = false → R s t → R (step a s).2 t)
    (hvis : ∀ a s t, ok a → vis a = true → R s t → (step a s).1 = (step a t).1 ∧ R (step a s).2 (step a t).2) :
    ∀ {l : List Act} {s t : S}, (∀ a ∈ l, ok a) → R s t →
      (outputs step l s).filter (fun x => vis x.1) = outputs step (l.filter vis) t
  | [], _, _, _, _ => rfl
  | a :: l, s, t, hok, hR => by
    have ha := hok a mem_cons_self
    have hl : ∀ b ∈ l, ok b := fun b hb => hok b (mem_cons_of_mem a hb)
    cases hv : vis a with
    | false =>
      rw [outputs, filter_cons_of_neg (by simp [hv]), filter_cons_of_neg (by simp [hv])]
      exact outputs_purge hhid hvis hl (hhid a s t ha hv hR)
    | true =>
    obtain ⟨hout, hR'⟩ := hvis a s t ha hv hR
    rw [outputs, filter_cons_of_pos (by simp [hv]), filter_cons_of_pos hv, outputs, hout,
      outputs_purge hhid hvis hl hR']

/-- **Unwinding.**  Two histories with the same visible actions have the same visible outputs. -/
theorem noninterference (hhid : ∀ a s t, ok a → vis a = false → R s t → R (step a s).2 t)
    (hvis : ∀ a s t, ok a → vis a = true → R s t → (step a s).1 = (step a t).1 ∧ R (step a s).2 (step a t).2)
    {l l' : List Act} {s : S} (hR : R s s) (hl : ∀ a ∈ l, ok a) (hl' : ∀ a ∈ l', ok a) (h : l.filter vis = l'.filter vis) :
    (outputs step l s).filter (fun x => vis x.1) = (outputs step l' s).filter (fun x => vis x.1) := by
  rw [outputs_purge hhid hvis hl hR, outputs_purge hhid hvis hl' hR, h]

end Machines

end Unwinding
