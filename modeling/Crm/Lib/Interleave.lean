import Mathlib.Data.Nat.Notation
import Mathlib.Logic.Relation
import Mathlib.Logic.Function.Basic
import Mathlib.Tactic.Basic

/-!
# Interleave — client programs interleaved over an atomic store

A client is a `Prog`: it returns, or sends one request to a shared store and goes on with the answer.  Every request
is one atomic step `exec q s r s'` (request `q`, taken in store `s`, may answer `r` and leave `s'`), so a program
with several requests can be overtaken between any two of them.

* `Conf`, `Step`, `Reach`: any number of calls, invoked at any time, interleaved in any order.  A configuration keeps the store, the history of all
  events and what every call has still to do.  A call that is never scheduled again is a crashed one.
* `System.allow`: which events the environment lets happen in which world.
* `Tx`: what a client may see of a transaction when the connection can fail before or after the commit.
* `Safe`, `Verified`: a rely-guarantee logic; `Safe` is closed under what the other calls may do and is proved along the program text.
* `Solo`, `Turn`: runs of one call without being overtaken, and runs given by their schedule.
-/

namespace Interleave

open List Function

/-! ## Programs -/

/-- A client program over requests `Req`, answered in `Resp`. -/
inductive Prog (Req : Type) (Resp : Req → Type) (α : Type) : Type
  | ret (a : α) : Prog Req Resp α
  | ask (q : Req) (k : Resp q → Prog Req Resp α) : Prog Req Resp α

variable {Req : Type} {Resp : Req → Type} {S Call : Type} {Res : Call → Type} {α β : Type}

namespace Prog

def bind : Prog Req Resp α → (α → Prog Req Resp β) → Prog Req Resp β
  | .ret a, f => f a
  | .ask q k, f => .ask q fun r => (k r).bind f

instance : Monad (Prog Req Resp) where
  pure := .ret
  bind := Prog.bind

def send (q : Req) : Prog Req Resp (Resp q) := .ask q .ret

@[simp] theorem pure_eq (a : α) : (pure a : Prog Req Resp α) = .ret a := rfl

@[simp] theorem ret_bind (a : α) (f : α → Prog Req Resp β) : (Prog.ret a >>= f) = f a := rfl

@[simp] theorem ask_bind (q : Req) (k : Resp q → Prog Req Resp α) (f : α → Prog Req Resp β) :
    (Prog.ask q k >>= f) = .ask q fun r => k r >>= f := rfl

@[simp] theorem send_bind (q : Req) (f : Resp q → Prog Req Resp β) : (send q >>= f) = .ask q f := rfl

/-- Run a program alone over a store that answers each request by `serve`. -/
def eval (serve : (q : Req) → S → Resp q × S) : Prog Req Resp α → S → α × S
  | .ret a, s => (a, s)
  | .ask q k, s => (k (serve q s).1).eval serve (serve q s).2

@[simp] theorem eval_ret (serve : (q : Req) → S → Resp q × S) (a : α) (s : S) : (Prog.ret a).eval serve s = (a, s) := rfl

theorem eval_ask (serve : (q : Req) → S → Resp q × S) (q : Req) (k : Resp q → Prog Req Resp α) (s : S) :
    (Prog.ask q k).eval serve s = (k (serve q s).1).eval serve (serve q s).2 := rfl

theorem eval_bind (serve : (q : Req) → S → Resp q × S) (f : α → Prog Req Resp β) :
    ∀ (p : Prog Req Resp α) (s : S), (p >>= f).eval serve s = (f (p.eval serve s).1).eval serve (p.eval serve s).2
  | .ret _, _ => rfl
  | .ask q k, s => eval_bind serve f (k (serve q s).1) (serve q s).2

/-- What is left of the program after `n` requests, with the store they leave. -/
def steps (serve : (q : Req) → S → Resp q × S) : ℕ → Prog Req Resp α → S → Prog Req Resp α × S
  | 0, p, s => (p, s)
  | _ + 1, .ret a, s => (.ret a, s)
  | n + 1, .ask q k, s => steps serve n (k (serve q s).1) (serve q s).2

/-- A program that ends within `n` requests goes on to what follows it. -/
theorem steps_bind {serve : (q : Req) → S → Resp q × S} {f : α → Prog Req Resp β} {a : α} {b : β} {s' : S} (hf : f a = .ret b) :
    ∀ {n : ℕ} {p : Prog Req Resp α} {s : S}, p.steps serve n s = (.ret a, s') → (p >>= f).steps serve n s = (.ret b, s')
  | 0, _, _, h => by
    obtain ⟨rfl, rfl⟩ := Prod.mk.inj h
    exact congrArg (·, _) hf
  | _ + 1, .ret _, _, h => by
    obtain ⟨h, rfl⟩ := Prod.mk.inj h
    cases h
    show steps serve _ (f a) _ = _
    rw [hf]
    rfl
  | n + 1, .ask q k, s, h => steps_bind hf (n := n) (p := k (serve q s).1) h

/-- The program over a wider set of requests. -/
def embed {Req' : Type} {Resp' : Req' → Type} (f : Req → Req') (g : (q : Req) → Resp' (f q) → Resp q) :
    Prog Req Resp α → Prog Req' Resp' α
  | .ret a => .ret a
  | .ask q k => .ask (f q) fun r => (k (g q r)).embed f g

/-- One answered request, with the store before and after it. -/
structure Exchange (Req : Type) (Resp : Req → Type) (S : Type) where
  q : Req
  r : Resp q
  pre : S
  post : S

/-- `Runs exec p s l a s'`: `p`, run alone from `s`, has its requests answered as `l` says, returns `a` and leaves `s'`. -/
inductive Runs (exec : (q : Req) → S → Resp q → S → Prop) : Prog Req Resp α → S → List (Exchange Req Resp S) → α → S → Prop
  | ret (a : α) (s : S) : Runs exec (.ret a) s [] a s
  | ask {q : Req} {k : Resp q → Prog Req Resp α} {s s' s'' : S} {r : Resp q} {l : List (Exchange Req Resp S)} {a : α}
      (he : exec q s r s') (hk : Runs exec (k r) s' l a s'') : Runs exec (.ask q k) s (⟨q, r, s, s'⟩ :: l) a s''

variable {a : α} {s s' s₁ : S} {q : Req} {exec : (q : Req) → S → Resp q → S → Prop} {k : Resp q → Prog Req Resp α} {r : Resp q} {b : β}
  {f : α → Prog Req Resp β} {p p' : Prog Req Resp α} {serve : (q : Req) → S → Resp q × S} {P : Req → Prop} {n : ℕ} {l : List (Σ q : Req, Resp q)}

theorem Runs.ret_inv {b : α} {l : List (Exchange Req Resp S)} (h : Runs exec (.ret a) s l b s') : b = a ∧ s' = s := by
  cases h
  exact ⟨rfl, rfl⟩

theorem Runs.ask_inv {l : List (Exchange Req Resp S)} (h : Runs exec (.ask q k) s l a s') :
    ∃ r s₁ l₁, l = ⟨q, r, s, s₁⟩ :: l₁ ∧ exec q s r s₁ ∧ Runs exec (k r) s₁ l₁ a s' := by
  cases h with
  | ask he hk => exact ⟨_, _, _, rfl, he, hk⟩

theorem Runs.step {P : List (Exchange Req Resp S) → S → Prop} (he : exec q s r s₁) (h : ∃ l s', Runs exec (k r) s₁ l a s' ∧ P (⟨q, r, s, s₁⟩ :: l) s') :
    ∃ l s', Runs exec (.ask q k) s l a s' ∧ P l s' := by
  obtain ⟨l, s', hk, hP⟩ := h
  exact ⟨_, s', .ask he hk, hP⟩

theorem Runs.cons (he : exec q s r s₁) (h : ∃ l, Runs exec (k r) s₁ l a s') : ∃ l, Runs exec (.ask q k) s l a s' := by
  obtain ⟨l, hk⟩ := h
  exact ⟨_, .ask he hk⟩

theorem Runs.bind_inv :
    ∀ {p : Prog Req Resp α} {s s' : S} {l : List (Exchange Req Resp S)}, Runs exec (p >>= f) s l b s' →
      ∃ l₁ a s₁ l₂, l = l₁ ++ l₂ ∧ Runs exec p s l₁ a s₁ ∧ Runs exec (f a) s₁ l₂ b s'
  | .ret a, s, _, l, h => ⟨[], a, s, l, rfl, .ret a s, h⟩
  | .ask _ _, _, _, _, h => by
    obtain ⟨r, s₁, l₁, rfl, he, hk⟩ := Runs.ask_inv h
    obtain ⟨l₂, a, s₂, l₃, rfl, h₁, h₂⟩ := Runs.bind_inv hk
    exact ⟨_, a, s₂, l₃, rfl, .ask he h₁, h₂⟩

theorem Runs.bind {l₁ l₂ : List (Exchange Req Resp S)} (h₁ : Runs exec p s l₁ a s₁) (h₂ : Runs exec (f a) s₁ l₂ b s') :
    Runs exec (p >>= f) s (l₁ ++ l₂) b s' := by
  induction h₁ with
  | ret => exact h₂
  | ask he _ ih => exact .ask he (ih h₂)

def served (serve : (q : Req) → S → Resp q × S) : Prog Req Resp α → S → List (Exchange Req Resp S)
  | .ret _, _ => []
  | .ask q k, s => ⟨q, (serve q s).1, s, (serve q s).2⟩ :: (k (serve q s).1).served serve (serve q s).2

/-- Evaluation is a run, if the store may answer as `serve` does. -/
theorem Runs.served (he : ∀ q s, exec q s (serve q s).1 (serve q s).2) : ∀ (p : Prog Req Resp α) (s : S),
      Runs exec p s (p.served serve s) (p.eval serve s).1 (p.eval serve s).2
  | .ret a, s => .ret a s
  | .ask q k, s => .ask (he q s) (Runs.served he (k (serve q s).1) (serve q s).2)

/-- Every request of the evaluation passes `ok`. -/
def okay (serve : (q : Req) → S → Resp q × S) (ok : Req → S → Bool) : Prog Req Resp α → S → Bool
  | .ret _, _ => true
  | .ask q k, s => ok q s && (k (serve q s).1).okay serve ok (serve q s).2

/-- An evaluation whose requests pass is a run, in the view of the store that `exec` has. -/
theorem Runs.okay {T : Type} {serve : (q : Req) → T → Resp q × T} {ok : Req → T → Bool} (view : T → S)
    (hok : ∀ q t, ok q t → exec q (view t) (serve q t).1 (view (serve q t).2)) : ∀ (p : Prog Req Resp α) (t : T), p.okay serve ok t →
      Runs exec p (view t) ((p.served serve t).map fun x => ⟨x.q, x.r, view x.pre, view x.post⟩) (p.eval serve t).1 (view (p.eval serve t).2)
  | .ret a, t, _ => .ret a (view t)
  | .ask q k, t, h => by
    obtain ⟨hq, hk⟩ := Bool.and_eq_true_iff.mp h
    exact .ask (hok q t hq) (Runs.okay view hok _ _ hk)

theorem Runs.eval (he : ∀ q s, exec q s (serve q s).1 (serve q s).2) (p : Prog Req Resp α) (s : S) :
    ∃ l, Runs exec p s l (p.eval serve s).1 (p.eval serve s).2 := ⟨_, Runs.served he p s⟩

theorem Runs.mono {exec' : (q : Req) → S → Resp q → S → Prop} (h : ∀ q s r s', exec q s r s' → exec' q s r s') {l : List (Exchange Req Resp S)}
    (hr : Runs exec p s l a s') : Runs exec' p s l a s' := by
  induction hr with
  | ret a s => exact .ret a s
  | ask he _ ih => exact .ask (h _ _ _ _ he) ih

/-- **Postconditions.**  Whatever the answers, a run of `p` from `s` with exchanges `l`, result `a` and last store `s'` satisfies `Q l a s'`. -/
def Ensures (exec : (q : Req) → S → Resp q → S → Prop) (p : Prog Req Resp α) (s : S) (Q : List (Exchange Req Resp S) → α → S → Prop) :
    Prop := ∀ l a s', Runs exec p s l a s' → Q l a s'

section Ensures

variable {exec : (q : Req) → S → Resp q → S → Prop} {p : Prog Req Resp α} {s : S} {Q Q' : List (Exchange Req Resp S) → α → S → Prop}
variable {a : α} {f : α → Prog Req Resp β}

theorem Ensures.ret (h : Q [] a s) : Ensures exec (.ret a) s Q := by
  intro l b s' hr
  cases hr
  exact h

theorem Ensures.ask {q : Req} {k : Resp q → Prog Req Resp α}
    (h : ∀ r s', exec q s r s' → Ensures exec (k r) s' fun l => Q (⟨q, r, s, s'⟩ :: l)) : Ensures exec (.ask q k) s Q := by
  intro l a s' hr
  cases hr with
  | ask he hk => exact h _ _ he _ _ _ hk

theorem Ensures.mono (h : Ensures exec p s Q) (hQ : ∀ l a s', Q l a s' → Q' l a s') : Ensures exec p s Q' :=
  fun l a s' hr => hQ l a s' (h l a s' hr)

theorem Ensures.bind {R : List (Exchange Req Resp S) → α → S → Prop} {P : List (Exchange Req Resp S) → β → S → Prop} (h : Ensures exec p s R)
    (hf : ∀ l₁ a s₁, R l₁ a s₁ → Ensures exec (f a) s₁ fun l₂ => P (l₁ ++ l₂)) : Ensures exec (p >>= f) s P := by
  intro l b s' hr
  obtain ⟨l₁, a, s₁, l₂, rfl, h₁, h₂⟩ := Runs.bind_inv hr
  exact hf l₁ a s₁ (h l₁ a s₁ h₁) l₂ b s' h₂

/-- A program over fewer requests, all of which leave the store, ends as it does alone. -/
theorem Ensures.embed {Req' : Type} {Resp' : Req' → Type} {f : Req → Req'} {g : (q : Req) → Resp' (f q) → Resp q} {S' : Type}
    {exec' : (q : Req') → S' → Resp' q → S' → Prop} {Q : α → Prop} (hst : ∀ q s r s', exec' (f q) s r s' → s' = s) {s : S'} :
    ∀ {p : Prog Req Resp α}, Ensures (fun q (_ : Unit) r _ => ∃ r', g q r' = r ∧ exec' (f q) s r' s) p () (fun _ a _ => Q a) →
      Ensures exec' (p.embed f g) s fun _ a s' => Q a ∧ s' = s
  | .ret a, h => .ret ⟨h _ _ _ (.ret a ()), rfl⟩
  | .ask q k, h => by
    refine .ask fun r s' he => ?_
    obtain rfl := hst q s r s' he
    exact Ensures.embed hst fun l a _ hr => h _ _ _ (.ask ⟨r, rfl, he⟩ hr)

/-- **Results.**  Run alone from `s`, the program can return `a` and leave `s'`, and nothing else. -/
def Returns (exec : (q : Req) → S → Resp q → S → Prop) (p : Prog Req Resp α) (s : S) (a : α) (s' : S) : Prop :=
  (∃ l, Runs exec p s l a s') ∧ Ensures exec p s fun _ b t => b = a ∧ t = s'

theorem Returns.ret (a : α) (s : S) : Returns exec (.ret a) s a s := ⟨⟨[], .ret a s⟩, .ret ⟨rfl, rfl⟩⟩

theorem Returns.ask {q : Req} {k : Resp q → Prog Req Resp α} {r : Resp q} {s₁ s' : S} (he : exec q s r s₁)
    (hone : ∀ r' t, exec q s r' t → r' = r ∧ t = s₁) (hk : Returns exec (k r) s₁ a s') : Returns exec (.ask q k) s a s' := by
  obtain ⟨⟨l, hrun⟩, hens⟩ := hk
  refine ⟨⟨_, .ask he hrun⟩, .ask fun r' t ht => ?_⟩
  obtain ⟨rfl, rfl⟩ := hone r' t ht
  exact hens

theorem Returns.bind {b : β} {s₁ s' : S} (h : Returns exec p s a s₁) (hf : Returns exec (f a) s₁ b s') : Returns exec (p >>= f) s b s' := by
  obtain ⟨⟨l, hrun⟩, hens⟩ := h
  obtain ⟨⟨l', hrun'⟩, hens'⟩ := hf
  refine ⟨⟨_, hrun.bind hrun'⟩, hens.bind ?_⟩
  rintro l₁ _ _ ⟨rfl, rfl⟩
  exact hens'

end Ensures

/-- `Path p l p'`: answering the requests of `p` by `l` (newest first) leaves `p'`. -/
inductive Path : Prog Req Resp α → List (Σ q : Req, Resp q) → Prog Req Resp α → Prop
  | nil (p : Prog Req Resp α) : Path p [] p
  | cons {p : Prog Req Resp α} {l : List (Σ q : Req, Resp q)} {q : Req}
      {k : Resp q → Prog Req Resp α} (r : Resp q) (h : Path p l (.ask q k)) : Path p (⟨q, r⟩ :: l) (k r)

/-- Every request `q` of `p` that is answered by `r` is followed by a program in `P q r`. -/
def Always (P : (q : Req) → Resp q → Prog Req Resp α → Prop) : Prog Req Resp α → Prop
  | .ret _ => True
  | .ask q k => ∀ r, P q r (k r) ∧ (k r).Always P

/-- What every request of `p` and of what follows it satisfies, read through the sequencing. -/
theorem Always.bind {P₁ : (q : Req) → Resp q → Prog Req Resp α → Prop} {P : (q : Req) → Resp q → Prog Req Resp β → Prop}
    (hP : ∀ q r p, P₁ q r p → P q r (p >>= f)) (hf : ∀ a, (f a).Always P) : ∀ {p : Prog Req Resp α}, p.Always P₁ → (p >>= f).Always P
  | .ret a, _ => hf a
  | .ask q k, h => fun r => ⟨hP q r (k r) (h r).1, Always.bind hP hf (h r).2⟩

/-- Every request of `p` is in `P`. -/
def Sends (P : Req → Prop) (p : Prog Req Resp α) : Prop := p.Always fun q _ _ => P q

theorem Sends.ret (a : α) : (Prog.ret a : Prog Req Resp α).Sends P := trivial

theorem Sends.ask (hq : P q) (hk : ∀ r, (k r).Sends P) : (Prog.ask q k).Sends P := fun r => ⟨hq, hk r⟩

theorem Sends.bind (hp : p.Sends P) (hf : ∀ a, (f a).Sends P) : (p >>= f).Sends P := Always.bind (fun _ _ _ h => h) hf hp

theorem Sends.mono {P' : Req → Prop} (hP : ∀ q, P q → P' q) : ∀ {p : Prog Req Resp α}, p.Sends P → p.Sends P'
  | .ret _, _ => trivial
  | .ask q _, h => fun r => ⟨hP q (h r).1, Sends.mono hP (h r).2⟩

theorem Sends.embed {Req' : Type} {Resp' : Req' → Type} {f : Req' → Req} {g : (q : Req') → Resp (f q) → Resp' q} (hP : ∀ q, P (f q)) :
    ∀ p : Prog Req' Resp' α, (p.embed f g).Sends P
  | .ret a => .ret a
  | .ask q k => .ask (hP q) fun r => Sends.embed hP (k (g q r))

theorem Ensures.of_sends {I : S → Prop} (hstep : ∀ q s r s', P q → exec q s r s' → I s → I s') :
    ∀ {p : Prog Req Resp α} {s : S}, p.Sends P → I s → Ensures exec p s fun _ _ s' => I s'
  | .ret _, _, _, hs => .ret hs
  | .ask _ _, _, hp, hs => .ask fun r s' he => Ensures.of_sends hstep (hp r).2 (hstep _ _ r s' (hp r).1 he hs)

theorem Sends.ensures : ∀ {p : Prog Req Resp α} {s : S}, p.Sends P → Ensures exec p s fun l _ _ => ∀ x ∈ l, P x.q
  | .ret _, _, _ => .ret (by simp)
  | .ask _ _, _, hp => .ask fun r s' _ => (Sends.ensures (hp r).2).mono fun _ _ _ h => forall_mem_cons.mpr ⟨(hp r).1, h⟩

theorem Path.always {P : (q : Req) → Resp q → Prog Req Resp α → Prop} (h : Path p l p') (hp : p.Always P) : p'.Always P := by
  induction h with
  | nil => exact hp
  | cons r _ ih => exact (ih r).2

theorem Path.sends (h : Path p l p') (hp : p.Sends P) : ∀ x ∈ l, P x.1 := by
  induction h with
  | nil => exact fun x hx => absurd hx not_mem_nil
  | cons r h ih => exact forall_mem_cons.mpr ⟨(h.always hp r).1, ih⟩

/-- The last answer of a path satisfies what `Always` promises of it. -/
theorem Path.always_head {P : (q : Req) → Resp q → Prog Req Resp α → Prop} (h : Path p (⟨q, r⟩ :: l) p') (hp : p.Always P) : P q r p' := by
  cases h with
  | cons r h => exact (h.always hp r).1

/-- Every earlier request of a path was followed by a program that sent another request. -/
theorem Path.always_tail {P : (q : Req) → Resp q → Prog Req Resp α → Prop} {x : Σ q : Req, Resp q} (h : Path p (x :: l) p') (hp : p.Always P) :
    ∀ y ∈ l, ∃ q k, P y.1 y.2 (.ask q k) := by
  induction l generalizing x p' with
  | nil => simp
  | cons z l ih =>
    cases h with
    | cons r h =>
    intro y hy
    rcases mem_cons.mp hy with rfl | hy
    · exact ⟨_, _, h.always_head hp⟩
    · exact ih h y hy

/-- `G` holds of every request and the exchanges before it, newest first, of which `l` are given. -/
def Guarded (G : List (Σ q : Req, Resp q) → Req → Prop) : List (Σ q : Req, Resp q) → Prog Req Resp α → Prop
  | _, .ret _ => True
  | l, .ask q k => ∀ r, G l q ∧ Guarded G (⟨q, r⟩ :: l) (k r)

theorem Guarded.of_sends {G : List (Σ q : Req, Resp q) → Req → Prop} (hG : ∀ l q, P q → G l q) :
    ∀ {p : Prog Req Resp α} {l : List (Σ q : Req, Resp q)}, p.Sends P → p.Guarded G l
  | .ret _, _, _ => trivial
  | .ask q _, l, h => fun r => ⟨hG l q (h r).1, Guarded.of_sends hG (h r).2⟩

theorem Guarded.bind {G : List (Σ q : Req, Resp q) → Req → Prop} {l : List (Σ q : Req, Resp q)} (hp : p.Guarded G l)
    (hf : ∀ a l', l ⊆ l' → (f a).Guarded G l') : (p >>= f).Guarded G l := by
  induction p generalizing l with
  | ret a => exact hf a l (Subset.refl l)
  | ask q k ih => exact fun r => ⟨(hp r).1, ih r (hp r).2 fun a l' hl => hf a l' (Subset.trans (subset_cons_self ..) hl)⟩

theorem Path.guarded {G : List (Σ q : Req, Resp q) → Req → Prop} (h : Path p l p') (hp : p.Guarded G []) : p'.Guarded G l := by
  induction h with
  | nil => exact hp
  | cons r _ ih => exact (ih r).2

end Prog

/-! ## Worlds and runs -/

/-- What can be observed of a run: call `i` is invoked, has a request answered, or responds. -/
inductive Event (Req : Type) (Resp : Req → Type) (S Call : Type) (Res : Call → Type) : Type
  | invoke (i : ℕ) (c : Call)
  | act (i : ℕ) (q : Req) (r : Resp q) (pre post : S)
  | respond (i : ℕ) (c : Call) (a : Res c)

namespace Event

def tid : Event Req Resp S Call Res → ℕ
  | .invoke i _ => i
  | .act i _ _ _ _ => i
  | .respond i _ _ => i

def storeAfter (s : S) : Event Req Resp S Call Res → S
  | .act _ _ _ _ post => post
  | _ => s

def erase : Event Req Resp S Call Res → Event Req Resp Unit Call Res
  | .invoke i c => .invoke i c
  | .act i q r _ _ => .act i q r () ()
  | .respond i c a => .respond i c a

/-- The request and answer of an event of call `i`. -/
def own (i : ℕ) : Event Req Resp S Call Res → Option (Σ q : Req, Resp q)
  | .act j q r _ _ => if j = i then some ⟨q, r⟩ else none
  | _ => none

end Event

/-- The store and the history so far, newest event first. -/
structure World (Req : Type) (Resp : Req → Type) (S Call : Type) (Res : Call → Type) where
  store : S
  hist : List (Event Req Resp S Call Res)

namespace World

variable (w : World Req Resp S Call Res)

def after (e : Event Req Resp S Call Res) : World Req Resp S Call Res :=
  ⟨e.storeAfter w.store, e :: w.hist⟩

@[simp] theorem after_hist (e : Event Req Resp S Call Res) :
    (w.after e).hist = e :: w.hist := rfl

@[simp] theorem after_invoke_store (i : ℕ) (c : Call) :
    (w.after (.invoke i c)).store = w.store := rfl

@[simp] theorem after_act_store (i : ℕ) (q : Req) (r : Resp q) (s s' : S) :
    (w.after (.act i q r s s')).store = s' := rfl

@[simp] theorem after_respond_store (i : ℕ) (c : Call) (a : Res c) :
    (w.after (.respond i c a)).store = w.store := rfl

/-- The requests of call `i` with their answers, newest first. -/
def trace (i : ℕ) : List (Σ q : Req, Resp q) := w.hist.filterMap (Event.own i)

def Unused (i : ℕ) : Prop := ∀ e ∈ w.hist, e.tid ≠ i

instance decidableUnused (w : World Req Resp S Call Res) (i : ℕ) : Decidable (w.Unused i) := inferInstanceAs (Decidable (∀ e ∈ w.hist, e.tid ≠ i))

end World

/-- The state of call `i`: not invoked, running with the program it still has to execute, or responded. -/
inductive Slot (Req : Type) (Resp : Req → Type) (Call : Type) (Res : Call → Type) : Type
  | idle
  | running (c : Call) (p : Prog Req Resp (Res c))
  | done

structure Conf (Req : Type) (Resp : Req → Type) (S Call : Type) (Res : Call → Type) where
  world : World Req Resp S Call Res
  pool : ℕ → Slot Req Resp Call Res

/-- The store's steps, the program of each call and the events the environment may produce. -/
structure System (Req : Type) (Resp : Req → Type) (S Call : Type) (Res : Call → Type) where
  exec : (q : Req) → S → Resp q → S → Prop
  body : (c : Call) → Prog Req Resp (Res c)
  allow : World Req Resp S Call Res → Event Req Resp S Call Res → Prop

namespace Conf

def start (s : S) : Conf Req Resp S Call Res := ⟨⟨s, []⟩, fun _ => .idle⟩

/-- Event `e` happens and leaves call `i` in slot `x`. -/
def set (σ : Conf Req Resp S Call Res) (e : Event Req Resp S Call Res) (i : ℕ)
    (x : Slot Req Resp Call Res) : Conf Req Resp S Call Res :=
  ⟨σ.world.after e, Function.update σ.pool i x⟩

@[simp] theorem set_world (σ : Conf Req Resp S Call Res) (e : Event Req Resp S Call Res) (i : ℕ)
    (x : Slot Req Resp Call Res) : (σ.set e i x).world = σ.world.after e := rfl

@[simp] theorem set_pool (σ : Conf Req Resp S Call Res) (e : Event Req Resp S Call Res) (i : ℕ)
    (x : Slot Req Resp Call Res) : (σ.set e i x).pool = Function.update σ.pool i x := rfl

end Conf

section Runs

variable (M : System Req Resp S Call Res)

inductive Step : Conf Req Resp S Call Res → Conf Req Resp S Call Res → Prop
  | invoke {σ : Conf Req Resp S Call Res} {i : ℕ} (c : Call) (hp : σ.pool i = .idle)
      (ha : M.allow σ.world (.invoke i c)) : Step σ (σ.set (.invoke i c) i (.running c (M.body c)))
  | act {σ : Conf Req Resp S Call Res} {i : ℕ} {c : Call} {q : Req} {k : Resp q → Prog Req Resp (Res c)}
      {r : Resp q} {s' : S} (hp : σ.pool i = .running c (.ask q k)) (he : M.exec q σ.world.store r s')
      (ha : M.allow σ.world (.act i q r σ.world.store s')) :
      Step σ (σ.set (.act i q r σ.world.store s') i (.running c (k r)))
  | respond {σ : Conf Req Resp S Call Res} {i : ℕ} {c : Call} {a : Res c}
      (hp : σ.pool i = .running c (.ret a)) (ha : M.allow σ.world (.respond i c a)) :
      Step σ (σ.set (.respond i c a) i .done)

/-- The configurations reachable from store `s` by any interleaving of calls. -/
def Reach (s : S) (σ : Conf Req Resp S Call Res) : Prop :=
  Relation.ReflTransGen (Step M) (Conf.start s) σ

end Runs

/-! ## Transactions behind a connection that can fail -/

section Transactions

variable {E : Type}

/-- What a client may see of a transaction that computes `f` in store `s`: its result, its refusal, a failure of
the connection before the commit, or one after it (`ackLost`: the effect is there, the answer is an error). -/
inductive Tx (fault : E → Prop) (s : S) (f : Except E (α × S)) : Except E α → S → Prop
  | done {a : α} {s' : S} (h : f = .ok (a, s')) : Tx fault s f (.ok a) s'
  | refused {e : E} (h : f = .error e) : Tx fault s f (.error e) s
  | down {e : E} (h : fault e) : Tx fault s f (.error e) s
  | ackLost {a : α} {s' : S} {e : E} (h : f = .ok (a, s')) (he : fault e) : Tx fault s f (.error e) s'

/-- A read leaves the store and answers what it finds, or fails. -/
def Read (fault : E → Prop) (s : S) (f : Except E α) (r : Except E α) (s' : S) : Prop :=
  s' = s ∧ (r = f ∨ ∃ e, fault e ∧ r = .error e)

variable {fault : E → Prop} {s s' : S}
variable {f : Except E (α × S)}

/-- The store moves only by the transaction. -/
theorem Tx.store_cases {r : Except E α} (h : Tx fault s f r s') : s' = s ∨ ∃ a, f = .ok (a, s') := by
  cases h with
  | done h => exact .inr ⟨_, h⟩
  | refused h => exact .inl rfl
  | down h => exact .inl rfl
  | ackLost h he => exact .inr ⟨_, h⟩

theorem Tx.of_ok {a : α} (h : Tx fault s f (.ok a) s') : f = .ok (a, s') := by
  cases h with
  | done h => exact h

/-- An error that is no connection failure is the transaction's own refusal. -/
theorem Tx.of_error {e : E} (h : Tx fault s f (.error e) s') (he : ¬ fault e) : f = .error e ∧ s' = s := by
  cases h with
  | refused h => exact ⟨h, rfl⟩
  | down h => exact absurd h he
  | ackLost _ h => exact absurd h he

/-- The answer and the store after the transaction, when the connection holds. -/
def Tx.run (s : S) : Except E (α × S) → Except E α × S
  | .ok (a, s') => (.ok a, s')
  | .error e => (.error e, s)

theorem Tx.of_run (s : S) (f : Except E (α × S)) : Tx fault s f (Tx.run s f).1 (Tx.run s f).2 := by
  cases f with
  | error e => exact .refused rfl
  | ok x => exact .done rfl

theorem Read.of_ok {f : Except E α} {a : α} (h : Read fault s f (.ok a) s') : f = .ok a := by
  rcases h.2 with h | ⟨e, -, h⟩
  · exact h.symm
  · cases h

theorem Read.of_error {f : Except E α} {e : E} (h : Read fault s f (.error e) s') (he : ¬ fault e) :
    f = .error e := by
  rcases h.2 with h | ⟨e', he', h⟩
  · exact h.symm
  · cases h
    exact absurd he' he

end Transactions

/-! ## Rely and guarantee -/

/-- A global invariant, and for every call what it may rely on the others to do: a preorder on worlds. -/
structure Spec (Req : Type) (Resp : Req → Type) (S Call : Type) (Res : Call → Type) where
  inv : World Req Resp S Call Res → Prop
  rely : ℕ → World Req Resp S Call Res → World Req Resp S Call Res → Prop
  refl : ∀ i w, rely i w w
  trans : ∀ i {u v w}, rely i u v → rely i v w → rely i u w

/-- Event `e` of call `i` keeps the invariant and what every other call relies on. -/
def Spec.Keeps (Φ : Spec Req Resp S Call Res) (i : ℕ) (w : World Req Resp S Call Res)
    (e : Event Req Resp S Call Res) : Prop :=
  Φ.inv (w.after e) ∧ ∀ j, j ≠ i → Φ.rely j w (w.after e)

/-- The events of call `i`, newest first. -/
def World.own (w : World Req Resp S Call Res) (i : ℕ) : List (Event Req Resp S Call Res) := w.hist.filter fun e => e.tid = i

variable {w : World Req Resp S Call Res} {e : Event Req Resp S Call Res} {i : ℕ}

theorem World.own_after_of_ne (h : e.tid ≠ i) : (w.after e).own i = w.own i := by
  simp [World.own, h]

@[simp] theorem World.own_after_act (w : World Req Resp S Call Res) (i : ℕ) (q : Req) (r : Resp q) (s s' : S) :
    (w.after (.act i q r s s')).own i = .act i q r s s' :: w.own i := by
  simp [World.own, Event.tid]

/-- An event of call `i` that is in one of two histories with the same events of `i` is in the other. -/
theorem World.mem_own_iff {v : World Req Resp S Call Res} (h : w.own i = v.own i) (he : e.tid = i) : e ∈ w.hist ↔ e ∈ v.hist := by
  have hmem := congrArg (e ∈ ·) h
  simpa [World.own, he] using hmem

/-- Calls that rely on the history only: it grows, and nobody else adds to a call's own events. -/
def Spec.ofHistory (inv : World Req Resp S Call Res → Prop) : Spec Req Resp S Call Res where
  inv := inv
  rely := fun i v w => (∀ e ∈ v.hist, e ∈ w.hist) ∧ w.own i = v.own i
  refl := fun _ _ => ⟨fun _ h => h, rfl⟩
  trans := fun _ _ _ _ h₁ h₂ => ⟨fun e he => h₂.1 e (h₁.1 e he), h₂.2.trans h₁.2⟩

theorem Spec.ofHistory_keeps {inv : World Req Resp S Call Res → Prop} (he : e.tid = i) (h : inv (w.after e)) : (Spec.ofHistory inv).Keeps i w e :=
  ⟨h, fun _ hj => ⟨fun _ hx => mem_cons_of_mem _ hx, World.own_after_of_ne fun hi => hj (hi.symm.trans he)⟩⟩

section Logic

variable (M : System Req Resp S Call Res) (Φ : Spec Req Resp S Call Res) (i : ℕ)

/-- Program `p` of call `i` is safe at world `w` for result `Q`: however far the other calls have moved the world,
each of its requests keeps the invariant and the other calls' relies, and its result satisfies `Q`. -/
def Safe (Q : α → World Req Resp S Call Res → Prop) : Prog Req Resp α → World Req Resp S Call Res → Prop
  | .ret a, w => ∀ v, Φ.rely i w v → Φ.inv v → Q a v
  | .ask q k, w => ∀ v, Φ.rely i w v → Φ.inv v → ∀ r s', M.exec q v.store r s' →
      M.allow v (.act i q r v.store s') →
      Φ.Keeps i v (.act i q r v.store s') ∧ Safe Q (k r) (v.after (.act i q r v.store s'))

variable {M Φ i}
variable {Q : α → World Req Resp S Call Res → Prop}

/-- Safety is stable under whatever the call relies on. -/
theorem Safe.rely {p : Prog Req Resp α} {u v : World Req Resp S Call Res} (h : Safe M Φ i Q p u) (huv : Φ.rely i u v) : Safe M Φ i Q p v := by
  cases p <;> exact fun w hvw hw => h w (Φ.trans i huv hvw) hw

theorem Safe.mono {Q' : α → World Req Resp S Call Res → Prop} (hQ : ∀ a w, Φ.inv w → Q a w → Q' a w) :
    ∀ {p : Prog Req Resp α} {w : World Req Resp S Call Res}, Safe M Φ i Q p w → Safe M Φ i Q' p w
  | .ret a, _, h => fun v hv hi => hQ a v hi (h v hv hi)
  | .ask _ _, _, h => fun v hv hi r s' he ha =>
    let ⟨h1, h2⟩ := h v hv hi r s' he ha
    ⟨h1, Safe.mono hQ h2⟩

theorem Safe.done {a : α} {w : World Req Resp S Call Res} (h : ∀ v, Q a v) : Safe M Φ i Q (.ret a) w := fun v _ _ => h v

theorem Safe.stop {a : α} {w : World Req Resp S Call Res} : Safe M Φ i (fun _ _ => True) (.ret a) w := .done fun _ => trivial

/-- **Sequencing**: a sub-program safe for `R`, continued safely from every `R`-result. -/
theorem Safe.bind {R : α → World Req Resp S Call Res → Prop} {Q : β → World Req Resp S Call Res → Prop}
    {f : α → Prog Req Resp β} (hf : ∀ a w, Φ.inv w → R a w → Safe M Φ i Q (f a) w) :
    ∀ {p : Prog Req Resp α} {w : World Req Resp S Call Res}, Φ.inv w → Safe M Φ i R p w →
      Safe M Φ i Q (p >>= f) w
  | .ret a, w, hw, h => hf a w hw (h w (Φ.refl i w) hw)
  | .ask _ _, _, _, h => fun v hv hi r s' he ha =>
    let ⟨h1, h2⟩ := h v hv hi r s' he ha
    ⟨h1, Safe.bind hf h1.1 h2⟩

/-- A program whose requests all keep what is to be kept, and with it a fact `K` that its call knows. -/
theorem Safe.of_sends {P : Req → Prop} {K : World Req Resp S Call Res → Prop} (hQ : ∀ a w, Φ.inv w → K w → Q a w)
    (hrely : ∀ {u v}, Φ.rely i u v → K u → K v)
    (hP : ∀ (v : World Req Resp S Call Res) q r s', Φ.inv v → K v → P q → M.exec q v.store r s' → M.allow v (.act i q r v.store s') →
      Φ.Keeps i v (.act i q r v.store s') ∧ K (v.after (.act i q r v.store s'))) :
    ∀ {p : Prog Req Resp α} {w : World Req Resp S Call Res}, K w → p.Sends P → Safe M Φ i Q p w
  | .ret a, _, hK, _ => fun v hv hi => hQ a v hi (hrely hv hK)
  | .ask q _, _, hK, h => fun v hv hi r s' he ha =>
    let ⟨hk, hK'⟩ := hP v q r s' hi (hrely hv hK) (h r).1 he ha
    ⟨hk, Safe.of_sends hQ hrely hP hK' (h r).2⟩

/-- **Sub-programs over fewer requests.**  If every such request keeps what is to be kept, the program ends in a result that it could have
ended in alone, with the answers that the history records. -/
theorem Safe.embed {Req' : Type} {Resp' : Req' → Type} {f : Req' → Req} {g : (q : Req') → Resp (f q) → Resp' q}
    (hgrow : ∀ {u v : World Req Resp S Call Res}, Φ.rely i u v → ∀ e ∈ u.hist, e ∈ v.hist)
    (hkeeps : ∀ (v : World Req Resp S Call Res) q r s', Φ.inv v → M.exec (f q) v.store r s' →
      M.allow v (.act i (f q) r v.store s') → Φ.Keeps i v (.act i (f q) r v.store s')) :
    ∀ (p : Prog Req' Resp' α) (w : World Req Resp S Call Res), Safe M Φ i (fun a v => (∀ e ∈ w.hist, e ∈ v.hist) ∧
      ∃ l, Prog.Runs (fun _ _ _ _ => True) p () l a () ∧ ∀ x ∈ l, ∃ r pre post, g x.q r = x.r ∧ .act i (f x.q) r pre post ∈ v.hist)
      (p.embed f g) w
  | .ret a, w => fun v hv _ => ⟨hgrow hv, [], .ret a (), by simp⟩
  | .ask q k, w => by
    intro v hv hi r s' he ha
    refine ⟨hkeeps v q r s' hi he ha, Safe.mono ?_ (Safe.embed hgrow hkeeps (k (g q r)) _)⟩
    rintro a u - ⟨hold, l, hr, hl⟩
    refine ⟨fun e hm => hold e (mem_cons_of_mem _ (hgrow hv e hm)), _, .ask trivial hr, forall_mem_cons.mpr ⟨?_, hl⟩⟩
    exact ⟨r, _, _, rfl, hold _ mem_cons_self⟩

/-- The result `a` of call `c` may be handed back. -/
def Responds (M : System Req Resp S Call Res) (Φ : Spec Req Resp S Call Res) (i : ℕ) (c : Call) (a : Res c)
    (w : World Req Resp S Call Res) : Prop :=
  M.allow w (.respond i c a) → Φ.Keeps i w (.respond i c a)

/-- Every call the environment may invoke is safe from its invocation on. -/
def Verified (M : System Req Resp S Call Res) (Φ : Spec Req Resp S Call Res) : Prop :=
  ∀ w i c, Φ.inv w → w.Unused i → M.allow w (.invoke i c) →
    Φ.Keeps i w (.invoke i c) ∧ Safe M Φ i (Responds M Φ i c) (M.body c) (w.after (.invoke i c))

end Logic

section Adequacy

variable {M : System Req Resp S Call Res} {Φ : Spec Req Resp S Call Res} {s : S} {σ : Conf Req Resp S Call Res}

/-- What the slot of call `i` says about its events: none yet; the answers so far lead from its program to what is
left; or it ended in the result it responded with. -/
def Slot.Agrees (M : System Req Resp S Call Res) (w : World Req Resp S Call Res) (i : ℕ) :
    Slot Req Resp Call Res → Prop
  | .idle => w.Unused i
  | .running c p => (M.body c).Path (w.trace i) p ∧ .invoke i c ∈ w.hist ∧
      (∀ c', .invoke i c' ∈ w.hist → c' = c) ∧ ∀ c' (a : Res c'), .respond i c' a ∉ w.hist
  | .done => ∃ c, ∃ a : Res c, (M.body c).Path (w.trace i) (.ret a) ∧ .invoke i c ∈ w.hist ∧
      (∀ c', .invoke i c' ∈ w.hist → c' = c) ∧ .respond i c a ∈ w.hist ∧
      ∀ c' (a' : Res c'), .respond i c' a' ∈ w.hist → c' = c ∧ HEq a' a

variable {w : World Req Resp S Call Res} {e : Event Req Resp S Call Res} {i : ℕ}

theorem World.trace_after_of_ne (h : e.tid ≠ i) : (w.after e).trace i = w.trace i := by
  cases e with
  | invoke j c => rfl
  | act j q r pre post =>
    have hj : j ≠ i := h
    simp [World.trace, Event.own, hj]
  | respond j c a => rfl

theorem World.trace_of_unused (h : w.Unused i) : w.trace i = [] := by
  rw [World.trace, filterMap_eq_nil_iff]
  intro e he
  cases e with
  | act k q r pre post =>
    have hk : k ≠ i := h _ he
    simp [Event.own, hk]
  | _ => rfl

theorem Slot.Agrees.frame {x : Slot Req Resp Call Res} (h : x.Agrees M w i) (he : e.tid ≠ i) : x.Agrees M (w.after e) i := by
  have hinv : ∀ c, (.invoke i c ∈ e :: w.hist ↔ .invoke i c ∈ w.hist) := by
    intro c
    rw [mem_cons, or_iff_right]
    rintro rfl
    exact he rfl
  have hres : ∀ c (a : Res c), (.respond i c a ∈ e :: w.hist ↔ .respond i c a ∈ w.hist) := by
    intro c a
    rw [mem_cons, or_iff_right]
    rintro rfl
    exact he rfl
  cases x with
  | idle =>
    intro e' he'
    rcases mem_cons.mp he' with rfl | he'
    · exact he
    · exact h e' he'
  | running c p => simpa only [Slot.Agrees, World.trace_after_of_ne he, World.after_hist, hinv, hres] using h
  | done => simpa only [Slot.Agrees, World.trace_after_of_ne he, World.after_hist, hinv, hres] using h

theorem Reach.agrees (hr : Reach M s σ) (i : ℕ) : (σ.pool i).Agrees M σ.world i := by
  induction hr with
  | refl => exact fun e he => absurd he (not_mem_nil)
  | @tail σ _ _ hs ih =>
    cases hs with
    | @invoke j c hp ha =>
      by_cases hij : i = j
      · subst hij
        have hu : σ.world.Unused i := by simpa [hp, Slot.Agrees] using ih
        have ht : (σ.world.after (.invoke i c)).trace i = [] := World.trace_of_unused (w := σ.world) hu
        simp only [Conf.set_pool, update_self, Conf.set_world, Slot.Agrees, ht]
        -- the events before are those of other calls
        refine ⟨.nil _, mem_cons_self, fun c' hc' => ?_, fun c' a hc' => ?_⟩
        · rcases mem_cons.mp hc' with h | h
          · cases h
            rfl
          · exact absurd rfl (hu _ h)
        · exact absurd rfl (hu _ ((mem_cons.mp hc').resolve_left (by rintro ⟨⟩)))
      · simpa [update_of_ne hij] using ih.frame (e := .invoke j c) (Ne.symm hij)
    | @act j c q k r s' hp he ha =>
      by_cases hij : i = j
      · subst hij
        rw [hp] at ih
        obtain ⟨h1, h2, h3, h4⟩ := ih
        simp only [Conf.set_pool, update_self, Conf.set_world, Slot.Agrees]
        refine ⟨?_, by simp [h2], by simpa using h3, by simpa using h4⟩
        simpa [World.trace, Event.own] using Prog.Path.cons r h1
      · simpa [update_of_ne hij] using ih.frame (e := .act j q r σ.world.store s') (Ne.symm hij)
    | @respond j c a hp ha =>
    by_cases hij : i = j
    · subst hij
      rw [hp] at ih
      obtain ⟨h1, h2, h3, h4⟩ := ih
      simp only [Conf.set_pool, update_self, Conf.set_world, Slot.Agrees]
      refine ⟨c, a, h1, by simp [h2], by simpa using h3, by simp, fun c' a' hc' => ?_⟩
      rcases mem_cons.mp hc' with h | h
      · cases h
        exact ⟨rfl, HEq.rfl⟩
      · exact absurd h (h4 c' a')
    · simpa [update_of_ne hij] using ih.frame (e := .respond j c a) (Ne.symm hij)

/-- **Adequacy.**  In a verified system the invariant holds in every reachable world, and every running call is
safe for what it has still to do. -/
theorem Verified.reach (hv : Verified M Φ) (h0 : Φ.inv ⟨s, []⟩) (hr : Reach M s σ) :
    Φ.inv σ.world ∧ ∀ i c p, σ.pool i = .running c p → Safe M Φ i (Responds M Φ i c) p σ.world := by
  induction hr with
  | refl => exact ⟨h0, fun i c p h => by cases h⟩
  | @tail σ _ hr hs ih =>
    obtain ⟨hI, hS⟩ := ih
    -- one event of call `j` keeps every other call safe; call `j` itself by its own judgement
    have key : ∀ {σ : Conf Req Resp S Call Res} {e : Event Req Resp S Call Res} {j : ℕ}
        {x : Slot Req Resp Call Res}, Φ.Keeps j σ.world e →
        (∀ i c p, σ.pool i = .running c p → Safe M Φ i (Responds M Φ i c) p σ.world) →
        (∀ c p, x = .running c p → Safe M Φ j (Responds M Φ j c) p (σ.world.after e)) →
        Φ.inv (σ.set e j x).world ∧ ∀ i c p, (σ.set e j x).pool i = .running c p →
          Safe M Φ i (Responds M Φ i c) p (σ.set e j x).world := by
      intro σ e j x hk hS hx
      refine ⟨hk.1, fun i c p hp => ?_⟩
      by_cases hij : i = j
      · subst hij
        exact hx c p (by simpa using hp)
      · exact (hS i c p (by simpa [update_of_ne hij] using hp)).rely (hk.2 i hij)
    cases hs with
    | @invoke j c hp ha =>
      have hu : σ.world.Unused j := by simpa [hp, Slot.Agrees] using Reach.agrees hr j
      obtain ⟨hk, hs⟩ := hv σ.world j c hI hu ha
      refine key hk hS ?_
      rintro c' p' h
      cases h
      exact hs
    | @act j c q k r s' hp he ha =>
      obtain ⟨hk, hs⟩ := hS j c _ hp σ.world (Φ.refl j _) hI r s' he ha
      refine key hk hS ?_
      rintro c' p' h
      cases h
      exact hs
    | @respond j c a hp ha =>
    have hk := hS j c _ hp σ.world (Φ.refl j _) hI ha
    refine key hk hS ?_
    rintro c' p' h
    cases h

theorem Verified.inv (hv : Verified M Φ) (h0 : Φ.inv ⟨s, []⟩) (hr : Reach M s σ) : Φ.inv σ.world :=
  (hv.reach h0 hr).1

end Adequacy

/-! ## What the history records -/

section History

variable {M : System Req Resp S Call Res} {s : S} {σ : Conf Req Resp S Call Res}
variable {I : S → Prop} {w : World Req Resp S Call Res}

/-- **Store invariants.**  What every request that a call may send keeps, every run keeps. -/
theorem Reach.store_invariant (P : Req → Prop) (hsend : ∀ w i c, M.allow w (.invoke i c) → (M.body c).Sends P)
    (hstep : ∀ q s r s', P q → M.exec q s r s' → I s → I s') (h0 : I s) (hr : Reach M s σ) : I σ.world.store := by
  have key : I σ.world.store ∧ ∀ i c p, σ.pool i = .running c p → p.Sends P := by
    induction hr with
    | refl => exact ⟨h0, fun i c p hp => by cases hp⟩
    | @tail σ _ _ hs ih =>
      obtain ⟨hI, hp⟩ := ih
      -- the other calls stand as they stood
      have frame : ∀ {e : Event Req Resp S Call Res} {j : ℕ} {x : Slot Req Resp Call Res},
          (∀ c p, x = .running c p → p.Sends P) →
          ∀ i c p, (σ.set e j x).pool i = .running c p → p.Sends P := by
        intro e j x hx i c p hi
        by_cases hij : i = j
        · subst hij
          exact hx c p (by simpa using hi)
        · exact hp i c p (by simpa [update_of_ne hij] using hi)
      cases hs with
      | @invoke j c _ ha =>
        refine ⟨hI, frame ?_⟩
        rintro c' p' h
        cases h
        exact hsend _ _ _ ha
      | @act j c q k r s' hj he _ =>
        have hq := hp j c _ hj r
        refine ⟨hstep q _ r s' hq.1 he hI, frame ?_⟩
        rintro c' p' h
        cases h
        exact hq.2
      | respond _ _ =>
      refine ⟨hI, frame ?_⟩
      rintro c' p' h
      cases h
  exact key.1

/-- What every step that the environment allows keeps, every run keeps. -/
theorem Reach.store_kept
    (hstep : ∀ (w : World Req Resp S Call Res) i q r s', M.exec q w.store r s' → M.allow w (.act i q r w.store s') → I w.store → I s') (h0 : I s)
    (hr : Reach M s σ) : I σ.world.store := by
  induction hr with
  | refl => exact h0
  | @tail σ _ _ hs ih =>
    cases hs with
    | invoke _ _ _ => exact ih
    | @act i _ q _ r s' _ he ha => exact hstep σ.world i q r s' he ha ih
    | respond _ _ => exact ih

/-- Event `e` may happen in `σ`. -/
inductive Fires (M : System Req Resp S Call Res) (σ : Conf Req Resp S Call Res) : Event Req Resp S Call Res → Prop
  | invoke {i : ℕ} {c : Call} (hp : σ.pool i = .idle) (ha : M.allow σ.world (.invoke i c)) : Fires M σ (.invoke i c)
  | act {i : ℕ} {c : Call} {q : Req} {k : Resp q → Prog Req Resp (Res c)} {r : Resp q} {s' : S} (hp : σ.pool i = .running c (.ask q k))
      (he : M.exec q σ.world.store r s') (ha : M.allow σ.world (.act i q r σ.world.store s')) : Fires M σ (.act i q r σ.world.store s')
  | respond {i : ℕ} {c : Call} {a : Res c} (hp : σ.pool i = .running c (.ret a)) (ha : M.allow σ.world (.respond i c a)) :
      Fires M σ (.respond i c a)

variable {h₁ h₂ : List (Event Req Resp S Call Res)} {e : Event Req Resp S Call Res} {i : ℕ} {q : Req} {r : Resp q} {pre post : S}

/-- **Cutting.**  The run up to any event of its history. -/
theorem Reach.cut (hr : Reach M s σ) (h : σ.world.hist = h₁ ++ e :: h₂) : ∃ σ', Reach M s σ' ∧ σ'.world.hist = h₂ ∧ Fires M σ' e := by
  induction hr generalizing h₁ with
  | refl => cases h₁ <;> cases h
  | @tail σ' _ hr hs ih =>
    cases h₁ with
    | cons e' h₁ => cases hs <;> exact ih (List.cons.inj h).2
    | nil =>
    refine ⟨σ', hr, ?_⟩
    cases hs with
    | invoke c hp ha =>
      cases h
      exact ⟨rfl, .invoke hp ha⟩
    | act hp he ha =>
      cases h
      exact ⟨rfl, .act hp he ha⟩
    | respond hp ha =>
    cases h
    exact ⟨rfl, .respond hp ha⟩

theorem Reach.split (hr : Reach M s σ) (h : σ.world.hist = h₁ ++ e :: h₂) : ∃ σ', Reach M s σ' ∧ σ'.world.hist = h₂ ∧ M.allow σ'.world e := by
  obtain ⟨σ', hr', hh, hf⟩ := hr.cut h
  cases hf with
  | invoke _ ha | act _ _ ha | respond _ ha => exact ⟨σ', hr', hh, ha⟩

theorem Reach.act_split (hr : Reach M s σ) (h : σ.world.hist = h₁ ++ .act i q r pre post :: h₂) :
    ∃ σ', Reach M s σ' ∧ σ'.world = ⟨pre, h₂⟩ ∧ M.exec q pre r post ∧ M.allow σ'.world (.act i q r pre post) := by
  obtain ⟨σ', hr', rfl, hf⟩ := hr.cut h
  cases hf with
  | act _ he ha => exact ⟨σ', hr', rfl, he, ha⟩

/-- Every recorded request was a step of the store, taken in a reachable one. -/
theorem Reach.act_pre (hr : Reach M s σ) (h : .act i q r pre post ∈ σ.world.hist) : ∃ σ', Reach M s σ' ∧ σ'.world.store = pre := by
  obtain ⟨h₁, h₂, hh⟩ := append_of_mem h
  obtain ⟨σ', hr', hw, -⟩ := hr.act_split hh
  exact ⟨σ', hr', by rw [hw]⟩

theorem Reach.act_exec (hr : Reach M s σ) (h : .act i q r pre post ∈ σ.world.hist) : M.exec q pre r post := by
  obtain ⟨h₁, h₂, hh⟩ := append_of_mem h
  obtain ⟨_, -, -, he, -⟩ := hr.act_split hh
  exact he

theorem Reach.unused_before (hr : Reach M s σ) {c : Call} (h : σ.world.hist = h₁ ++ .invoke i c :: h₂) : ∀ e ∈ h₂, e.tid ≠ i := by
  obtain ⟨σ', hr', rfl, hf⟩ := hr.cut h
  cases hf with
  | invoke hp _ =>
  have hunused := Reach.agrees hr' i
  rwa [hp] at hunused

/-- What holds after a request and is kept by all later ones holds at the end. -/
theorem Reach.since (hr : Reach M s σ) (h : σ.world.hist = h₁ ++ .act i q r pre post :: h₂) (hpost : I post)
    (hstep : ∀ j q' r' s s', .act j q' r' s s' ∈ h₁ → M.exec q' s r' s' → I s → I s') : I σ.world.store := by
  induction hr generalizing h₁ with
  | refl => cases h₁ <;> cases h
  | @tail σ _ hr hs ih =>
    cases h₁ with
    | nil =>
      cases hs with
      | invoke c hp ha => cases h
      | respond hp ha => cases h
      | act hp he ha =>
      cases h
      exact hpost
    | cons e' h₁ =>
    have hold := fun h => ih h fun j q' r' s s' hm => hstep j q' r' s s' (mem_cons_of_mem _ hm)
    cases hs with
    | invoke c hp ha => exact hold (List.cons.inj h).2
    | respond hp ha => exact hold (List.cons.inj h).2
    | act hp he ha =>
    obtain ⟨rfl, hrest⟩ := List.cons.inj h
    exact hstep _ _ _ _ _ mem_cons_self he (hold hrest)

theorem World.mem_cases {x y : Event Req Resp S Call Res} (hx : x ∈ w.hist) (hy : y ∈ w.hist) (hne : x ≠ y) :
    (∃ h₁ h₂, w.hist = h₁ ++ x :: h₂ ∧ y ∈ h₂) ∨ ∃ h₁ h₂, w.hist = h₁ ++ y :: h₂ ∧ x ∈ h₂ := by
  obtain ⟨h₁, h₂, h⟩ := append_of_mem hx
  rw [h] at hy
  rcases mem_append.mp hy with hy | hy
  · obtain ⟨l₁, l₂, rfl⟩ := append_of_mem hy
    exact .inr ⟨l₁, l₂ ++ x :: h₂, by simp [h], by simp⟩
  · exact .inl ⟨h₁, h₂, h, (mem_cons.mp hy).resolve_left (Ne.symm hne)⟩

/-- What holds of the store at the end and did not at the start was brought about by one request. -/
theorem Reach.first {P : S → Prop} (hr : Reach M s σ) (h0 : ¬ P s) (h : P σ.world.store) : ∃ h₁ i q r pre post h₂,
    σ.world.hist = h₁ ++ .act i q r pre post :: h₂ ∧ ¬ P pre ∧ P post := by
  induction hr with
  | refl => exact absurd h h0
  | @tail σ _ _ hs ih =>
    -- the rest of the history is that of the run so far
    have old : ∀ e, P σ.world.store → ∃ h₁ i q r pre post h₂,
        e :: σ.world.hist = h₁ ++ .act i q r pre post :: h₂ ∧ ¬ P pre ∧ P post := by
      intro e hP
      obtain ⟨h₁, i, q, r, pre, post, h₂, hh, hpre, hpost⟩ := ih hP
      exact ⟨e :: h₁, i, q, r, pre, post, h₂, by rw [hh, cons_append], hpre, hpost⟩
    cases hs with
    | invoke c hp ha => exact old _ h
    | respond hp ha => exact old _ h
    | @act j c q k r s' hp he ha =>
    by_cases hP : P σ.world.store
    · exact old _ hP
    · exact ⟨[], j, q, r, _, s', σ.world.hist, rfl, hP, h⟩

theorem World.mem_trace {x : Σ q : Req, Resp q} : x ∈ w.trace i ↔ ∃ pre post, .act i x.1 x.2 pre post ∈ w.hist := by
  rw [World.trace, mem_filterMap]
  constructor
  · rintro ⟨e, he, h⟩
    cases e with
    | act j q r pre post =>
      by_cases hj : j = i
      · simp only [Event.own, hj, if_true, Option.some.injEq] at h
        subst h hj
        exact ⟨pre, post, he⟩
      · simp [Event.own, hj] at h
    | invoke j c => cases h
    | respond j c a => cases h
  · rintro ⟨pre, post, h⟩
    exact ⟨_, h, by simp [Event.own]⟩

theorem Reach.act_sends {P : Call → Req → Prop} (hr : Reach M s σ) (hsend : ∀ c, (M.body c).Sends (P c)) (h : .act i q r pre post ∈ σ.world.hist) : ∃ c, .invoke i c ∈ σ.world.hist ∧ P c q := by
  have htrace : (⟨q, r⟩ : Σ q : Req, Resp q) ∈ σ.world.trace i := World.mem_trace.mpr ⟨pre, post, h⟩
  have hi := Reach.agrees hr i
  cases hslot : σ.pool i with
  | idle =>
    rw [hslot] at hi
    exact absurd rfl (hi _ h)
  | running c p =>
    rw [hslot] at hi
    exact ⟨c, hi.2.1, hi.1.sends (hsend c) _ htrace⟩
  | done =>
  rw [hslot] at hi
  obtain ⟨c, a, hpath, hinvoke, -⟩ := hi
  exact ⟨c, hinvoke, hpath.sends (hsend c) _ htrace⟩

/-- Every recorded request passes the guard of its call, with the exchanges of the call before it. -/
theorem Reach.act_guarded {G : List (Σ q : Req, Resp q) → Req → Prop} (hr : Reach M s σ) (hG : ∀ c, (M.body c).Guarded G [])
    (h : σ.world.hist = h₁ ++ .act i q r pre post :: h₂) : G (h₂.filterMap (Event.own i)) q := by
  obtain ⟨σ', hr', rfl, hf⟩ := hr.cut h
  cases hf with
  | @act _ c _ _ _ _ hp _ _ =>
  have hi := Reach.agrees hr' i
  rw [hp] at hi
  exact (hi.1.guarded (hG c) r).1

/-- A call that is done has responded, and only it. -/
theorem Reach.responded (hr : Reach M s σ) {c : Call} (hinvoke : .invoke i c ∈ σ.world.hist) (hdone : σ.pool i = .done) :
    ∃ a, .respond i c a ∈ σ.world.hist := by
  have hi := Reach.agrees hr i
  rw [hdone] at hi
  obtain ⟨c', a, -, -, hone, hres, -⟩ := hi
  obtain rfl := hone c hinvoke
  exact ⟨a, hres⟩

theorem World.own_after_self (h : e.tid = i) : (w.after e).own i = e :: w.own i := by
  simp [World.own, h]

/-- `σ'` has only calls in `Mine`, and has served them as `σ` has; of the two stores `view` is the same. -/
structure Conf.Restricts {V : Type} (view : S → V) (Mine : Call → Prop) (σ σ' : Conf Req Resp S Call Res) : Prop where
  store : view σ'.world.store = view σ.world.store
  only : ∀ i c, .invoke i c ∈ σ'.world.hist → Mine c
  pool : ∀ i, (∀ c, .invoke i c ∈ σ.world.hist → Mine c) → σ'.pool i = σ.pool i
  own : ∀ i, (∀ c, .invoke i c ∈ σ.world.hist → Mine c) → (σ'.world.own i).map Event.erase = (σ.world.own i).map Event.erase

section Restrict

variable {V : Type} {view : S → V} {Mine : Call → Prop} {σ' : Conf Req Resp S Call Res} {e' : Event Req Resp S Call Res} {x : Slot Req Resp Call Res}

theorem Conf.Restricts.both (h : σ.Restricts view Mine σ') (he : e.tid = i) (he' : e'.tid = i) (herase : e'.erase = e.erase)
    (hinv : ∀ c, e' = .invoke i c → Mine c) (hst : view (e'.storeAfter σ'.world.store) = view (e.storeAfter σ.world.store)) :
    (σ.set e i x).Restricts view Mine (σ'.set e' i x) := by
  have hold : ∀ {j : ℕ}, (∀ c, .invoke j c ∈ (σ.set e i x).world.hist → Mine c) → ∀ c, .invoke j c ∈ σ.world.hist → Mine c :=
    fun hj c hm => hj c (mem_cons_of_mem _ hm)
  constructor
  · exact hst
  · intro j c hm
    rcases mem_cons.mp hm with heq | hm
    · obtain rfl : j = i := by rw [← he', ← heq]; rfl
      exact hinv c heq.symm
    · exact h.only j c hm
  · intro j hj
    by_cases hij : j = i
    · subst hij
      simp only [Conf.set_pool, update_self]
    · simp only [Conf.set_pool, update_of_ne hij, h.pool j (hold hj)]
  intro j hj
  by_cases hij : j = i
  · subst hij
    simp only [Conf.set_world, World.own_after_self he, World.own_after_self he', map_cons, h.own j (hold hj), herase]
  · have hne : e.tid ≠ j := fun h => hij (h.symm.trans he)
    have hne' : e'.tid ≠ j := fun h => hij (h.symm.trans he')
    simp only [Conf.set_world, World.own_after_of_ne hne, World.own_after_of_ne hne', h.own j (hold hj)]

theorem Conf.Restricts.skip (h : σ.Restricts view Mine σ') (he : e.tid = i) {c : Call} (hm : .invoke i c ∈ e :: σ.world.hist) (hc : ¬ Mine c)
    (hst : view (e.storeAfter σ.world.store) = view σ.world.store) : (σ.set e i x).Restricts view Mine σ' := by
  have hold : ∀ {j : ℕ}, (∀ c, .invoke j c ∈ (σ.set e i x).world.hist → Mine c) → ∀ c, .invoke j c ∈ σ.world.hist → Mine c :=
    fun hj c hm => hj c (mem_cons_of_mem _ hm)
  have hne : ∀ {j : ℕ}, (∀ c, .invoke j c ∈ (σ.set e i x).world.hist → Mine c) → j ≠ i := by
    rintro j hj rfl
    exact hc (hj c hm)
  constructor
  · exact h.store.trans hst.symm
  · exact h.only
  · intro j hj
    rw [Conf.set_pool, update_of_ne (hne hj)]
    exact h.pool j (hold hj)
  · intro j hj
    rw [Conf.set_world, World.own_after_of_ne fun h => hne hj (h.symm.trans he)]
    exact h.own j (hold hj)

/-- **Independence.**  The calls in `Mine` depend on the store through `view` only, and the other calls leave it: a run without the other calls serves
the calls in `Mine` the same way. -/
theorem Reach.restrict {P : Call → Req → Prop} (hsend : ∀ c, (M.body c).Sends (P c))
    (hothers : ∀ c q s r s', ¬ Mine c → P c q → M.exec q s r s' → view s' = view s)
    (hmine : ∀ c q s r s' t, Mine c → P c q → M.exec q s r s' → view t = view s → ∃ t', M.exec q t r t' ∧ view t' = view s')
    (hallow : ∀ w e, M.allow w e) (hr : Reach M s σ) : ∃ σ', Reach M s σ' ∧ σ.Restricts view Mine σ' := by
  induction hr with
  | refl => exact ⟨_, .refl, rfl, fun i c h => absurd h not_mem_nil, fun i _ => rfl, fun i _ => rfl⟩
  | @tail σ τ hr hs ih =>
    obtain ⟨σ', hr', hσ⟩ := ih
    cases hs with
    | @invoke j c hp ha =>
      have hun : σ.world.Unused j := by simpa [hp, Slot.Agrees] using Reach.agrees hr j
      by_cases hc : Mine c
      · have hidle := hσ.pool j fun c' hm => absurd rfl (hun _ hm)
        refine ⟨_, hr'.tail (.invoke c (hidle.trans hp) (hallow _ _)), hσ.both rfl rfl rfl ?_ hσ.store⟩
        rintro c' ⟨⟩
        exact hc
      · exact ⟨σ', hr', hσ.skip rfl mem_cons_self hc rfl⟩
    | @act j c q k r s' hp he ha =>
      have hag := Reach.agrees hr j
      rw [hp] at hag
      obtain ⟨hpath, hin, hone, -⟩ := hag
      have hq : P c q := (hpath.always (hsend c) r).1
      by_cases hc : Mine c
      · have hpool := hσ.pool j fun c' hm => hone c' hm ▸ hc
        obtain ⟨t', he', hv'⟩ := hmine c q _ r s' σ'.world.store hc hq he hσ.store
        exact ⟨_, hr'.tail (.act (hpool.trans hp) he' (hallow _ _)), hσ.both rfl rfl rfl (by rintro c' ⟨⟩) hv'⟩
      · exact ⟨σ', hr', hσ.skip rfl (mem_cons_of_mem _ hin) hc (hothers c q _ r s' hc hq he)⟩
    | @respond j c a hp ha =>
    have hag := Reach.agrees hr j
    rw [hp] at hag
    obtain ⟨-, hin, hone, -⟩ := hag
    by_cases hc : Mine c
    · have hpool := hσ.pool j fun c' hm => hone c' hm ▸ hc
      exact ⟨_, hr'.tail (.respond (hpool.trans hp) (hallow _ _)), hσ.both rfl rfl rfl (by rintro c' ⟨⟩) hσ.store⟩
    · exact ⟨σ', hr', hσ.skip rfl (mem_cons_of_mem _ hin) hc rfl⟩

end Restrict

end History

/-! ## Calls that are not overtaken -/

section Solo

variable (M : System Req Resp S Call Res) (i : ℕ)

/-- `p`, run by call `i` without interruption, takes world `w` to `w'` and has `p'` left. -/
inductive Solo : Prog Req Resp α → World Req Resp S Call Res → Prog Req Resp α → World Req Resp S Call Res → Prop
  | refl (p : Prog Req Resp α) (w : World Req Resp S Call Res) : Solo p w p w
  | ask {q : Req} {k : Resp q → Prog Req Resp α} {w w' : World Req Resp S Call Res} {p' : Prog Req Resp α} (r : Resp q)
      (s' : S) (he : M.exec q w.store r s') (ha : M.allow w (.act i q r w.store s'))
      (hk : Solo (k r) (w.after (.act i q r w.store s')) p' w') : Solo (.ask q k) w p' w'

variable {M i} {s : S} {σ : Conf Req Resp S Call Res}
variable {p p' : Prog Req Resp α} {w w' : World Req Resp S Call Res} {serve : (q : Req) → S → Resp q × S} {c : Call} {a : Res c}
  {l : List (Prog.Exchange Req Resp S)}

/-- The first request of an uninterrupted run, for a run whose end is only known to satisfy `P`. -/
theorem Solo.step {q : Req} {k : Resp q → Prog Req Resp α} {P : World Req Resp S Call Res → Prop} (r : Resp q) (s' : S) (he : M.exec q w.store r s')
    (ha : M.allow w (.act i q r w.store s')) (h : ∃ w', Solo M i (k r) (w.after (.act i q r w.store s')) p' w' ∧ P w') :
    ∃ w', Solo M i (.ask q k) w p' w' ∧ P w' := by
  obtain ⟨w', hs, hP⟩ := h
  exact ⟨w', .ask r s' he ha hs, hP⟩

theorem Solo.hist_subset (h : Solo M i p w p' w') : ∀ e ∈ w.hist, e ∈ w'.hist := by
  induction h with
  | refl => exact fun _ he => he
  | ask r s' _ _ _ ih => exact fun e he => ih e (mem_cons_of_mem _ he)

/-- A running call can be run on from any point of a run. -/
theorem Solo.steps {p p' : Prog Req Resp (Res c)} (hs : Solo M i p w p' w') :
    ∀ {σ : Conf Req Resp S Call Res}, σ.world = w → σ.pool i = .running c p →
      Relation.ReflTransGen (Step M) σ ⟨w', Function.update σ.pool i (.running c p')⟩ := by
  induction hs with
  | refl p w =>
    intro σ hw hp
    have hσ : σ = ⟨w, Function.update σ.pool i (.running c p)⟩ := by
      rw [← hp, update_eq_self, ← hw]
    rw [← hσ]
  | ask r s' he ha _ ih =>
    intro σ hw hp
    subst hw
    have h := (Relation.ReflTransGen.single (Step.act hp he ha)).trans (ih rfl (by simp))
    simpa using h

theorem Reach.solo {p p' : Prog Req Resp (Res c)} (hs : Solo M i p w p' w') (hr : Reach M s σ) (hw : σ.world = w) (hp : σ.pool i = .running c p) :
    Reach M s ⟨w', Function.update σ.pool i (.running c p')⟩ := hr.trans (hs.steps hw hp)

/-- A call can be started and left standing at any point of a run. -/
theorem Reach.parks (hr : Reach M s σ) (hp : σ.pool i = .idle) {c : Call} (ha : M.allow σ.world (.invoke i c))
    {p' : Prog Req Resp (Res c)} {w' : World Req Resp S Call Res}
    (h : Solo M i (M.body c) (σ.world.after (.invoke i c)) p' w') :
    Reach M s ⟨w', Function.update σ.pool i (.running c p')⟩ := by
  have h1 := Reach.solo h (hr.tail (.invoke c hp ha)) rfl (by simp)
  simpa [Reach, Conf.set] using h1

/-- A run of the program alone, from any point of a run. -/
theorem Solo.of_runs {a : α} {t s' : S} (hrun : Prog.Runs M.exec p t l a s') (ha : ∀ x ∈ l, ∀ w, M.allow w (.act i x.q x.r x.pre x.post))
    (w : World Req Resp S Call Res) (hw : w.store = t) : ∃ w', Solo M i p w (.ret a) w' ∧ w'.store = s' := by
  induction hrun generalizing w with
  | ret a t => exact ⟨w, .refl _ w, hw⟩
  | ask he _ ih =>
    subst hw
    exact Solo.step _ _ he (ha _ mem_cons_self w) (ih (fun x hx => ha x (mem_cons_of_mem _ hx)) _ rfl)

theorem Reach.runs (hr : Reach M s σ) (hp : σ.pool i = .idle) {s' : S} (hrun : Prog.Runs M.exec (M.body c) σ.world.store l a s')
    (hi : M.allow σ.world (.invoke i c)) (ha : ∀ x ∈ l, ∀ w, M.allow w (.act i x.q x.r x.pre x.post)) (hres : ∀ w, M.allow w (.respond i c a)) :
    ∃ w', Reach M s ⟨w', Function.update σ.pool i .done⟩ ∧ w'.store = s' := by
  obtain ⟨v, hv, hst⟩ := Solo.of_runs hrun ha (σ.world.after (.invoke i c)) rfl
  have h := (hr.parks hp hi hv).tail (.respond (i := i) (c := c) (a := a) (by simp) (hres v))
  exact ⟨v.after (.respond i c a), by simpa [Reach, Conf.set] using h, hst⟩

end Solo

/-! ## Schedules -/

/-- Who moves: a call is invoked, or takes its next step. -/
inductive Turn (Call : Type) : Type
  | invoke (i : ℕ) (c : Call)
  | move (i : ℕ)

section Schedules

variable (M : System Req Resp S Call Res) (serve : (q : Req) → S → Resp q × S)

/-- The event of a turn, and the slot it leaves; none if the call cannot move. -/
def Conf.turn (σ : Conf Req Resp S Call Res) : Turn Call → Option (Event Req Resp S Call Res × ℕ × Slot Req Resp Call Res)
  | .invoke i c =>
    match σ.pool i with
    | .idle => some (.invoke i c, i, .running c (M.body c))
    | _ => none
  | .move i =>
    match σ.pool i with
    | .running c (.ask q k) =>
      some (.act i q (serve q σ.world.store).1 σ.world.store (serve q σ.world.store).2, i, .running c (k (serve q σ.world.store).1))
    | .running c (.ret a) => some (.respond i c a, i, .done)
    | _ => none

/-- The configuration after the turns, over a store that answers by `serve`. -/
def Conf.play (σ : Conf Req Resp S Call Res) : List (Turn Call) → Conf Req Resp S Call Res
  | [] => σ
  | t :: ts =>
    match σ.turn M serve t with
    | some (e, i, x) => (σ.set e i x).play ts
    | none => σ

variable {M serve} {s : S} {σ : Conf Req Resp S Call Res} {ok : Req → S → Bool} {k : World Req Resp S Call Res → Event Req Resp S Call Res → Bool}

/-- The request of the event is one that `ok` admits. -/
def Event.served (ok : Req → S → Bool) : Event Req Resp S Call Res → Bool
  | .act _ q _ pre _ => ok q pre
  | _ => true

theorem Conf.step_turn (hok : ∀ q s, ok q s → M.exec q s (serve q s).1 (serve q s).2) {t : Turn Call} {e : Event Req Resp S Call Res} {i : ℕ}
    {x : Slot Req Resp Call Res} (h : σ.turn M serve t = some (e, i, x)) (hs : e.served ok) (ha : M.allow σ.world e) : Step M σ (σ.set e i x) := by
  cases t with
  | invoke j c =>
    cases hp : σ.pool j with
    | idle =>
      simp only [Conf.turn, hp, Option.some.injEq, Prod.mk.injEq] at h
      obtain ⟨rfl, rfl, rfl⟩ := h
      exact .invoke c hp ha
    | running c p => simp [Conf.turn, hp] at h
    | done => simp [Conf.turn, hp] at h
  | move j =>
  cases hp : σ.pool j with
  | idle => simp [Conf.turn, hp] at h
  | running c p =>
    cases p with
    | ask q k =>
      simp only [Conf.turn, hp, Option.some.injEq, Prod.mk.injEq] at h
      obtain ⟨rfl, rfl, rfl⟩ := h
      exact .act hp (hok q _ hs) ha
    | ret a =>
    simp only [Conf.turn, hp, Option.some.injEq, Prod.mk.injEq] at h
    obtain ⟨rfl, rfl, rfl⟩ := h
    exact .respond hp ha
  | done => simp [Conf.turn, hp] at h

variable (M serve) in
/-- Every request of the turns passes `ok`, and every event `k`. -/
def Conf.checks (ok : Req → S → Bool) (k : World Req Resp S Call Res → Event Req Resp S Call Res → Bool) (σ : Conf Req Resp S Call Res) :
    List (Turn Call) → Bool
  | [] => true
  | t :: ts =>
    match σ.turn M serve t with
    | some (e, i, x) => e.served ok && k σ.world e && (σ.set e i x).checks ok k ts
    | none => true

theorem Conf.steps_play (hok : ∀ q s, ok q s → M.exec q s (serve q s).1 (serve q s).2) (hk : ∀ w e, k w e → M.allow w e) :
    ∀ (ts : List (Turn Call)) (σ : Conf Req Resp S Call Res), σ.checks M serve ok k ts → Relation.ReflTransGen (Step M) σ (σ.play M serve ts)
  | [], _, _ => .refl
  | t :: ts, σ, h => by
    rw [Conf.play]
    rw [Conf.checks] at h
    cases ht : σ.turn M serve t with
    | none => exact .refl
    | some x =>
    obtain ⟨e, i, x⟩ := x
    rw [ht] at h
    obtain ⟨h, hts⟩ := Bool.and_eq_true_iff.mp h
    obtain ⟨hs, hc⟩ := Bool.and_eq_true_iff.mp h
    exact .head (Conf.step_turn hok ht hs (hk _ _ hc)) (Conf.steps_play hok hk ts _ hts)

/-- The run of a schedule over a store that may always answer by `serve`. -/
theorem Reach.played (he : ∀ q s, M.exec q s (serve q s).1 (serve q s).2) (hk : ∀ w e, k w e → M.allow w e) (ts : List (Turn Call))
    (h : (Conf.start s).checks M serve (fun _ _ => true) k ts) :
    Reach M s ((Conf.start s).play M serve ts) := Conf.steps_play (fun q s _ => he q s) hk ts _ h

/-- A schedule is a run if the environment allows its invocations, the answers of `serve`, and all responses. -/
theorem Conf.steps_serve (he : ∀ q s, M.exec q s (serve q s).1 (serve q s).2) (ha : ∀ i w q s, M.allow w (.act i q (serve q s).1 s (serve q s).2))
    (hres : ∀ w i c a, M.allow w (.respond i c a)) : ∀ (ts : List (Turn Call)) (σ : Conf Req Resp S Call Res),
      (∀ i c, .invoke i c ∈ ts → ∀ w, M.allow w (.invoke i c)) → Relation.ReflTransGen (Step M) σ (σ.play M serve ts)
  | [], _, _ => .refl
  | t :: ts, σ, hi => by
    have hrest := fun σ => Conf.steps_serve he ha hres ts σ fun i c hm => hi i c (mem_cons_of_mem _ hm)
    rw [Conf.play]
    cases t with
    | invoke i c =>
      cases hp : σ.pool i with
      | idle =>
        simp only [Conf.turn, hp]
        exact .head (.invoke c hp (hi i c mem_cons_self _)) (hrest _)
      | _ =>
      simp only [Conf.turn, hp]
      exact .refl
    | move i =>
    cases hp : σ.pool i with
    | running c p =>
      cases p with
      | ask q k =>
        simp only [Conf.turn, hp]
        exact .head (.act hp (he q _) (ha i _ q _)) (hrest _)
      | ret a =>
      simp only [Conf.turn, hp]
      exact .head (.respond hp (hres _ i c a)) (hrest _)
    | _ =>
    simp only [Conf.turn, hp]
    exact .refl

/-- Call 0 stands after `n` requests, call 1 takes `m` turns, and call 0 `k` further ones. -/
def overtaking (c₀ c₁ : Call) (n m k : ℕ) : List (Turn Call) :=
  .invoke 0 c₀ :: List.replicate n (.move 0) ++ .invoke 1 c₁ :: List.replicate m (.move 1) ++ List.replicate k (.move 0)

theorem mem_overtaking {c₀ c₁ c : Call} {n m k i : ℕ} (h : .invoke i c ∈ overtaking c₀ c₁ n m k) : c = c₀ ∨ c = c₁ := by
  simp only [overtaking, cons_append, append_assoc, mem_cons, mem_append, mem_replicate, Turn.invoke.injEq, reduceCtorEq, and_false,
    false_or, or_false] at h
  exact h.imp And.right And.right

/-- The event invokes no call from `N` on. -/
def Event.before (N : ℕ) : Event Req Resp S Call Res → Bool
  | .invoke i _ => i < N
  | _ => true

theorem Reach.idle {N i : ℕ} (hr : Reach M s σ) (h : σ.world.hist.all (Event.before N)) (hi : N ≤ i) : σ.pool i = .idle := by
  have hnone : ∀ c, .invoke i c ∉ σ.world.hist := fun c hc => absurd (of_decide_eq_true (all_eq_true.mp h _ hc)) (Nat.not_lt.mpr hi)
  have ha := hr.agrees i
  cases hp : σ.pool i with
  | idle => rfl
  | running c p => exact absurd (hp ▸ ha : (Slot.running c p).Agrees M _ i).2.1 (hnone c)
  | done =>
  obtain ⟨c, a, -, hc, -⟩ : Slot.done.Agrees M _ i := hp ▸ ha
  exact absurd hc (hnone c)

/-! ### What a history shows -/

theorem Conf.hist_grows {σ' : Conf Req Resp S Call Res} (h : Relation.ReflTransGen (Step M) σ σ') : ∃ g, σ'.world.hist = g ++ σ.world.hist := by
  induction h with
  | refl => exact ⟨[], rfl⟩
  | tail _ hs ih =>
    obtain ⟨g, hg⟩ := ih
    cases hs <;> exact ⟨_ :: g, congrArg (List.cons _) hg⟩

/-- A call that began after `σ₀` and has returned sent its last request after `σ₀`, and the result follows the answer. -/
theorem Reach.last_answer {σ₀ : Conf Req Resp S Call Res} {i : ℕ} {c : Call} {a : Res c} {P : (q : Req) → Resp q → Prog Req Resp (Res c) → Prop}
    (hr : Reach M s σ₀) (hunused : σ₀.world.Unused i) (hs : Relation.ReflTransGen (Step M) σ₀ σ) (h : .respond i c a ∈ σ.world.hist)
    (hp : (M.body c).Always P) (hne : M.body c ≠ .ret a) :
    ∃ q r pre post newer older, σ.world.hist = newer ++ .act i q r pre post :: (older ++ σ₀.world.hist) ∧ P q r (.ret a) := by
  have hi := Reach.agrees (hr.trans hs) i
  cases hslot : σ.pool i with
  | idle =>
    rw [hslot] at hi
    exact absurd rfl (hi _ h)
  | running c' p =>
    rw [hslot] at hi
    exact absurd h (hi.2.2.2 c a)
  | done =>
  rw [hslot] at hi
  obtain ⟨c', a', hpath, -, -, -, hone⟩ := hi
  obtain ⟨rfl, ha⟩ := hone c a h
  obtain rfl := eq_of_heq ha
  cases htrace : σ.world.trace i with
  | nil =>
    rw [htrace] at hpath
    generalize hend : Prog.ret a = e at hpath
    cases hpath
    exact absurd hend.symm hne
  | cons x l =>
  obtain ⟨q, r⟩ := x
  obtain ⟨pre, post, hact⟩ := World.mem_trace.mp (htrace ▸ mem_cons_self : (⟨q, r⟩ : Σ q, Resp q) ∈ σ.world.trace i)
  obtain ⟨g, hg⟩ := Conf.hist_grows hs
  rw [hg] at hact
  obtain ⟨newer, older, rfl⟩ := append_of_mem ((mem_append.mp hact).resolve_right fun hm => hunused _ hm rfl)
  rw [htrace] at hpath
  exact ⟨q, r, pre, post, newer, older, by simp [hg], hpath.always_head hp⟩

def World.invoked [DecidableEq Call] (w : World Req Resp S Call Res) (i : ℕ) (c : Call) : Bool :=
  w.hist.any fun
    | .invoke j c' => j = i ∧ c' = c
    | _ => false

theorem World.mem_of_invoked [DecidableEq Call] {w : World Req Resp S Call Res} {i : ℕ} {c : Call} (h : w.invoked i c) : .invoke i c ∈ w.hist := by
  obtain ⟨e, hm, he⟩ := any_eq_true.mp h
  cases e with
  | invoke j c' =>
    obtain ⟨rfl, rfl⟩ := of_decide_eq_true he
    exact hm
  | act j q r pre post => cases he
  | respond j c' a => cases he

def Event.invoked : Event Req Resp S Call Res → Option Call
  | .invoke _ c => some c
  | _ => none

def Event.answer [DecidableEq Call] (i : ℕ) (c : Call) : Event Req Resp S Call Res → Option (Res c)
  | .respond j c' a => if h : j = i ∧ c' = c then some (h.2 ▸ a) else none
  | _ => none

def World.result [DecidableEq Call] (w : World Req Resp S Call Res) (i : ℕ) (c : Call) : Option (Res c) := w.hist.findSome? (Event.answer i c)

theorem World.mem_of_result [DecidableEq Call] {w : World Req Resp S Call Res} {i : ℕ} {c : Call} {a : Res c} (h : w.result i c = some a) :
    .respond i c a ∈ w.hist := by
  obtain ⟨e, hm, he⟩ := exists_of_findSome?_eq_some h
  cases e with
  | invoke j c' => cases he
  | act j q r pre post => cases he
  | respond j c' a' =>
  rw [Event.answer] at he
  by_cases hj : j = i ∧ c' = c
  · rw [dif_pos hj] at he
    obtain ⟨rfl, rfl⟩ := hj
    cases he
    exact hm
  · rw [dif_neg hj] at he
    cases he

end Schedules

end Interleave
