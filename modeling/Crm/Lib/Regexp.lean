import Mathlib.Data.List.Basic
import Mathlib.Data.List.Forall2
import Mathlib.Data.List.TakeWhile

/-!
# Regexp — regular expressions with word boundaries, and replacing their matches

`Re.Matches` says what an expression matches, given the symbols before and after.  `Re.lens` is the backtracking matcher: the lengths of the matches that start
at a position, in the order of preference.  `Re.scan` walks a text from left to right as `ReplaceAll` does, and takes it apart into symbols that stay and matches
that are cut out.  The second half says where an expression can match in a text in which tokens in brackets have replaced the matches of another one.
-/

namespace Regexp

open List

variable {α : Type}

/-- Expressions over symbols of type `α`; `opt` and `plus` are greedy. -/
inductive Re (α : Type) : Type
  | eps
  | chr (p : α → Bool)
  | boundary
  | seq (a b : Re α)
  | alt (a b : Re α)
  | opt (a : Re α)
  | plus (p : α → Bool)

namespace Re

def rep (a : Re α) : ℕ → Re α
  | 0 => .eps
  | n + 1 => .seq a (rep a n)

def all : List (Re α) → Re α
  | [] => .eps
  | a :: as => .seq a (all as)

/-- `a` between word boundaries. -/
def whole (a : Re α) : Re α := .seq .boundary (.seq a .boundary)

end Re

variable (word : α → Bool)

/-! ## Matching -/

namespace Re

/-- The expression matches `m` between the symbols `prev` and `next`, if there are any. -/
def Matches : Re α → Option α → List α → Option α → Prop
  | .eps, _, m, _ => m = []
  | .chr p, _, m, _ => ∃ c, m = [c] ∧ p c = true
  | .boundary, prev, m, next => m = [] ∧ prev.any word ≠ next.any word
  | .seq a b, prev, m, next => ∃ m₁ m₂, m = m₁ ++ m₂ ∧ a.Matches prev m₁ (m₂.head?.or next) ∧ b.Matches (m₁.getLast?.or prev) m₂ next
  | .alt a b, prev, m, next => a.Matches prev m next ∨ b.Matches prev m next
  | .opt a, prev, m, next => a.Matches prev m next ∨ m = []
  | .plus p, _, m, _ => m ≠ [] ∧ ∀ c ∈ m, p c = true

/-- The lengths of the matches at the front of `s`, in the order in which a backtracking matcher finds them. -/
def lens : Re α → Option α → List α → List ℕ
  | .eps, _, _ => [0]
  | .chr p, _, s => if s.head?.any p then [1] else []
  | .boundary, prev, s => if prev.any word ≠ s.head?.any word then [0] else []
  | .seq a b, prev, s => (a.lens prev s).flatMap fun n => (b.lens ((s.take n).getLast?.or prev) (s.drop n)).map (n + ·)
  | .alt a b, prev, s => a.lens prev s ++ b.lens prev s
  | .opt a, prev, s => a.lens prev s ++ [0]
  | .plus p, _, s => (List.range' 1 (s.takeWhile p).length).reverse

variable {word}

theorem le_of_mem_lens : ∀ {re : Re α} {prev : Option α} {s : List α} {n : ℕ}, n ∈ re.lens word prev s → n ≤ s.length
  | .eps, _, _, _, h => by
    cases mem_singleton.mp h
    exact Nat.zero_le _
  | .chr p, _, s, _, h => by
    cases s with
    | nil => simp [lens] at h
    | cons c s =>
    by_cases hp : p c = true <;> simp [lens, hp] at h
    simp [h]
  | .boundary, _, _, _, h => by
    rw [lens] at h
    split_ifs at h
    · cases mem_singleton.mp h
      exact Nat.zero_le _
    · cases h
  | .seq a b, _, s, _, h => by
    obtain ⟨n, hn, h⟩ := mem_flatMap.mp h
    obtain ⟨k, hk, rfl⟩ := mem_map.mp h
    have h1 := le_of_mem_lens hn
    have h2 := le_of_mem_lens hk
    rw [length_drop] at h2
    omega
  | .alt a b, _, _, _, h => (mem_append.mp h).elim le_of_mem_lens le_of_mem_lens
  | .opt a, _, _, _, h => by
    rcases mem_append.mp h with h | h
    · exact le_of_mem_lens h
    · cases mem_singleton.mp h
      exact Nat.zero_le _
  | .plus p, _, s, _, h => by
    have hn := (mem_range'_1.mp (mem_reverse.mp h)).2
    have hle := ( takeWhile_prefix p (l := s)).length_le
    omega

/-- **The matcher finds the matches**, and nothing else. -/
theorem length_mem_lens : ∀ {re : Re α} {prev : Option α} {m r : List α}, m.length ∈ re.lens word prev (m ++ r) ↔ re.Matches word prev m r.head?
  | .eps, _, m, _ => by simp [lens, Matches]
  | .chr p, _, m, r => by
    rw [lens, Matches]
    rcases m with _ | ⟨c, _ | ⟨d, m⟩⟩
    · by_cases hp : r.head?.any p = true <;> simp [hp]
    · by_cases hp : p c = true <;> simp [hp]
    · by_cases hp : p c = true <;> simp [hp]
  | .boundary, prev, m, r => by
    rw [lens, Matches]
    constructor
    · intro h
      split_ifs at h with hb
      · obtain rfl : m = [] := length_eq_zero_iff.mp (mem_singleton.mp h)
        exact ⟨rfl, hb⟩
      · cases h
    · rintro ⟨rfl, hb⟩
      rw [nil_append, if_pos hb]
      exact mem_singleton_self 0
  | .seq a b, prev, m, r => by
    rw [lens, mem_flatMap]
    constructor
    · rintro ⟨n, hn, h⟩
      obtain ⟨k, hk, hlen⟩ := mem_map.mp h
      obtain ⟨m₁, m₂, rfl, rfl⟩ : ∃ m₁ m₂, m = m₁ ++ m₂ ∧ m₁.length = n :=
        ⟨m.take n, m.drop n, (take_append_drop n m).symm, by rw [length_take]; omega⟩
      rw [append_assoc] at hn hk
      rw [take_left, drop_left] at hk
      have hk' : k = m₂.length := by
        rw [length_append] at hlen
        omega
      subst hk'
      have h1 := length_mem_lens.mp hn
      rw [head?_append] at h1
      exact ⟨m₁, m₂, rfl, h1, length_mem_lens.mp hk⟩
    rintro ⟨m₁, m₂, rfl, h1, h2⟩
    rw [← head?_append] at h1
    refine ⟨m₁.length, ?_, mem_map.mpr ⟨m₂.length, ?_, by rw [length_append]⟩⟩
    · rw [append_assoc]
      exact length_mem_lens.mpr h1
    · rw [append_assoc, take_left, drop_left]
      exact length_mem_lens.mpr h2
  | .alt a b, _, m, r => by rw [lens, mem_append, length_mem_lens, length_mem_lens, Matches]
  | .opt a, _, m, r => by rw [lens, mem_append, length_mem_lens, Matches, mem_singleton, length_eq_zero_iff]
  | .plus p, _, m, r => by
    rw [lens, Matches, mem_reverse, mem_range'_1]
    constructor
    · rintro ⟨hpos, hlt⟩
      have hm : m <+: (m ++ r).takeWhile p :=
        prefix_of_prefix_length_le (prefix_append m r) ( takeWhile_prefix p) (by omega)
      exact ⟨length_pos_iff.mp hpos, fun c hc => mem_takeWhile_imp (hm.subset hc)⟩
    rintro ⟨hne, hall⟩
    rw [takeWhile_append_of_pos hall, length_append]
    have hpos := length_pos_iff.mpr hne
    omega

theorem Matches.lens_ne_nil {re : Re α} {prev : Option α} {m r : List α} (h : re.Matches word prev m r.head?) : re.lens word prev (m ++ r) ≠ [] :=
  ne_nil_of_mem (length_mem_lens.mpr h)

end Re

/-! ## Scanning -/

/-- What a scan makes of a text: symbols that stay, and matches. -/
inductive Piece (α : Type) : Type
  | keep (c : α)
  | cut (m : List α)

/-- The text of the pieces, with `f m` for a match `m`. -/
def render (f : List α → List α) : List (Piece α) → List α
  | [] => []
  | .keep c :: ps => c :: render f ps
  | .cut m :: ps => f m ++ render f ps

abbrev source (ps : List (Piece α)) : List α := render id ps

theorem render_append (f : List α → List α) (ps qs : List (Piece α)) : render f (ps ++ qs) = render f ps ++ render f qs := by
  induction ps with
  | nil => rfl
  | cons p ps ih => cases p <;> simp [render, ih]

theorem render_keep (f : List α → List α) (m : List α) (ps : List (Piece α)) : render f (m.map .keep ++ ps) = m ++ render f ps := by
  induction m with
  | nil => rfl
  | cons c m ih => simp [render, ih]

namespace Re

/-- The length of the match at the front of `s`. -/
def find (re : Re α) (prev : Option α) (s : List α) : Option ℕ := (re.lens word prev s).head?

/-- The scan of a text whose next `k` symbols belong to the last match. -/
def scanFrom (re : Re α) : Option α → ℕ → List α → List (Piece α)
  | _, _, [] => []
  | _, k + 1, c :: s => re.scanFrom (some c) k s
  | prev, 0, c :: s =>
    match re.find word prev (c :: s) with
    | some (n + 1) => .cut (c :: s.take n) :: re.scanFrom (some c) n s
    | _ => .keep c :: re.scanFrom (some c) 0 s

/-- The scan of `ReplaceAll`, for expressions that do not match the empty text. -/
def scan (re : Re α) (s : List α) : List (Piece α) := re.scanFrom word none 0 s

def replaceAllFunc (re : Re α) (f : List α → List α) (s : List α) : List α := render f (re.scan word s)

def replaceAll (re : Re α) (tok : List α) (s : List α) : List α := re.replaceAllFunc word (fun _ => tok) s

/-- The expression does not match the empty text. -/
def Solid (re : Re α) : Prop := ∀ prev m next, re.Matches word prev m next → m ≠ []

end Re

/-- The pieces of a scan: a match is cut out where there is one, and what stays starts none. -/
inductive Scanned (re : Re α) : Option α → List α → List (Piece α) → Prop
  | nil (prev : Option α) : Scanned re prev [] []
  | keep {prev : Option α} {c : α} {s : List α} {ps : List (Piece α)} (h : ∀ m r, c :: s = m ++ r → ¬ re.Matches word prev m r.head?)
      (hs : Scanned re (some c) s ps) : Scanned re prev (c :: s) (.keep c :: ps)
  | cut {prev : Option α} {m r : List α} {ps : List (Piece α)} (hm : m ≠ []) (h : re.Matches word prev m r.head?)
      (hr : Scanned re (m.getLast?.or prev) r ps) : Scanned re prev (m ++ r) (.cut m :: ps)

section Scans

variable {word} {re : Re α}

theorem getLast?_cons_or (c : α) (l : List α) (prev : Option α) : (c :: l).getLast?.or prev = l.getLast?.or (some c) := by
  rw [getLast?_cons]
  cases l.getLast? <;> rfl

theorem Re.scanFrom_scanned (hre : re.Solid word) : ∀ (s : List α) (k : ℕ) (prev : Option α), k ≤ s.length →
    Scanned word re ((s.take k).getLast?.or prev) (s.drop k) (re.scanFrom word prev k s)
  | [], k, prev, hk => by
    obtain rfl : k = 0 := Nat.le_zero.mp hk
    exact .nil _
  | c :: s, k + 1, prev, hk => by
    have ih := scanFrom_scanned hre s k (some c) (Nat.le_of_succ_le_succ hk)
    rw [← getLast?_cons_or c _ prev] at ih
    exact ih
  | c :: s, 0, prev, _ => by
    change Scanned word re prev (c :: s) _
    rw [Re.scanFrom]
    cases hf : re.find word prev (c :: s) with
    | none =>
      refine .keep (fun m r heq hm => ?_) (scanFrom_scanned hre s 0 (some c) (Nat.zero_le _))
      rw [heq] at hf
      exact hm.lens_ne_nil (head?_eq_none_iff.mp hf)
    | some n =>
    have hn := mem_of_mem_head? (Option.mem_def.mpr hf)
    have hle := Re.le_of_mem_lens hn
    obtain ⟨m, r, hsplit, rfl⟩ : ∃ m r, c :: s = m ++ r ∧ m.length = n :=
      ⟨(c :: s).take n, (c :: s).drop n, (take_append_drop n _).symm, length_take_of_le hle⟩
    rw [hsplit] at hn
    have hm := Re.length_mem_lens.mp hn
    cases m with
    | nil => exact absurd rfl (hre _ _ _ hm)
    | cons d m =>
    obtain ⟨rfl, rfl⟩ := List.cons.inj hsplit
    have ih := scanFrom_scanned hre (m ++ r) m.length (some c) (by simp)
    rw [take_left, drop_left, ← getLast?_cons_or c _ prev] at ih
    change Scanned word re prev (c :: m ++ r) (.cut (c :: (m ++ r).take m.length) :: re.scanFrom word (some c) m.length (m ++ r))
    rw [take_left]
    exact .cut (cons_ne_nil c m) hm ih

theorem Re.scan_scanned (hre : re.Solid word) (s : List α) : Scanned word re none s (re.scan word s) :=
  Re.scanFrom_scanned hre s 0 none (Nat.zero_le _)

variable {prev : Option α} {s : List α} {ps : List (Piece α)}

theorem Scanned.source_eq (h : Scanned word re prev s ps) : source ps = s := by
  induction h with
  | nil => rfl
  | keep _ _ ih => exact congrArg _ ih
  | cut _ _ _ ih => exact congrArg _ ih

theorem Scanned.drop {P Q : List (Piece α)} : ∀ {prev : Option α} {s : List α}, Scanned word re prev s (P ++ Q) →
    Scanned word re ((source P).getLast?.or prev) (source Q) Q := by
  induction P with
  | nil =>
    intro prev s h
    have hs : source Q = s := h.source_eq
    rw [hs]
    exact h
  | cons p P ih =>
    intro prev s h
    cases h with
    | @keep _ c _ _ _ hs =>
      have h := ih hs
      rw [← getLast?_cons_or c _ prev] at h
      exact h
    | @cut _ m r _ _ _ hr =>
    have h := ih hr
    rw [← Option.or_assoc, ← getLast?_append] at h
    exact h

theorem Scanned.not_matches {m r : List α} {c : α} (h : Scanned word re prev s (.keep c :: ps)) (hs : s = m ++ r) :
    ¬ re.Matches word prev m r.head? := by
  cases h with
  | keep hno _ => exact hno m r hs

theorem Scanned.cut_ne_nil {m : List α} (h : Scanned word re prev s ps) (hm : .cut m ∈ ps) : m ≠ [] := by
  induction h with
  | nil => cases hm
  | keep _ _ ih => exact ih ((mem_cons.mp hm).resolve_left (by rintro ⟨⟩))
  | cut hne _ _ ih =>
    rcases mem_cons.mp hm with heq | hm
    · cases heq
      exact hne
    · exact ih hm

end Scans

/-! ## Where a scan cuts -/

variable (w : α → Bool)

/-- No match is cut out of a longer row of symbols in `w`. -/
def Unsplit : Option α → List (Piece α) → Prop
  | _, [] => True
  | _, .keep c :: ps => Unsplit (some c) ps
  | prev, .cut m :: ps => ¬ (prev.any w ∧ m.head?.any w) ∧ ¬ (m.getLast?.any w ∧ (source ps).head?.any w) ∧ Unsplit (m.getLast?.or prev) ps

instance decidableUnsplit : (prev : Option α) → (ps : List (Piece α)) → Decidable (Unsplit w prev ps)
  | _, [] => inferInstanceAs (Decidable True)
  | _, .keep c :: ps => decidableUnsplit (some c) ps
  | prev, .cut m :: ps =>
    have := decidableUnsplit (m.getLast?.or prev) ps
    inferInstanceAs (Decidable (_ ∧ _ ∧ _))

section Cuts

variable {word w} {re : Re α} {prev : Option α} {s : List α} {ps P Q : List (Piece α)} {m : List α} {c : α}

theorem Unsplit.drop : ∀ {P : List (Piece α)} {prev : Option α}, Unsplit w prev (P ++ Q) → Unsplit w ((source P).getLast?.or prev) Q
  | [], _, h => h
  | .keep c :: P, prev, h => by
    have h' := Unsplit.drop (P := P) h
    rw [← getLast?_cons_or c _ prev] at h'
    exact h'
  | .cut m :: P, prev, h => by
    have h' := Unsplit.drop (P := P) h.2.2
    rw [← Option.or_assoc, ← getLast?_append] at h'
    exact h'

theorem any_mono {w' : α → Bool} (h : ∀ c, w' c = true → w c = true) {x : Option α} (hx : x.any w' = true) : x.any w = true := by
  cases x with
  | none => cases hx
  | some c => exact h c hx

theorem Unsplit.mono {w' : α → Bool} (h : ∀ c, w' c = true → w c = true) : ∀ {ps : List (Piece α)} {prev : Option α}, Unsplit w prev ps → Unsplit w' prev ps
  | [], _, _ => trivial
  | .keep c :: ps, _, hu => (show Unsplit w (some c) ps from hu).mono h
  | .cut _ :: _, _, hu => ⟨fun hx => hu.1 ⟨any_mono h hx.1, any_mono h hx.2⟩, fun hx => hu.2.1 ⟨any_mono h hx.1, any_mono h hx.2⟩, hu.2.2.mono h⟩

/-- Expressions whose matches are flanked by symbols that are not in `w`. -/
theorem Scanned.unsplit (h : Scanned word re prev s ps) (hre : ∀ prev m next, re.Matches word prev m next → ¬ prev.any w ∧ ¬ next.any w) :
    Unsplit w prev ps := by
  induction h with
  | nil => trivial
  | keep _ _ ih => exact ih
  | @cut _ m _ _ _ hm hr ih =>
    obtain ⟨hprev, hnext⟩ := hre _ _ _ hm
    rw [← hr.source_eq] at hnext
    exact ⟨fun h => hprev h.1, fun h => hnext h.2, ih⟩

/-- **Before** a symbol in `w` that stays, a symbol in `w` stays too. -/
theorem Unsplit.before (tok : List α) (h : Unsplit w none (P ++ .keep c :: Q)) (hne : ∀ m, .cut m ∈ P → m ≠ []) (hc : w c = true)
    (hw : (source P).getLast?.any w = true) : (render (fun _ => tok) P).getLast?.any w = true := by
  rcases eq_nil_or_concat' P with rfl | ⟨P, p, rfl⟩
  · exact hw
  rw [source, render_append] at hw
  rw [render_append]
  cases p with
  | keep d => simpa [render] using hw
  | cut m =>
  obtain ⟨m, d, rfl⟩ := (eq_nil_or_concat' m).resolve_left (hne m (by simp))
  rw [append_assoc] at h
  have hcut := h.drop.2.1
  have hd : w d = true := by simpa [render, ← append_assoc] using hw
  exact absurd ⟨by simpa using hd, hc⟩ hcut

/-- **After** a symbol in `w` that stays, a symbol in `w` stays too. -/
theorem Unsplit.after (tok : List α) (h : Unsplit w none (P ++ .keep c :: Q)) (hne : ∀ m, .cut m ∈ Q → m ≠ []) (hc : w c = true)
    (hw : (source Q).head?.any w = true) : (render (fun _ => tok) Q).head?.any w = true := by
  cases Q with
  | nil => exact hw
  | cons p Q =>
  cases p with
  | keep d => exact hw
  | cut m =>
  have hm : m ≠ [] := hne m mem_cons_self
  have hcut := (h.drop (P := P) (Q := .keep c :: .cut m :: Q)).1
  obtain ⟨d, m, rfl⟩ := exists_cons_of_ne_nil hm
  exact absurd ⟨hc, hw⟩ hcut

/-- Next to a stretch that stays: its neighbours in `w` stay if they are next to a symbol in `w`. -/
theorem Unsplit.around (tok : List α) (h : Unsplit w none (P ++ (m.map .keep ++ Q))) (hne : ∀ x, .cut x ∈ P ++ (m.map .keep ++ Q) → x ≠ []) :
    (m.head?.any w = true → (source P).getLast?.any w = true → (render (fun _ => tok) P).getLast?.any w = true) ∧
      (m.getLast?.any w = true → (source Q).head?.any w = true → (render (fun _ => tok) Q).head?.any w = true) := by
  constructor
  · intro hc hw
    cases m with
    | nil => cases hc
    | cons c m => exact h.before tok (fun x hx => hne x (mem_append_left _ hx)) hc hw
  intro hd hw
  rcases eq_nil_or_concat' m with rfl | ⟨m, d, rfl⟩
  · cases hd
  have h' : Unsplit w none ((P ++ m.map .keep) ++ .keep d :: Q) := by simpa using h
  rw [getLast?_concat] at hd
  exact h'.after tok (fun x hx => hne x (by simp [hx])) hd hw

/-! ## Tokens in brackets -/

variable {o e : α} {t : List α}

theorem getLast?_bracket (o e : α) (t : List α) : (o :: (t ++ [e])).getLast? = some e := by
  rw [← cons_append, getLast?_concat]

theorem head?_render_any {b : α → Bool} (ho : b o = false) (h : (render (fun _ => o :: (t ++ [e])) Q).head?.any b = true) :
    (source Q).head?.any b = true := by
  cases Q with
  | nil => exact h
  | cons p Q =>
  cases p with
  | keep d => exact h
  | cut m =>
  rw [render, cons_append, head?_cons, Option.any_some, ho] at h
  cases h

theorem getLast?_render_any {b : α → Bool} (he : b e = false) (h : (render (fun _ => o :: (t ++ [e])) P).getLast?.any b = true) :
    (source P).getLast?.any b = true := by
  rcases eq_nil_or_concat' P with rfl | ⟨P, p, rfl⟩
  · exact h
  rw [render_append] at h
  rw [source, render_append]
  cases p with
  | keep d => simpa [render] using h
  | cut m =>
  rw [render, render, append_nil, getLast?_append, getLast?_bracket, Option.some_or, Option.any_some, he] at h
  cases h

theorem keeps_front {R : List α} (ho : o ∉ m) (h : render (fun _ => o :: (t ++ [e])) ps = m ++ R) :
    ∃ Q, ps = m.map .keep ++ Q ∧ R = render (fun _ => o :: (t ++ [e])) Q := by
  induction m generalizing ps with
  | nil => exact ⟨ps, rfl, h.symm⟩
  | cons d m ih =>
    cases ps with
    | nil => cases h
    | cons p ps =>
    cases p with
    | keep c =>
      obtain ⟨rfl, h'⟩ := List.cons.inj h
      obtain ⟨Q, rfl, hR⟩ := ih (fun hm => ho (mem_cons_of_mem _ hm)) h'
      exact ⟨Q, rfl, hR⟩
    | cut x =>
    obtain ⟨rfl, -⟩ := List.cons.inj h
    exact absurd mem_cons_self ho

/-- **A stretch without brackets** that has a symbol of no token stayed. -/
theorem keeps_inner {L R : List α} (ho : o ∉ m) (he : e ∉ m) (hm : ∃ a ∈ m, a ∉ o :: (t ++ [e])) (h : render (fun _ => o :: (t ++ [e])) ps = L ++ (m ++ R)) :
    ∃ P Q, ps = P ++ (m.map .keep ++ Q) ∧ L = render (fun _ => o :: (t ++ [e])) P ∧ R = render (fun _ => o :: (t ++ [e])) Q := by
  induction ps generalizing L with
  | nil =>
    obtain ⟨a, ha, -⟩ := hm
    have hnil := nil_eq_append_iff.mp h
    rw [(append_eq_nil_iff.mp hnil.2).1] at ha
    cases ha
  | cons p ps ih =>
    cases p with
    | keep c =>
      cases L with
      | nil =>
        obtain ⟨Q, hQ, hR⟩ := keeps_front ho h
        exact ⟨[], Q, hQ, rfl, hR⟩
      | cons d L =>
      obtain ⟨rfl, h'⟩ := List.cons.inj h
      obtain ⟨P, Q, rfl, rfl, hR⟩ := ih h'
      exact ⟨.keep c :: P, Q, rfl, rfl, hR⟩
    | cut x =>
    rcases append_eq_append_iff.mp h with ⟨L', rfl, h'⟩ | ⟨u, htok, h'⟩
    · obtain ⟨P, Q, rfl, rfl, hR⟩ := ih h'
      exact ⟨.cut x :: P, Q, rfl, rfl, hR⟩
    have htok' : o :: (t ++ [e]) = L ++ u := htok
    rcases eq_nil_or_concat' u with rfl | ⟨u, d, rfl⟩
    · obtain ⟨P, Q, rfl, hP, hR⟩ := ih (L := []) h'.symm
      refine ⟨.cut x :: P, Q, rfl, ?_, hR⟩
      rw [render, ← hP, append_nil, htok', append_nil]
    -- the stretch starts inside the token, which it can neither leave nor fill
    obtain rfl : e = d := by
      have hlast := congrArg List.getLast? htok'
      rw [getLast?_bracket, ← append_assoc, getLast?_concat] at hlast
      exact Option.some.inj hlast
    rcases append_eq_append_iff.mp h' with ⟨v, hv, -⟩ | ⟨v, rfl, -⟩
    · obtain ⟨a, ha, hout⟩ := hm
      rw [htok', hv] at hout
      exact absurd (by simp [ha]) hout
    · exact absurd (by simp) he

end Cuts

/-! ## Kinds of expressions -/

namespace Re

/-- Every symbol of a match satisfies `p`. -/
def Over (p : α → Bool) : Re α → Prop
  | .eps => True
  | .chr q => ∀ c, q c = true → p c = true
  | .boundary => True
  | .seq a b => a.Over p ∧ b.Over p
  | .alt a b => a.Over p ∧ b.Over p
  | .opt a => a.Over p
  | .plus q => ∀ c, q c = true → p c = true

/-- Every match has a symbol that satisfies `p`. -/
def Shows (p : α → Bool) : Re α → Prop
  | .eps => False
  | .chr q => ∀ c, q c = true → p c = true
  | .boundary => False
  | .seq a b => a.Shows p ∨ b.Shows p
  | .alt a b => a.Shows p ∧ b.Shows p
  | .opt _ => False
  | .plus q => ∀ c, q c = true → p c = true

/-- The expression looks at its match only. -/
def Free : Re α → Prop
  | .boundary => False
  | .seq a b => a.Free ∧ b.Free
  | .alt a b => a.Free ∧ b.Free
  | .opt a => a.Free
  | _ => True

variable {word} {p : α → Bool}

theorem Matches.over : ∀ {re : Re α} {prev next : Option α} {m : List α}, re.Matches word prev m next → re.Over p → ∀ c ∈ m, p c = true
  | .eps, _, _, _, h, _, c, hc => by
    obtain rfl := h
    cases hc
  | .chr q, _, _, _, ⟨d, hm, hd⟩, ho, c, hc => by
    obtain rfl := hm
    cases mem_singleton.mp hc
    exact ho _ hd
  | .boundary, _, _, _, h, _, c, hc => by
    obtain ⟨rfl, -⟩ := h
    cases hc
  | .seq a b, _, _, _, ⟨m₁, m₂, hm, h1, h2⟩, ho, c, hc => by
    obtain rfl := hm
    exact (mem_append.mp hc).elim (h1.over ho.1 c) (h2.over ho.2 c)
  | .alt a b, _, _, _, h, ho, c, hc => h.elim (fun h => h.over ho.1 c hc) fun h => h.over ho.2 c hc
  | .opt a, _, _, _, h, ho, c, hc => by
    rcases h with h | rfl
    · exact h.over ho c hc
    · cases hc
  | .plus q, _, _, _, h, ho, c, hc => ho c (h.2 c hc)

theorem Matches.shows : ∀ {re : Re α} {prev next : Option α} {m : List α}, re.Matches word prev m next → re.Shows p → ∃ c ∈ m, p c = true
  | .chr q, _, _, _, ⟨d, hm, hd⟩, hs => by
    obtain rfl := hm
    exact ⟨d, mem_singleton_self d, hs d hd⟩
  | .seq a b, _, _, _, ⟨m₁, m₂, hm, h1, h2⟩, hs => by
    obtain rfl := hm
    rcases hs with hs | hs
    · obtain ⟨c, hc, hp⟩ := h1.shows hs
      exact ⟨c, mem_append_left _ hc, hp⟩
    · obtain ⟨c, hc, hp⟩ := h2.shows hs
      exact ⟨c, mem_append_right _ hc, hp⟩
  | .alt a b, _, _, _, h, hs => h.elim (fun h => h.shows hs.1) fun h => h.shows hs.2
  | .plus q, _, _, m, ⟨hne, hall⟩, hs => by
    obtain ⟨c, m, rfl⟩ := exists_cons_of_ne_nil hne
    exact ⟨c, mem_cons_self, hs c (hall c mem_cons_self)⟩

theorem Shows.solid {re : Re α} (h : re.Shows p) : re.Solid word := by
  rintro prev _ next hm rfl
  obtain ⟨c, hc, -⟩ := hm.shows h
  cases hc

theorem Matches.free : ∀ {re : Re α} {prev next : Option α} {m : List α}, re.Matches word prev m next → re.Free → ∀ prev' next', re.Matches word prev' m next'
  | .eps, _, _, _, h, _, _, _ => h
  | .chr _, _, _, _, h, _, _, _ => h
  | .seq _ _, _, _, _, ⟨m₁, m₂, hm, h1, h2⟩, hf, _, _ => ⟨m₁, m₂, hm, h1.free hf.1 _ _, h2.free hf.2 _ _⟩
  | .alt _ _, _, _, _, h, hf, _, _ => h.imp (fun h => h.free hf.1 _ _) fun h => h.free hf.2 _ _
  | .opt _, _, _, _, h, hf, _, _ => h.imp (fun h => h.free hf _ _) id
  | .plus _, _, _, _, h, _, _, _ => h

variable (word)

/-- The matches are the texts with a symbol of every class of `form`, in this order. -/
def Fixed (re : Re α) (form : List (α → Bool)) : Prop :=
  ∀ prev m next, re.Matches word prev m next ↔ List.Forall₂ (fun c (p : α → Bool) => p c = true) m form

/-- A match stays one between other symbols, unless a symbol of a word now stands next to its first or last one where none stood. -/
def Stable (re : Re α) : Prop := ∀ prev m next prev' next', re.Matches word prev m next →
  (m.head?.any word = true → prev'.any word = true → prev.any word = true) →
  (m.getLast?.any word = true → next'.any word = true → next.any word = true) → re.Matches word prev' m next'

variable {word} {a b : Re α} {form form' : List (α → Bool)}

theorem Free.stable (h : a.Free) : a.Stable word := fun _ _ _ prev' next' hm _ _ => hm.free h prev' next'

theorem fixed_eps : (eps : Re α).Fixed word [] := fun _ m _ => (List.forall₂_nil_right_iff (l := m)).symm

theorem fixed_chr (p : α → Bool) : (chr p).Fixed word [p] := by
  intro prev m next
  constructor
  · rintro ⟨c, rfl, hc⟩
    exact .cons hc .nil
  intro h
  cases h with
  | cons hc h =>
  cases h
  exact ⟨_, rfl, hc⟩

theorem Fixed.seq (ha : a.Fixed word form) (hb : b.Fixed word form') : (Re.seq a b).Fixed word (form ++ form') := by
  intro prev m next
  constructor
  · rintro ⟨m₁, m₂, rfl, h1, h2⟩
    exact rel_append ((ha _ _ _).mp h1) ((hb _ _ _).mp h2)
  intro h
  refine ⟨m.take form.length, m.drop form.length, (take_append_drop _ m).symm, (ha _ _ _).mpr ?_, (hb _ _ _).mpr ?_⟩
  · exact List.forall₂_take_append m form form' h
  · exact List.forall₂_drop_append m form form' h

theorem Fixed.all : ∀ {as : List (Re α)} {forms : List (List (α → Bool))}, List.Forall₂ (fun a form => Fixed word a form) as forms →
    (Re.all as).Fixed word forms.flatten
  | _, _, .nil => fixed_eps
  | _, _, .cons ha h => ha.seq (Fixed.all h)

theorem Fixed.rep (h : a.Fixed word form) : ∀ n, (a.rep n).Fixed word (List.replicate n form).flatten
  | 0 => fixed_eps
  | n + 1 => h.seq (Fixed.rep h n)

variable (word) in
/-- The first and the last symbol of a text in this form belong to words. -/
structure Wordlike (form : List (α → Bool)) : Prop where
  head : ∃ p form', form = p :: form' ∧ ∀ c, p c = true → word c = true
  last : ∃ form' p, form = form' ++ [p] ∧ ∀ c, p c = true → word c = true

theorem Wordlike.mono {word' : α → Bool} (h : ∀ c, word c = true → word' c = true) (hw : Wordlike word form) : Wordlike word' form := by
  obtain ⟨⟨p, form', hform, hp⟩, form'', q, hform', hq⟩ := hw
  exact ⟨⟨p, form', hform, fun c hc => h c (hp c hc)⟩, form'', q, hform', fun c hc => h c (hq c hc)⟩

variable {m : List α}

theorem Wordlike.head_any (hw : Wordlike word form) (h : List.Forall₂ (fun c (p : α → Bool) => p c = true) m form) : m.head?.any word = true := by
  obtain ⟨p, form, rfl, hp⟩ := hw.head
  cases h with
  | cons hc _ => exact hp _ hc

theorem Wordlike.last_any (hw : Wordlike word form) (h : List.Forall₂ (fun c (p : α → Bool) => p c = true) m form) : m.getLast?.any word = true := by
  obtain ⟨form, p, rfl, hp⟩ := hw.last
  have hlast := List.forall₂_drop_append m form [p] h
  rw [← take_append_drop form.length m]
  cases hd : m.drop form.length with
  | nil =>
    rw [hd] at hlast
    cases hlast
  | cons d m' =>
  rw [hd] at hlast
  cases hlast with
  | cons hc hnil =>
  cases hnil
  simpa using hp d hc

theorem any_or {x y : Option α} (h : x.any word = true) : (x.or y).any word = true := by
  cases x with
  | none => cases h
  | some c => exact h

/-- **Whole words of a fixed form.** -/
theorem Fixed.whole_iff (hf : a.Fixed word form) (hw : Wordlike word form) {prev next : Option α} :
    a.whole.Matches word prev m next ↔
      List.Forall₂ (fun c (p : α → Bool) => p c = true) m form ∧ ¬ prev.any word = true ∧ ¬ next.any word = true := by
  constructor
  · rintro ⟨_, _, rfl, ⟨rfl, hprev⟩, m, _, rfl, hm, rfl, hnext⟩
    rw [append_nil] at hprev ⊢
    have hform := (hf _ _ _).mp hm
    rw [any_or (hw.head_any hform)] at hprev
    rw [any_or (hw.last_any hform)] at hnext
    exact ⟨hform, hprev, fun h => hnext h.symm⟩
  rintro ⟨hform, hprev, hnext⟩
  refine ⟨[], m, rfl, ⟨rfl, ?_⟩, m, [], (append_nil m).symm, (hf _ _ _).mpr hform, rfl, ?_⟩
  · rw [any_or (hw.head_any hform)]
    exact hprev
  · rw [any_or (hw.last_any hform)]
    exact fun h => hnext h.symm

theorem Fixed.whole_stable (hf : a.Fixed word form) (hw : Wordlike word form) : a.whole.Stable word := by
  intro prev m next prev' next' hm hprev hnext
  obtain ⟨hform, hp, hn⟩ := (hf.whole_iff hw).mp hm
  exact (hf.whole_iff hw).mpr ⟨hform, fun h => hp (hprev (hw.head_any hform) h), fun h => hn (hnext (hw.last_any hform) h)⟩

end Re

/-! ## Matches in a text with tokens -/

/-- The expression matches somewhere in `s`. -/
def Re.Occurs (re : Re α) (s : List α) : Prop := ∃ L m R, s = L ++ (m ++ R) ∧ re.Matches word L.getLast? m R.head?

/-- Every match of `re` is free of the brackets `o` and `e`, and has a symbol outside the token. -/
def Re.Outside (re : Re α) (o e : α) (t : List α) : Prop := ∀ prev m next, re.Matches word prev m next → o ∉ m ∧ e ∉ m ∧ ∃ a ∈ m, a ∉ o :: (t ++ [e])

section Tokens

variable {word} {re re' : Re α} {o e : α} {t s : List α} {ps : List (Piece α)}

theorem render_of_not_cut {f : List α → List α} : ∀ {ps : List (Piece α)}, (∀ m, .cut m ∉ ps) → render f ps = source ps
  | [], _ => rfl
  | .keep c :: _, h => congrArg (c :: ·) (render_of_not_cut fun m hm => h m (mem_cons_of_mem _ hm))
  | .cut m :: _, h => absurd mem_cons_self (h m)

theorem Scanned.occurs {m : List α} (h : Scanned word re none s ps) (hm : .cut m ∈ ps) : re.Occurs word s := by
  obtain ⟨P, Q, rfl⟩ := append_of_mem hm
  refine ⟨source P, m, source Q, ?_, ?_⟩
  · rw [← h.source_eq, source, render_append]
    rfl
  have hcut := h.drop
  rw [Option.or_none] at hcut
  generalize hs : source (.cut m :: Q) = s' at hcut
  cases hcut with
  | cut _ hm hr =>
  rw [hr.source_eq]
  exact hm

theorem Re.replaceAll_eq_self (hre : re.Solid word) (h : ¬ re.Occurs word s) (tok : List α) : re.replaceAll word tok s = s := by
  have hs := re.scan_scanned hre s
  rw [Re.replaceAll, Re.replaceAllFunc, render_of_not_cut fun m hm => h (hs.occurs hm), hs.source_eq]

/-- **Matches after a pass.**  If the pieces are cut between words, or `re` looks at its match only, a match of `re` in the text with the tokens was there
before, among the symbols that stay. -/
theorem Re.Occurs.kept (hsolid : re.Solid word) (hout : re.Outside word o e t) (hps : re.Free ∨ re.Stable word ∧ Unsplit word none ps)
    (hne : ∀ m, .cut m ∈ ps → m ≠ []) (h : re.Occurs word (render (fun _ => o :: (t ++ [e])) ps)) :
    ∃ P c m Q, ps = P ++ ((c :: m).map .keep ++ Q) ∧ re.Matches word (source P).getLast? (c :: m) (source Q).head? := by
  obtain ⟨L, m, R, heq, hm⟩ := h
  obtain ⟨hom, hem, ham⟩ := hout _ _ _ hm
  obtain ⟨P, Q, rfl, rfl, rfl⟩ := keeps_inner hom hem ham heq
  obtain ⟨c, m, rfl⟩ := exists_cons_of_ne_nil (hsolid _ _ _ hm)
  refine ⟨P, c, m, Q, rfl, ?_⟩
  rcases hps with hfree | ⟨hstable, hunsplit⟩
  · exact hm.free hfree _ _
  · obtain ⟨hbefore, hafter⟩ := hunsplit.around (o :: (t ++ [e])) hne
    exact hstable _ _ _ _ _ hm hbefore hafter

/-- **Later passes** bring no match back. -/
theorem Re.Occurs.of_replaceAll (hsolid : re.Solid word) (hsolid' : re'.Solid word) (hout : re.Outside word o e t)
    (hps : re.Free ∨ re.Stable word ∧ Unsplit word none (re'.scan word s)) (h : re.Occurs word (re'.replaceAll word (o :: (t ++ [e])) s)) :
    re.Occurs word s := by
  have hs := re'.scan_scanned hsolid' s
  obtain ⟨P, c, m, Q, heq, hm⟩ := Re.Occurs.kept hsolid hout hps (fun m => hs.cut_ne_nil) h
  refine ⟨source P, c :: m, source Q, ?_, hm⟩
  rw [← hs.source_eq, heq, source, render_append, render_keep]

/-- **A pass** leaves no match of its own expression. -/
theorem Re.not_occurs_replaceAll (hsolid : re.Solid word) (hout : re.Outside word o e t)
    (hps : re.Free ∨ re.Stable word ∧ Unsplit word none (re.scan word s)) : ¬ re.Occurs word (re.replaceAll word (o :: (t ++ [e])) s) := by
  intro h
  have hs := re.scan_scanned hsolid s
  obtain ⟨P, c, m, Q, heq, hm⟩ := Re.Occurs.kept hsolid hout hps (fun m => hs.cut_ne_nil) h
  rw [heq] at hs
  have hkeep := hs.drop
  rw [Option.or_none] at hkeep
  exact hkeep.not_matches (render_keep id (c :: m) Q) hm

end Tokens

end Regexp
