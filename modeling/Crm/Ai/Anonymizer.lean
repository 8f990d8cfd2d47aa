import Crm.Basic
import Crm.Lib.Regexp
import Mathlib.Algebra.GroupWithZero.Nat

/-!
# Crm.Ai.Anonymizer — redaction of personal data

`internal/ai-assist/anonymizer/regex`: six expressions, applied one after the other, replace e-mail addresses, taxpayer numbers and telephone numbers by tokens.
The expressions name ASCII characters only, so it makes no difference whether a character of the text is a byte or a code point.
-/

namespace Crm.Anonymizer

open Regexp List

def TokenPhone : String := "[PII:PHONE]"

def TokenEmail : String := "[PII:EMAIL]"

def TokenCPF : String := "[PII:CPF]"

def TokenCNPJ : String := "[PII:CNPJ]"

/-! ## The expressions -/

/-- The characters of words: `\b` stands between one of these and another one, or an end of the text. -/
def isWord (c : Char) : Bool := c.isAlphanum || c == '_'

def digit : Re Char := .chr Char.isDigit

def lit (c : Char) : Re Char := .chr (· == c)

def oneOf (cs : List Char) : Re Char := .chr cs.contains

def emailRE : Re Char := .all [.plus fun c => c.isAlphanum || ['.', '_', '%', '+', '-'].contains c, lit '@', .plus fun c => c.isAlphanum || ['.', '-'].contains c,
  lit '.', .plus Char.isAlpha]

def cnpjMaskedRE : Re Char := .whole (.all [digit.rep 2, lit '.', digit.rep 3, lit '.', digit.rep 3, lit '/', digit.rep 4, lit '-', digit.rep 2])

def cpfMaskedRE : Re Char := .whole (.all [digit.rep 3, lit '.', digit.rep 3, lit '.', digit.rep 3, lit '-', digit.rep 2])

def cnpjRawRE : Re Char := .whole (digit.rep 14)

def cpfRawRE : Re Char := .whole (digit.rep 11)

def phoneRE : Re Char := .all [
  .alt (.all [.opt (lit '+'), lit '5', lit '5', .opt (oneOf [' ', '-']), .opt (lit '('), digit.rep 2, .opt (lit ')'), .opt (oneOf [' ', '-'])])
    (.alt (.all [lit '(', digit.rep 2, lit ')', .opt (oneOf [' ', '-'])]) (.all [digit.rep 2, oneOf [' ', '-']])),
  .opt (lit '9'), digit.rep 4, .opt (oneOf [' ', '-']), digit.rep 4]

/-! ## The adapter -/

structure Adapter where
  cpfChecksum : Bool

def new : Adapter := ⟨false⟩

def onlyDigits (s : List Char) : List Char := s.filter Char.isDigit

def digitAt (digits : List Char) (i : ℕ) : ℕ := (digits.getD i '0').toNat - '0'.toNat

def checkDigit (digits : List Char) (n : ℕ) : ℕ :=
  let sum := ((List.range n).map fun i => digitAt digits i * (n + 1 - i)).sum
  let d := sum * 10 % 11
  if d = 10 then 0 else d

def validCPF (s : List Char) : Bool :=
  let digits := onlyDigits s
  digitAt digits 9 = checkDigit digits 9 && digitAt digits 10 = checkDigit digits 10

namespace Adapter

variable (a : Adapter)

def replaceCPF (re : Re Char) (text : List Char) : List Char :=
  if a.cpfChecksum then re.replaceAllFunc isWord (fun m => if validCPF m then TokenCPF.toList else m) text
  else re.replaceAll isWord TokenCPF.toList text

def replaceCPFMasked (text : List Char) : List Char := a.replaceCPF cpfMaskedRE text

def replaceCPFRaw (text : List Char) : List Char := a.replaceCPF cpfRawRE text

def beforePhone (text : List Char) : List Char :=
  let text := emailRE.replaceAll isWord TokenEmail.toList text
  let text := cnpjMaskedRE.replaceAll isWord TokenCNPJ.toList text
  let text := a.replaceCPFMasked text
  let text := cnpjRawRE.replaceAll isWord TokenCNPJ.toList text
  a.replaceCPFRaw text

def anonymize (ctxErr : Option Err) (text : String) : Except Err String :=
  match ctxErr with
  | some e => .error (.join .anonymize e)
  | none =>
    if text = "" then .ok ""
    else .ok (String.ofList (phoneRE.replaceAll isWord TokenPhone.toList (a.beforePhone text.toList)))

end Adapter

/-! ## What the expressions match -/

def noBracket (c : Char) : Bool := c != '[' && c != ']'

def telling (c : Char) : Bool := c.isDigit || c == '@'

theorem noBracket_of {q : Char → Bool} (ho : q '[' = false) (he : q ']' = false) (c : Char) (h : q c = true) : noBracket c = true := by
  rw [noBracket, Bool.and_eq_true, bne_iff_ne, bne_iff_ne]
  constructor
  · rintro rfl
    rw [ho] at h
    cases h
  · rintro rfl
    rw [he] at h
    cases h

theorem telling_of_isDigit (c : Char) (h : c.isDigit = true) : telling c = true := by
  rw [telling, h, Bool.true_or]

/-- The expressions of the adapter: matches without brackets, each with a digit or an `@`. -/
structure Pattern (re : Re Char) : Prop where
  chars : re.Over noBracket
  tells : re.Shows telling

theorem digit_over (n : ℕ) : (digit.rep n).Over noBracket := by
  induction n with
  | zero => trivial
  | succ n ih => exact ⟨noBracket_of rfl rfl, ih⟩

theorem digit_tells (n : ℕ) : (digit.rep (n + 1)).Shows telling := .inl telling_of_isDigit

theorem lit_over (c : Char) (ho : ('[' == c) = false) (he : (']' == c) = false) : (lit c).Over noBracket := noBracket_of ho he

theorem emailRE_pattern : Pattern emailRE where
  chars := ⟨noBracket_of rfl rfl, lit_over _ rfl rfl, noBracket_of rfl rfl, lit_over _ rfl rfl, noBracket_of rfl rfl, trivial⟩
  tells := by
    refine .inr (.inl fun c h => ?_)
    exact (Bool.or_eq_true _ _).mpr (.inr h)

theorem cnpjMaskedRE_pattern : Pattern cnpjMaskedRE where
  chars := ⟨trivial, ⟨digit_over 2, lit_over _ rfl rfl, digit_over 3, lit_over _ rfl rfl, digit_over 3, lit_over _ rfl rfl, digit_over 4, lit_over _ rfl rfl,
    digit_over 2, trivial⟩, trivial⟩
  tells := .inr (.inl (.inl (digit_tells 1)))

theorem cpfMaskedRE_pattern : Pattern cpfMaskedRE where
  chars := ⟨trivial, ⟨digit_over 3, lit_over _ rfl rfl, digit_over 3, lit_over _ rfl rfl, digit_over 3, lit_over _ rfl rfl, digit_over 2, trivial⟩, trivial⟩
  tells := .inr (.inl (.inl (digit_tells 2)))

theorem cnpjRawRE_pattern : Pattern cnpjRawRE where
  chars := ⟨trivial, digit_over 14, trivial⟩
  tells := .inr (.inl (digit_tells 13))

theorem cpfRawRE_pattern : Pattern cpfRawRE where
  chars := ⟨trivial, digit_over 11, trivial⟩
  tells := .inr (.inl (digit_tells 10))

theorem phoneRE_pattern : Pattern phoneRE where
  chars := by
    have hsep : (oneOf [' ', '-']).Over noBracket := noBracket_of rfl rfl
    refine ⟨⟨⟨lit_over _ rfl rfl, lit_over _ rfl rfl, lit_over _ rfl rfl, hsep, lit_over _ rfl rfl, digit_over 2, lit_over _ rfl rfl, hsep, trivial⟩, ?_, ?_⟩,
      lit_over _ rfl rfl, digit_over 4, hsep, digit_over 4, trivial⟩
    · exact ⟨lit_over _ rfl rfl, digit_over 2, lit_over _ rfl rfl, hsep, trivial⟩
    · exact ⟨digit_over 2, hsep, trivial⟩
  tells := .inr (.inr (.inl (digit_tells 3)))

theorem digit_free (n : ℕ) : (digit.rep n).Free := by
  induction n with
  | zero => trivial
  | succ n ih => exact ⟨trivial, ih⟩

theorem emailRE_free : emailRE.Free := ⟨trivial, trivial, trivial, trivial, trivial, trivial⟩

theorem phoneRE_free : phoneRE.Free := by
  refine ⟨⟨?_, ?_, ?_⟩, trivial, digit_free 4, trivial, digit_free 4, trivial⟩
  · exact ⟨trivial, trivial, trivial, trivial, trivial, digit_free 2, trivial, trivial, trivial⟩
  · exact ⟨trivial, digit_free 2, trivial, trivial, trivial⟩
  · exact ⟨digit_free 2, trivial, trivial⟩

variable {re : Re Char} {c : Char} {m : List Char}

theorem Pattern.solid (h : Pattern re) : re.Solid isWord := h.tells.solid

theorem not_mem_token {t : List Char} (ht : ∀ c ∈ t, telling c = false) (hc : telling c = true) : c ∉ '[' :: (t ++ [']']) := by
  intro hmem
  rcases mem_cons.mp hmem with rfl | hmem
  · cases hc
  rcases mem_append.mp hmem with hmem | hmem
  · rw [ht c hmem] at hc
    cases hc
  · cases mem_singleton.mp hmem
    cases hc

theorem Pattern.outside (h : Pattern re) {t : List Char} (ht : ∀ c ∈ t, telling c = false) : re.Outside isWord '[' ']' t := by
  intro prev m next hm
  refine ⟨fun ho => ?_, fun he => ?_, ?_⟩
  · cases hm.over h.chars _ ho
  · cases hm.over h.chars _ he
  · obtain ⟨c, hc, htell⟩ := hm.shows h.tells
    exact ⟨c, hc, not_mem_token ht htell⟩

/-! ## Taxpayer numbers -/

/-- A form in which `d` stands for a digit, and any other character for itself. -/
def template (form : String) : List (Char → Bool) := form.toList.map fun t => if t = 'd' then Char.isDigit else (· == t)

def Fits (form : String) (m : List Char) : Prop := List.Forall₂ (fun c (p : Char → Bool) => p c = true) m (template form)

/-- The expression matches the whole words of the form, which starts and ends with a digit. -/
structure Whole (re : Re Char) (form : String) : Prop where
  ends : Re.Wordlike Char.isDigit (template form)
  iff : ∀ prev m next, re.Matches isWord prev m next ↔ Fits form m ∧ ¬ prev.any isWord = true ∧ ¬ next.any isWord = true
  stable : re.Stable isWord

theorem isWord_of_isDigit (c : Char) (h : c.isDigit = true) : isWord c = true := by
  rw [isWord, Char.isAlphanum, h, Bool.or_true, Bool.true_or]

theorem Whole.of_fixed (re : Re Char) {form : String} (hf : re.Fixed isWord (template form))
    (hw : Re.Wordlike Char.isDigit (template form)) : Whole re.whole form :=
  ⟨hw, fun _ _ _ => hf.whole_iff (hw.mono isWord_of_isDigit), hf.whole_stable (hw.mono isWord_of_isDigit)⟩

theorem fixed_digit (n : ℕ) : (digit.rep n).Fixed isWord (List.replicate n [Char.isDigit]).flatten := (Re.fixed_chr _).rep n

theorem cnpjMaskedRE_whole : Whole cnpjMaskedRE "dd.ddd.ddd/dddd-dd" := by
  refine .of_fixed (.all _) ?_ ⟨⟨_, _, rfl, fun _ h => h⟩, template "dd.ddd.ddd/dddd-d", _, rfl, fun _ h => h⟩
  exact .all (.cons (fixed_digit 2) (.cons (Re.fixed_chr _) (.cons (fixed_digit 3) (.cons (Re.fixed_chr _) (.cons (fixed_digit 3) (.cons (Re.fixed_chr _)
    (.cons (fixed_digit 4) (.cons (Re.fixed_chr _) (.cons (fixed_digit 2) .nil)))))))))

theorem cpfMaskedRE_whole : Whole cpfMaskedRE "ddd.ddd.ddd-dd" := by
  refine .of_fixed (.all _) ?_ ⟨⟨_, _, rfl, fun _ h => h⟩, template "ddd.ddd.ddd-d", _, rfl, fun _ h => h⟩
  exact .all (.cons (fixed_digit 3) (.cons (Re.fixed_chr _) (.cons (fixed_digit 3) (.cons (Re.fixed_chr _) (.cons (fixed_digit 3) (.cons (Re.fixed_chr _)
    (.cons (fixed_digit 2) .nil)))))))

theorem cnpjRawRE_whole : Whole cnpjRawRE "dddddddddddddd" :=
  .of_fixed _ (fixed_digit 14) ⟨⟨_, _, rfl, fun _ h => h⟩, template "ddddddddddddd", _, rfl, fun _ h => h⟩

theorem cpfRawRE_whole : Whole cpfRawRE "ddddddddddd" :=
  .of_fixed _ (fixed_digit 11) ⟨⟨_, _, rfl, fun _ h => h⟩, template "dddddddddd", _, rfl, fun _ h => h⟩

theorem Whole.unsplit {form : String} (h : Whole re form) (hp : Pattern re) (s : List Char) : Unsplit isWord none (re.scan isWord s) :=
  (re.scan_scanned hp.solid s).unsplit fun _ _ _ hm => ((h.iff _ _ _).mp hm).2

/-! ## Passes -/

/-- An expression and the token that replaces its matches. -/
structure Pass (re : Re Char) (tok : String) : Prop where
  pattern : Pattern re
  token : ∃ t, tok.toList = '[' :: (t ++ [']']) ∧ ∀ c ∈ t, telling c = false

theorem quiet_of_all {t : List Char} (h : (t.all fun c => !telling c) = true) : ∀ c ∈ t, telling c = false := by simpa using h

theorem emailRE_pass : Pass emailRE TokenEmail := ⟨emailRE_pattern, "PII:EMAIL".toList, rfl, quiet_of_all rfl⟩

theorem cnpjMaskedRE_pass : Pass cnpjMaskedRE TokenCNPJ := ⟨cnpjMaskedRE_pattern, "PII:CNPJ".toList, rfl, quiet_of_all rfl⟩

theorem cpfMaskedRE_pass : Pass cpfMaskedRE TokenCPF := ⟨cpfMaskedRE_pattern, "PII:CPF".toList, rfl, quiet_of_all rfl⟩

theorem cnpjRawRE_pass : Pass cnpjRawRE TokenCNPJ := ⟨cnpjRawRE_pattern, "PII:CNPJ".toList, rfl, quiet_of_all rfl⟩

theorem cpfRawRE_pass : Pass cpfRawRE TokenCPF := ⟨cpfRawRE_pattern, "PII:CPF".toList, rfl, quiet_of_all rfl⟩

theorem phoneRE_pass : Pass phoneRE TokenPhone := ⟨phoneRE_pattern, "PII:PHONE".toList, rfl, quiet_of_all rfl⟩

/-- None of the expressions matches in the text; they stay matches as long as no word is cut. -/
structure Clean (done : List (Re Char)) (s : List Char) : Prop where
  pattern : ∀ re ∈ done, Pattern re
  stable : ∀ re ∈ done, re.Stable isWord
  none : ∀ re ∈ done, ¬ re.Occurs isWord s

variable {re : Re Char} {tok : String} {s : List Char} {done : List (Re Char)}

/-- **A pass** that cuts no word cleans the text of its own matches, and brings none back. -/
theorem Pass.clean (hp : Pass re tok) (hstable : re.Stable isWord) (hu : Unsplit isWord none (re.scan isWord s)) (h : Clean done s) :
    Clean (re :: done) (re.replaceAll isWord tok.toList s) := by
  obtain ⟨t, ht, htell⟩ := hp.token
  rw [ht]
  refine ⟨forall_mem_cons.mpr ⟨hp.pattern, h.pattern⟩, forall_mem_cons.mpr ⟨hstable, h.stable⟩, forall_mem_cons.mpr ⟨?_, fun re' hre' hocc => ?_⟩⟩
  · exact Re.not_occurs_replaceAll hp.pattern.solid (hp.pattern.outside htell) (.inr ⟨hstable, hu⟩)
  · have hp' := h.pattern re' hre'
    exact h.none re' hre' (hocc.of_replaceAll hp'.solid hp.pattern.solid (hp'.outside htell) (.inr ⟨h.stable re' hre', hu⟩))

/-- The first pass, whose expression looks at its match only. -/
theorem clean_email (s : List Char) : Clean [emailRE] (emailRE.replaceAll isWord TokenEmail.toList s) := by
  obtain ⟨t, ht, htell⟩ := emailRE_pass.token
  rw [ht]
  refine ⟨forall_mem_singleton.mpr emailRE_pattern, forall_mem_singleton.mpr emailRE_free.stable, forall_mem_singleton.mpr ?_⟩
  exact Re.not_occurs_replaceAll emailRE_pattern.solid (emailRE_pattern.outside htell) (.inl emailRE_free)

theorem replaceCPF_new (re : Re Char) (s : List Char) : new.replaceCPF re s = re.replaceAll isWord TokenCPF.toList s := if_neg Bool.false_ne_true

theorem beforePhone_new (s : List Char) : new.beforePhone s =
    cpfRawRE.replaceAll isWord TokenCPF.toList (cnpjRawRE.replaceAll isWord TokenCNPJ.toList (cpfMaskedRE.replaceAll isWord TokenCPF.toList
      (cnpjMaskedRE.replaceAll isWord TokenCNPJ.toList (emailRE.replaceAll isWord TokenEmail.toList s)))) := by
  rw [Adapter.beforePhone, Adapter.replaceCPFRaw, Adapter.replaceCPFMasked, replaceCPF_new, replaceCPF_new]

/-- The text before the last pass is clean of all the expressions but the last. -/
theorem clean_beforePhone (s : List Char) : Clean [cpfRawRE, cnpjRawRE, cpfMaskedRE, cnpjMaskedRE, emailRE] (new.beforePhone s) := by
  rw [beforePhone_new]
  have h1 := cnpjMaskedRE_pass.clean cnpjMaskedRE_whole.stable (cnpjMaskedRE_whole.unsplit cnpjMaskedRE_pattern _) (clean_email s)
  have h2 := cpfMaskedRE_pass.clean cpfMaskedRE_whole.stable (cpfMaskedRE_whole.unsplit cpfMaskedRE_pattern _) h1
  have h3 := cnpjRawRE_pass.clean cnpjRawRE_whole.stable (cnpjRawRE_whole.unsplit cnpjRawRE_pattern _) h2
  exact cpfRawRE_pass.clean cpfRawRE_whole.stable (cpfRawRE_whole.unsplit cpfRawRE_pattern _) h3

/-- The last pass on a text cuts no word: at neither end of a number that it replaces do characters of words stand on both sides. -/
structure PhonesApart (s : List Char) : Prop where
  unsplit : Unsplit isWord none (phoneRE.scan isWord (new.beforePhone s))

instance decidablePhonesApart (s : List Char) : Decidable (PhonesApart s) :=
  decidable_of_iff (Unsplit isWord none (phoneRE.scan isWord (new.beforePhone s))) ⟨PhonesApart.mk, PhonesApart.unsplit⟩

def redacted (s : List Char) : List Char := phoneRE.replaceAll isWord TokenPhone.toList (new.beforePhone s)

theorem clean_redacted (h : PhonesApart s) : Clean [phoneRE, cpfRawRE, cnpjRawRE, cpfMaskedRE, cnpjMaskedRE, emailRE] (redacted s) :=
  phoneRE_pass.clean phoneRE_free.stable h.unsplit (clean_beforePhone s)

theorem redacted_of_clean (h : Clean [phoneRE, cpfRawRE, cnpjRawRE, cpfMaskedRE, cnpjMaskedRE, emailRE] s) : redacted s = s := by
  have hself : ∀ re ∈ [phoneRE, cpfRawRE, cnpjRawRE, cpfMaskedRE, cnpjMaskedRE, emailRE], ∀ tok, re.replaceAll isWord tok s = s := fun re hre =>
    Re.replaceAll_eq_self (h.pattern re hre).solid (h.none re hre)
  have hbefore : new.beforePhone s = s := by
    rw [beforePhone_new, hself emailRE (by simp), hself cnpjMaskedRE (by simp), hself cpfMaskedRE (by simp), hself cnpjRawRE (by simp), hself cpfRawRE (by simp)]
  rw [redacted, hbefore, hself phoneRE (by simp)]

theorem anonymize_eq_ok {ctxErr : Option Err} {x y : String} : new.anonymize ctxErr x = .ok y ↔ ctxErr = none ∧ y.toList = redacted x.toList := by
  cases ctxErr with
  | some e => simp [Adapter.anonymize]
  | none =>
  by_cases hx : x = ""
  · subst hx
    rw [Adapter.anonymize, if_pos rfl, Except.ok.injEq, show redacted "".toList = [] from rfl, String.toList_eq_nil_iff]
    simp [eq_comm]
  rw [Adapter.anonymize, if_neg hx, Except.ok.injEq]
  change String.ofList (redacted x.toList) = y ↔ none = none ∧ y.toList = redacted x.toList
  constructor
  · rintro rfl
    exact ⟨rfl, String.toList_ofList⟩
  · rintro ⟨-, hy⟩
    rw [← hy, String.ofList_toList]

theorem sample_runs : (PhonesApart "fone (11) 91234-5678, a@b.co".toList ∧ PhonesApart "12345678901".toList) ∧
    new.anonymize none "fone (11) 91234-5678, a@b.co" = .ok "fone [PII:PHONE], [PII:EMAIL]" ∧ new.anonymize none "12345678901" = .ok "[PII:CPF]" ∧
    new.anonymize none "1234567890123 12345678" = .ok "12345678901[PII:PHONE]" ∧
    new.anonymize none "12345678901[PII:PHONE]" = .ok "[PII:CPF][PII:PHONE]" ∧ new.anonymize none "a12345678901" = .ok "a12345678901" := by
  decide +kernel

/-- The stretch `m` is a taxpayer number: a maximal row of 11 or 14 digits, or one of the masked forms. -/
def IDAt (L m R : List Char) : Prop :=
  (Fits "ddddddddddd" m ∨ Fits "dddddddddddddd" m) ∧ ¬ L.getLast?.any Char.isDigit = true ∧ ¬ R.head?.any Char.isDigit = true ∨
    Fits "ddd.ddd.ddd-dd" m ∨ Fits "dd.ddd.ddd/dddd-dd" m

/-- No taxpayer number of the text touches a letter, a digit or `_`. -/
structure IDsApart (s : List Char) : Prop where
  flanked : ∀ L m R, s = L ++ (m ++ R) → IDAt L m R → ¬ L.getLast?.any isWord = true ∧ ¬ R.head?.any isWord = true

/-- What a taxpayer number looks like: no brackets, and a digit at either end. -/
theorem IDAt.chars {L R : List Char} (h : IDAt L m R) : '[' ∉ m ∧ ']' ∉ m ∧ m.head?.any Char.isDigit = true ∧ m.getLast?.any Char.isDigit = true := by
  have hform : ∀ {re form}, Whole re form → Pattern re → Fits form m →
      '[' ∉ m ∧ ']' ∉ m ∧ m.head?.any Char.isDigit = true ∧ m.getLast?.any Char.isDigit = true := by
    intro re form hw hp hm
    have hmatch : re.Matches isWord none m none := (hw.iff _ _ _).mpr ⟨hm, Bool.false_ne_true, Bool.false_ne_true⟩
    refine ⟨fun ho => ?_, fun he => ?_, hw.ends.head_any hm, hw.ends.last_any hm⟩
    · cases hmatch.over hp.chars _ ho
    · cases hmatch.over hp.chars _ he
  rcases h with ⟨h | h, -⟩ | h | h
  · exact hform cpfRawRE_whole cpfRawRE_pattern h
  · exact hform cnpjRawRE_whole cnpjRawRE_pattern h
  · exact hform cpfMaskedRE_whole cpfMaskedRE_pattern h
  · exact hform cnpjMaskedRE_whole cnpjMaskedRE_pattern h

/-- **A pass** that cuts no row of digits leaves taxpayer numbers apart. -/
theorem Pass.idsApart (hp : Pass re tok) (hu : Unsplit Char.isDigit none (re.scan isWord s)) (h : IDsApart s) :
    IDsApart (re.replaceAll isWord tok.toList s) := by
  obtain ⟨t, ht, htell⟩ := hp.token
  have hs := re.scan_scanned hp.pattern.solid s
  refine ⟨fun L m R heq hid => ?_⟩
  obtain ⟨ho, he, hhead, hlast⟩ := hid.chars
  obtain ⟨c, m', rfl⟩ : ∃ c m', m = c :: m' := by
    cases m with
    | nil => cases hhead
    | cons c m' => exact ⟨c, m', rfl⟩
  rw [ht, Re.replaceAll, Re.replaceAllFunc] at heq
  obtain ⟨P, Q, hps, rfl, rfl⟩ := keeps_inner ho he ⟨c, mem_cons_self, not_mem_token htell (telling_of_isDigit c hhead)⟩ heq
  have hsource : s = source P ++ (c :: m' ++ source Q) := by
    rw [← hs.source_eq, hps, source, render_append, render_keep]
  have hne := fun x => hs.cut_ne_nil (m := x)
  rw [hps] at hu hne
  obtain ⟨hbefore, hafter⟩ := hu.around ('[' :: (t ++ [']'])) hne
  have hid' : IDAt (source P) (c :: m') (source Q) :=
    hid.imp (fun hraw => ⟨hraw.1, fun hd => hraw.2.1 (hbefore hhead hd), fun hd => hraw.2.2 (hafter hlast hd)⟩) id
  obtain ⟨hl, hr⟩ := h.flanked _ _ _ hsource hid'
  exact ⟨fun hw => hl (getLast?_render_any rfl hw), fun hw => hr (head?_render_any rfl hw)⟩

theorem emailRE_cons {prev next : Option Char} (h : emailRE.Matches isWord (some c) m next) (hc : c.isDigit = true) :
    emailRE.Matches isWord prev (c :: m) next := by
  obtain ⟨m₁, m₂, rfl, ⟨-, hall⟩, h2⟩ := h.free emailRE_free prev next
  refine ⟨c :: m₁, m₂, rfl, ⟨cons_ne_nil _ _, forall_mem_cons.mpr ⟨?_, hall⟩⟩, ?_⟩
  · have halnum : c.isAlphanum = true := by rw [Char.isAlphanum, hc, Bool.or_true]
    exact (Bool.or_eq_true _ _).mpr (.inl halnum)
  · exact h2.free emailRE_free.2 _ _

theorem not_isDigit_of_isAlpha (h : c.isAlpha = true) : ¬ c.isDigit = true := by
  intro hd
  obtain ⟨-, hnine⟩ := (Bool.and_eq_true _ _).mp hd
  have hle : c.val.toNat ≤ 57 := UInt32.le_iff_toNat_le.mp (of_decide_eq_true hnine)
  rcases (Bool.or_eq_true _ _).mp h with hletter | hletter
  · have hge : 65 ≤ c.val.toNat := UInt32.le_iff_toNat_le.mp (of_decide_eq_true hletter).1
    omega
  · obtain ⟨ha, -⟩ := (Bool.and_eq_true _ _).mp hletter
    have hge : 97 ≤ c.val.toNat := UInt32.le_iff_toNat_le.mp (of_decide_eq_true ha)
    omega

theorem emailRE_last {prev next : Option Char} (h : emailRE.Matches isWord prev m next) : ¬ m.getLast?.any Char.isDigit = true := by
  obtain ⟨m₁, _, rfl, -, m₂, _, rfl, -, m₃, _, rfl, -, m₄, _, rfl, -, m₅, _, rfl, ⟨hne, hall⟩, rfl⟩ := h
  obtain ⟨m₅, d, rfl⟩ := (eq_nil_or_concat' m₅).resolve_left hne
  have hlast : (m₁ ++ (m₂ ++ (m₃ ++ (m₄ ++ (m₅ ++ [d] ++ []))))).getLast? = some d := by simp [← append_assoc]
  rw [hlast]
  exact not_isDigit_of_isAlpha (hall d (by simp))

/-- The first pass cuts no row of digits: the local part of an address takes all the digits before it. -/
theorem unsplit_email (s : List Char) : Unsplit Char.isDigit none (emailRE.scan isWord s) := by
  have key : ∀ {prev s ps}, Scanned isWord emailRE prev s ps →
      (prev.any Char.isDigit = true → ∀ m r, s = m ++ r → ¬ emailRE.Matches isWord prev m r.head?) → Unsplit Char.isDigit prev ps := by
    intro prev s ps h
    induction h with
    | nil => exact fun _ => trivial
    | @keep prev c s ps hno hs ih =>
      intro _
      refine ih fun hc m r heq hm => hno (c :: m) r (congrArg (c :: ·) heq) (emailRE_cons hm hc)
    | @cut prev m r ps hne hm hr ih =>
      intro hprev
      have hlast := emailRE_last hm
      refine ⟨fun hd => hprev hd.1 m r rfl hm, fun hd => hlast hd.1, ih fun hd => ?_⟩
      obtain ⟨m, d, rfl⟩ := (eq_nil_or_concat' m).resolve_left hne
      rw [getLast?_concat] at hd hlast
      exact absurd hd hlast
  exact key (emailRE.scan_scanned emailRE_pattern.solid s) (by rintro ⟨⟩)

theorem idsApart_beforePhone (h : IDsApart s) : IDsApart (new.beforePhone s) := by
  have hdigits : ∀ {re form} (s : List Char), Whole re form → Pattern re → Unsplit Char.isDigit none (re.scan isWord s) := fun s hw hp =>
    (hw.unsplit hp s).mono isWord_of_isDigit
  rw [beforePhone_new]
  have h0 := emailRE_pass.idsApart (unsplit_email s) h
  have h1 := cnpjMaskedRE_pass.idsApart (hdigits _ cnpjMaskedRE_whole cnpjMaskedRE_pattern) h0
  have h2 := cpfMaskedRE_pass.idsApart (hdigits _ cpfMaskedRE_whole cpfMaskedRE_pattern) h1
  have h3 := cnpjRawRE_pass.idsApart (hdigits _ cnpjRawRE_whole cnpjRawRE_pattern) h2
  exact cpfRawRE_pass.idsApart (hdigits _ cpfRawRE_whole cpfRawRE_pattern) h3

theorem idsApart_redacted (h : IDsApart s) (hphone : PhonesApart s) : IDsApart (redacted s) :=
  phoneRE_pass.idsApart (hphone.unsplit.mono isWord_of_isDigit) (idsApart_beforePhone h)

theorem IDsApart.occurs {L R : List Char} (h : IDsApart s) (heq : s = L ++ (m ++ R)) (hid : IDAt L m R) :
    ∃ re ∈ [cpfRawRE, cnpjRawRE, cpfMaskedRE, cnpjMaskedRE], re.Occurs isWord s := by
  obtain ⟨hl, hr⟩ := h.flanked L m R heq hid
  have hocc : ∀ {re form}, Whole re form → Fits form m → re.Occurs isWord s := fun hw hm => ⟨L, m, R, heq, (hw.iff _ _ _).mpr ⟨hm, hl, hr⟩⟩
  rcases hid with ⟨hm | hm, -⟩ | hm | hm
  · exact ⟨cpfRawRE, by simp, hocc cpfRawRE_whole hm⟩
  · exact ⟨cnpjRawRE, by simp, hocc cnpjRawRE_whole hm⟩
  · exact ⟨cpfMaskedRE, by simp, hocc cpfMaskedRE_whole hm⟩
  · exact ⟨cnpjMaskedRE, by simp, hocc cnpjMaskedRE_whole hm⟩

theorem idsApart_of_length (h : s.length ≤ 11) : IDsApart s := by
  refine ⟨fun L m R heq hid => ?_⟩
  have hlen : 11 ≤ m.length := by
    rcases hid with ⟨hm | hm, -⟩ | hm | hm
    · exact Nat.le_of_eq hm.length_eq.symm
    · exact Nat.le_of_lt (Nat.lt_of_lt_of_eq (by decide) hm.length_eq.symm)
    · exact Nat.le_of_lt (Nat.lt_of_lt_of_eq (by decide) hm.length_eq.symm)
    · exact Nat.le_of_lt (Nat.lt_of_lt_of_eq (by decide) hm.length_eq.symm)
  have hsum : s.length = L.length + (m.length + R.length) := by rw [heq, length_append, length_append]
  obtain rfl : L = [] := length_eq_zero_iff.mp (by omega)
  obtain rfl : R = [] := length_eq_zero_iff.mp (by omega)
  exact ⟨Bool.false_ne_true, Bool.false_ne_true⟩

end Crm.Anonymizer
