import Mathlib.Data.Int.Notation
import Mathlib.Data.List.DropRight
import Mathlib.Data.List.Infix

/-!
# Text — trimming blanks, letter case

`trimSpace` drops the white space at both ends of a text, with the characters that Unicode counts as white space.  `CaseTables` holds
Unicode's case tables, of which only the ASCII part is fixed here.
-/

namespace Text

open List

def isSpace (c : Char) : Bool :=
  (0x9 ≤ c.toNat && c.toNat ≤ 0xd) || (0x2000 ≤ c.toNat && c.toNat ≤ 0x200a) ||
    [0x20, 0x85, 0xa0, 0x1680, 0x2028, 0x2029, 0x202f, 0x205f, 0x3000].contains c.toNat

theorem isSpace_of_letter {c : Char} (h : 65 ≤ c.toNat) (h' : c.toNat ≤ 122) : isSpace c = false := by
  simp only [isSpace, contains_eq_mem, mem_cons, not_mem_nil, or_false, Bool.or_eq_false_iff, Bool.and_eq_false_iff,
    decide_eq_false_iff_not]
  omega

def trimSpace (s : String) : String :=
  String.ofList (((s.toList.dropWhile isSpace).reverse.dropWhile isSpace).reverse)

theorem trimSpace_eq (s : String) : trimSpace s = String.ofList ((s.toList.dropWhile isSpace).rdropWhile isSpace) := rfl

/-- A trimmed text has no more blanks at its ends. -/
theorem trimSpace_trimSpace (s : String) : trimSpace (trimSpace s) = trimSpace s := by
  have hfront : ((s.toList.dropWhile isSpace).rdropWhile isSpace).dropWhile isSpace = (s.toList.dropWhile isSpace).rdropWhile isSpace := by
    rw [dropWhile_eq_self_iff]
    intro hl
    -- what is left after the end has gone begins as the text did before
    obtain ⟨r, hr⟩ := rdropWhile_prefix isSpace (s.toList.dropWhile isSpace)
    have hfull : 0 < (s.toList.dropWhile isSpace).length := by rw [← hr, length_append]; omega
    have hhead := dropWhile_get_zero_not isSpace s.toList hfull
    rwa [get_eq_getElem, getElem_of_eq hr.symm, getElem_append_left hl] at hhead
  rw [trimSpace_eq, trimSpace_eq, String.toList_ofList, hfront, rdropWhile_idempotent]

theorem trimSpace_of_forall {s : String} (h : ∀ c ∈ s.toList, isSpace c = false) : trimSpace s = s := by
  have hfront : s.toList.dropWhile isSpace = s.toList :=
    dropWhile_eq_self_iff.mpr fun hl => Bool.not_eq_true _ ▸ h _ (getElem_mem hl)
  have hback : s.toList.rdropWhile isSpace = s.toList :=
    rdropWhile_eq_self_iff.mpr fun hl => Bool.not_eq_true _ ▸ h _ (getLast_mem hl)
  rw [trimSpace_eq, hfront, hback, String.ofList_toList]

/-- The parts of a text between the separators. -/
def split (sep : Char) (s : String) : List String := (s.toList.splitOn sep).map String.ofList

/-- A text is its parts and the separators between them. -/
theorem mem_split {sep c : Char} {s : String} (h : c ∈ s.toList) : c = sep ∨ ∃ part ∈ split sep s, c ∈ part.toList := by
  rw [← @intercalate_splitOn _ s.toList _ _ sep] at h
  simp only [split, mem_map, exists_exists_and_eq_and, String.toList_ofList]
  generalize s.toList.splitOn sep = parts at h ⊢
  induction parts with
  | nil => cases h
  | cons p parts ih =>
    cases parts with
    | nil => exact .inr ⟨p, mem_cons_self, by simpa using h⟩
    | cons q parts =>
    rw [intercalate_cons_cons, append_assoc, mem_append, mem_append, mem_singleton] at h
    rcases h with h | h | h
    · exact .inr ⟨p, mem_cons_self, h⟩
    · exact .inl h
    · rcases ih h with h | ⟨part, hpart, hc⟩
      · exact .inl h
      · exact .inr ⟨part, mem_cons_of_mem p hpart, hc⟩

def utf8 (s : String) : List UInt8 := s.toUTF8.data.toList

def hasPrefix (s p : String) : Bool := p.toList.isPrefixOf s.toList

def contains (s t : String) : Bool := t.toList <:+: s.toList

/-! ## Letter case -/

/-- The lower case of a character, and which characters differ in case only. -/
structure CaseTables where
  toLower : Char → Char
  fold : Char → Char → Bool
  toLower_ascii : ∀ c, c.toNat < 128 → toLower c = c.toLower
  fold_ascii : ∀ c d, c.toNat < 128 → d.toNat < 128 → (fold c d ↔ c.toLower = d.toLower)

namespace CaseTables

variable (T : CaseTables)

/-- The tables of a language with no letters beyond ASCII. -/
def ascii : CaseTables where
  toLower := Char.toLower
  fold := fun c d => c.toLower = d.toLower
  toLower_ascii := fun _ _ => rfl
  fold_ascii := fun _ _ _ _ => decide_eq_true_iff

theorem ascii_space (c : Char) : isSpace (ascii.toLower c) = isSpace c := by
  by_cases h : c.val ≥ 'A'.val ∧ c.val ≤ 'Z'.val
  · -- neither a capital letter nor its small form is white space
    have h1 : 65 ≤ c.toNat := h.1
    have h2 : c.toNat ≤ 90 := h.2
    have hlow : (ascii.toLower c).toNat = (c.val.toNat + 32) % 2 ^ 32 := congrArg Char.toNat (dif_pos h)
    have hval : c.val.toNat = c.toNat := rfl
    rw [isSpace_of_letter h1 (by omega), isSpace_of_letter (by omega) (by omega)]
  · have hsame : ascii.toLower c = c := dif_neg h
    rw [hsame]

def lower (s : String) : String := String.ofList (s.toList.map T.toLower)

/-- Tables that leave white space as it is do not care when a text is trimmed. -/
theorem lower_trimSpace (h : ∀ c, isSpace (T.toLower c) = isSpace c) (s : String) : T.lower (trimSpace s) = trimSpace (T.lower s) := by
  have hf : isSpace ∘ T.toLower = isSpace := funext h
  simp only [trimSpace, lower, String.toList_ofList, dropWhile_map, ← map_reverse, hf]

def foldList : List Char → List Char → Bool
  | [], [] => true
  | c :: l, d :: l' => T.fold c d && foldList l l'
  | _, _ => false

/-- The texts are equal up to letter case. -/
def equalFold (s t : String) : Bool := T.foldList s.toList t.toList

/-! ### Texts in ASCII -/

def Ascii (s : String) : Prop := ∀ c ∈ s.toList, c.toNat < 128

instance (s : String) : Decidable (Ascii s) := List.decidableBAll (fun c : Char => c.toNat < 128) s.toList

variable {T}
variable {s : String}

theorem lower_of_ascii (h : Ascii s) : T.lower s = String.ofList (s.toList.map Char.toLower) :=
  congrArg String.ofList (map_congr_left fun c hc => T.toLower_ascii c (h c hc))

theorem lower_of_forall (h : ∀ c ∈ s.toList, c.toNat < 128 ∧ c.toLower = c) : T.lower s = s := by
  rw [lower_of_ascii fun c hc => (h c hc).1, map_congr_left fun c hc => (h c hc).2, map_id', String.ofList_toList]

theorem foldList_iff : ∀ {l l' : List Char}, (∀ c ∈ l, c.toNat < 128) → (∀ c ∈ l', c.toNat < 128) →
    (T.foldList l l' = true ↔ l.map Char.toLower = l'.map Char.toLower)
  | [], [], _, _ => by simp [foldList]
  | [], _ :: _, _, _ => by simp [foldList]
  | _ :: _, [], _, _ => by simp [foldList]
  | c :: l, d :: l', h, h' => by
    rw [foldList, Bool.and_eq_true, T.fold_ascii c d (h c mem_cons_self) (h' d mem_cons_self),
      foldList_iff (fun x hx => h x (mem_cons_of_mem c hx)) fun x hx => h' x (mem_cons_of_mem d hx)]
    simp

theorem equalFold_iff {t : String} (hs : Ascii s) (ht : Ascii t) :
    T.equalFold s t = true ↔ s.toList.map Char.toLower = t.toList.map Char.toLower := foldList_iff hs ht

theorem lower_ne_empty (h : s ≠ "") : T.lower s ≠ "" := by
  intro hl
  have hnil : s.toList.map T.toLower = [] := by simpa [lower] using congrArg String.toList hl
  exact h (String.toList_inj.mp (by simpa using hnil))

end CaseTables

end Text
