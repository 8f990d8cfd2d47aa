import Mathlib.Data.List.Basic

/-!
# Crm.Ai.Render — model output as inert HTML

`internal/ai/render/render.go`: a visitor over the syntax tree of a Markdown parser, which writes the tags of a short allow list and escapes everything else.
The tree is arbitrary: any kind of node under any other, with any segments of any source.  `render_inert`: the output is in the grammar `Inert`.
-/

namespace Crm.Ai.Render

open List

abbrev Bytes : Type := List UInt8

def lit (s : String) : Bytes := s.toList.map fun c => UInt8.ofNat c.toNat

/-! ## The syntax tree -/

structure Segment where
  start : ℕ
  stop : ℕ
  padding : ℕ
  forceNewline : Bool

def Segment.value (t : Segment) (source : Bytes) : Bytes :=
  let result := List.replicate t.padding 32 ++ (source.drop t.start).take (t.stop - t.start)
  if t.forceNewline = true ∧ result ≠ [] ∧ result.getLast? ≠ some 10 then result ++ [10] else result

/-- The kinds of nodes, with what the renderer reads of each; `other` stands for the kinds it does not name. -/
inductive Kind : Type
  | document
  | paragraph
  | textBlock
  | heading
  | emphasis (level : ℕ)
  | link (destination : Bytes)
  | autoLink (protocol : Option Bytes) (segment : Segment)
  | image
  | rawHTML
  | htmlBlock
  | codeSpan
  | fencedCodeBlock (lines : List Segment)
  | codeBlock (lines : List Segment)
  | list (ordered : Bool)
  | listItem
  | text (segment : Segment) (hardLineBreak softLineBreak : Bool)
  | string (value : Bytes)
  | thematicBreak
  | blockquote
  | other

inductive Node : Type
  | mk (kind : Kind) (children : List Node)

def autoLinkURL (protocol : Option Bytes) (segment : Segment) (source : Bytes) : Bytes :=
  match protocol with
  | some p => p ++ lit "://" ++ segment.value source
  | none => segment.value source

/-! ## The visitor -/

def escapeByte (b : UInt8) : Bytes :=
  if b = 38 then lit "&amp;"
  else if b = 39 then lit "&#39;"
  else if b = 60 then lit "&lt;"
  else if b = 62 then lit "&gt;"
  else if b = 34 then lit "&#34;"
  else [b]

def escapeString (s : Bytes) : Bytes := s.flatMap escapeByte

structure Renderer where
  out : Bytes
  listOL : List Bool

def Renderer.write (r : Renderer) (s : Bytes) : Renderer := { r with out := r.out ++ s }

inductive WalkStatus : Type
  | walkContinue
  | walkSkipChildren
  deriving DecidableEq

def childTexts (source : Bytes) : List Node → List Bytes
  | [] => []
  | .mk (.text segment _ _) _ :: cs => segment.value source :: childTexts source cs
  | _ :: cs => childTexts source cs

mutual

def collectNode (source : Bytes) : Node → Bytes
  | .mk (.text segment _ _) _ => segment.value source
  | .mk (.string value) _ => value
  | .mk .codeSpan cs => (childTexts source cs).flatten
  | .mk _ cs => collectText source cs

def collectText (source : Bytes) : List Node → Bytes
  | [] => []
  | n :: cs => collectNode source n ++ collectText source cs

end

section Visit

variable (equalFold : Bytes → Bytes → Bool) (source : Bytes)

def writeCodeBlockLines (r : Renderer) (lines : List Segment) : Renderer :=
  lines.foldl (fun r seg => r.write (escapeString (seg.value source))) r

/-- `<tag>` on the way in and `</tag>` on the way out, each with what follows it. -/
def wrap (tag opened closed : String) (entering : Bool) (r : Renderer) : Renderer :=
  if entering then r.write (lit "<" ++ lit tag ++ lit ">" ++ lit opened) else r.write (lit "</" ++ lit tag ++ lit ">" ++ lit closed)

def visitLink (destination : Bytes) (children : List Node) (r : Renderer) : Renderer :=
  let label := collectText source children
  if label = [] then r.write (escapeString destination)
  else if destination = [] ∨ equalFold label destination then r.write (escapeString label)
  else r.write (escapeString label ++ lit " (" ++ escapeString destination ++ lit ")")

def visitCode (r : Renderer) (lines : List Segment) : Renderer :=
  (writeCodeBlockLines source (r.write (lit "<pre><code>")) lines).write (lit "</code></pre>\n")

def visitCodeSpan (children : List Node) (r : Renderer) : Renderer :=
  ((childTexts source children).foldl (fun r t => r.write (escapeString t)) (r.write (lit "<code>"))).write (lit "</code>")

def visitText (segment : Segment) (hardLineBreak softLineBreak : Bool) (r : Renderer) : Renderer :=
  let r := r.write (escapeString (segment.value source))
  if hardLineBreak then r.write (lit "<br>") else if softLineBreak then r.write (lit "\n") else r

def visit (kind : Kind) (children : List Node) (entering : Bool) (r : Renderer) : WalkStatus × Renderer :=
  match kind with
  | .document => (.walkContinue, r)
  | .paragraph => (.walkContinue, wrap "p" "" "\n" entering r)
  | .textBlock => (.walkContinue, r)
  | .heading => (.walkSkipChildren, r)
  | .emphasis level => (.walkContinue, wrap (if level = 2 then "strong" else "em") "" "" entering r)
  | .link destination =>
    if entering then (.walkSkipChildren, visitLink equalFold source destination children r) else (.walkContinue, r)
  | .autoLink protocol segment => (.walkContinue, if entering then r.write (escapeString (autoLinkURL protocol segment source)) else r)
  | .image => (.walkSkipChildren, r)
  | .rawHTML => (.walkSkipChildren, r)
  | .htmlBlock => (.walkSkipChildren, r)
  | .codeSpan => (.walkSkipChildren, if entering then visitCodeSpan source children r else r)
  | .fencedCodeBlock lines => (.walkSkipChildren, if entering then visitCode source r lines else r)
  | .codeBlock lines => (.walkSkipChildren, if entering then visitCode source r lines else r)
  | .list ordered =>
    let r := { r with listOL := if entering then r.listOL ++ [ordered] else r.listOL.dropLast }
    (.walkContinue, wrap (if ordered then "ol" else "ul") "\n" "\n" entering r)
  | .listItem => (.walkContinue, wrap "li" "" "\n" entering r)
  | .text segment hardLineBreak softLineBreak => (.walkContinue, if entering then visitText source segment hardLineBreak softLineBreak r else r)
  | .string value => (.walkContinue, if entering then r.write (escapeString value) else r)
  | .thematicBreak => (.walkSkipChildren, r)
  | .blockquote => (.walkContinue, r)
  | .other => (.walkContinue, r)

mutual

/-- `ast.Walk`: the visitor on the way in, the children unless it asks to skip them, the visitor on the way out. -/
def walk : Node → Renderer → Renderer
  | .mk kind children, r =>
    let (status, r) := visit equalFold source kind children true r
    let r := if status = .walkSkipChildren then r else walkAll children r
    (visit equalFold source kind children false r).2

def walkAll : List Node → Renderer → Renderer
  | [], r => r
  | n :: ns, r => walkAll ns (walk n r)

end

def render (root : Node) : Bytes := (walk equalFold source root ⟨[], []⟩).out

end Visit

/-! ## The output -/

def allowList : List String := ["p", "em", "strong", "code", "pre", "ul", "ol", "li"]

/-- Tags of the allow list without attributes, nested and balanced, `<br>`, escaped text, and the literal bytes of the renderer. -/
inductive Inert : Bytes → Prop
  | nil : Inert []
  | text (s : Bytes) : Inert (escapeString s)
  | literal (c : Char) (hc : c ∈ ['\n', ' ', '(', ')']) : Inert [UInt8.ofNat c.toNat]
  | br : Inert (lit "<br>")
  | element {tag : String} {body : Bytes} (htag : tag ∈ allowList) (hbody : Inert body) :
      Inert (lit "<" ++ lit tag ++ lit ">" ++ body ++ (lit "</" ++ lit tag ++ lit ">"))
  | append {a b : Bytes} (ha : Inert a) (hb : Inert b) : Inert (a ++ b)

theorem Inert.newline : Inert (lit "\n") := .literal '\n' (by decide)

theorem Inert.empty : Inert (lit "") := .nil

theorem Inert.flatten : ∀ {l : List Bytes}, Inert (l.map escapeString).flatten
  | [] => .nil
  | s :: _ => .append (.text s) Inert.flatten

/-- Escaped text has none of the characters that open, close or quote markup. -/
theorem escapeString_clean (s : Bytes) : ∀ b ∈ escapeString s, b ≠ 60 ∧ b ≠ 62 ∧ b ≠ 34 ∧ b ≠ 39 := by
  have hentity : ∀ e ∈ ["&amp;", "&#39;", "&lt;", "&gt;", "&#34;"], ∀ b ∈ lit e, b ≠ 60 ∧ b ≠ 62 ∧ b ≠ 34 ∧ b ≠ 39 := by decide +kernel
  intro b hb
  obtain ⟨a, -, hba⟩ := mem_flatMap.mp hb
  unfold escapeByte at hba
  split_ifs at hba with h1 h2 h3 h4 h5
  · exact hentity _ (by decide) b hba
  · exact hentity _ (by decide) b hba
  · exact hentity _ (by decide) b hba
  · exact hentity _ (by decide) b hba
  · exact hentity _ (by decide) b hba
  · obtain rfl := mem_singleton.mp hba
    exact ⟨h3, h4, h5, h2⟩

/-- The renderer has written `o` and is otherwise as it was. -/
def Renderer.Adds (r r' : Renderer) (o : Bytes) : Prop := r' = r.write o

namespace Renderer.Adds

variable {r r' r'' : Renderer} {a b : Bytes}

theorem nil (r : Renderer) : r.Adds r [] := by
  rw [Renderer.Adds, Renderer.write, append_nil]

theorem write (r : Renderer) (s : Bytes) : r.Adds (r.write s) s := rfl

theorem trans (h : r.Adds r' a) (h' : r'.Adds r'' b) : r.Adds r'' (a ++ b) := by
  rw [Renderer.Adds] at h h' ⊢
  rw [h', h]
  simp only [Renderer.write, append_assoc]

theorem foldl (f : Bytes → Bytes) : ∀ (l : List Bytes) (r : Renderer), r.Adds (l.foldl (fun r s => r.write (f s)) r) (l.map f).flatten
  | [], r => nil r
  | s :: l, r => (write r (f s)).trans (foldl f l (r.write (f s)))

/-- What is written above a pushed entry is written below it once the entry is popped. -/
theorem of_push {x : Bool} {tag closed : String} {r₂ : Renderer}
    (h : Renderer.Adds { r with listOL := r.listOL ++ [x] } (wrap tag "\n" closed false r₂) a) :
    r.Adds (wrap tag "\n" closed false { r₂ with listOL := r₂.listOL.dropLast }) a := by
  simp only [Renderer.Adds, Renderer.write, wrap, Bool.false_eq_true, if_false, Renderer.mk.injEq] at h ⊢
  obtain ⟨hout, hlist⟩ := h
  rw [hlist, dropLast_concat]
  exact ⟨hout, rfl⟩

end Renderer.Adds

section Walk

variable {equalFold : Bytes → Bytes → Bool} {source : Bytes}

theorem adds_visitLink (destination : Bytes) (children : List Node) (r : Renderer) :
    ∃ o, r.Adds (visitLink equalFold source destination children r) o ∧ Inert o := by
  unfold visitLink
  dsimp only
  split_ifs
  · exact ⟨_, .write r _, .text _⟩
  · exact ⟨_, .write r _, .text _⟩
  · refine ⟨_, .write r _, ?_⟩
    have hopen : Inert (lit " (") := .append (.literal ' ' (by decide)) (.literal '(' (by decide))
    exact .append (.append (.append (.text _) hopen) (.text _)) (.literal ')' (by decide))

theorem adds_visitCode (lines : List Segment) (r : Renderer) : ∃ o, r.Adds (visitCode source r lines) o ∧ Inert o := by
  have hlines : ∀ r : Renderer, r.Adds (writeCodeBlockLines source r lines) ((lines.map fun seg => seg.value source).map escapeString).flatten := by
    intro r
    have h := Renderer.Adds.foldl escapeString (lines.map fun seg => seg.value source) r
    rwa [foldl_map] at h
  refine ⟨_, ((Renderer.Adds.write r _).trans (hlines _)).trans (.write _ _), ?_⟩
  have hcode : Inert (lit "<" ++ lit "code" ++ lit ">" ++ ((lines.map fun seg => seg.value source).map escapeString).flatten ++
      (lit "</" ++ lit "code" ++ lit ">")) := .element (by decide) .flatten
  have hpre : "pre" ∈ allowList := by decide
  have heq : lit "<pre><code>" ++ ((lines.map fun seg => seg.value source).map escapeString).flatten ++ lit "</code></pre>\n" =
      lit "<" ++ lit "pre" ++ lit ">" ++ (lit "<" ++ lit "code" ++ lit ">" ++ ((lines.map fun seg => seg.value source).map escapeString).flatten ++
        (lit "</" ++ lit "code" ++ lit ">")) ++ (lit "</" ++ lit "pre" ++ lit ">") ++ lit "\n" := by
    simp [lit]
  rw [heq]
  exact .append (.element hpre hcode) .newline

theorem adds_visitCodeSpan (children : List Node) (r : Renderer) : ∃ o, r.Adds (visitCodeSpan source children r) o ∧ Inert o := by
  have h := ((Renderer.Adds.write r (lit "<code>")).trans (.foldl escapeString (childTexts source children) _)).trans (.write _ (lit "</code>"))
  refine ⟨_, h, ?_⟩
  have htag : "code" ∈ allowList := by decide
  have heq : lit "<code>" ++ ((childTexts source children).map escapeString).flatten ++ lit "</code>" =
      lit "<" ++ lit "code" ++ lit ">" ++ ((childTexts source children).map escapeString).flatten ++ (lit "</" ++ lit "code" ++ lit ">") := by
    simp [lit]
  rw [heq]
  exact .element htag .flatten

theorem adds_visitText (segment : Segment) (hard soft : Bool) (r : Renderer) : ∃ o, r.Adds (visitText source segment hard soft r) o ∧ Inert o := by
  unfold visitText
  dsimp only
  split_ifs
  · exact ⟨_, (Renderer.Adds.write r _).trans (.write _ _), .append (.text _) .br⟩
  · exact ⟨_, (Renderer.Adds.write r _).trans (.write _ _), .append (.text _) .newline⟩
  · exact ⟨_, .write r _, .text _⟩

theorem adds_wrap {tag opened closed : String} {r r₂ : Renderer} {o : Bytes} (htag : tag ∈ allowList) (hopened : Inert (lit opened))
    (hclosed : Inert (lit closed)) (h : (wrap tag opened closed true r).Adds r₂ o) (ho : Inert o) :
    ∃ o, r.Adds (wrap tag opened closed false r₂) o ∧ Inert o := by
  refine ⟨_, ((Renderer.Adds.write r _).trans h).trans (.write _ _), ?_⟩
  have hel := Inert.append (Inert.element htag (.append hopened ho)) hclosed
  simpa only [append_assoc] using hel

mutual

/-- The visitor leaves behind inert output, and the list stack as it was. -/
theorem adds_walk : ∀ (n : Node) (r : Renderer), ∃ o, r.Adds (walk equalFold source n r) o ∧ Inert o
  | .mk kind children, r => by
    have hall := fun r => adds_walkAll children r
    rw [walk]
    cases kind with
    | paragraph =>
      obtain ⟨o, h, ho⟩ := hall (wrap "p" "" "\n" true r)
      exact adds_wrap (by decide) .empty .newline h ho
    | emphasis level =>
      obtain ⟨o, h, ho⟩ := hall (wrap (if level = 2 then "strong" else "em") "" "" true r)
      have htag : (if level = 2 then "strong" else "em") ∈ allowList := by split_ifs <;> decide
      exact adds_wrap htag .empty .empty h ho
    | listItem =>
      obtain ⟨o, h, ho⟩ := hall (wrap "li" "" "\n" true r)
      exact adds_wrap (by decide) .empty .newline h ho
    | list ordered =>
      -- the stack is pushed on the way in and popped on the way out
      obtain ⟨o, h, ho⟩ := hall (wrap (if ordered then "ol" else "ul") "\n" "\n" true { r with listOL := r.listOL ++ [ordered] })
      have htag : (if ordered then "ol" else "ul") ∈ allowList := by split_ifs <;> decide
      obtain ⟨o', h', ho'⟩ := adds_wrap htag .newline .newline h ho
      exact ⟨o', .of_push h', ho'⟩
    | link destination =>
      exact adds_visitLink destination children r
    | autoLink protocol segment =>
      obtain ⟨o, h, ho⟩ := hall (r.write (escapeString (autoLinkURL protocol segment source)))
      exact ⟨_, (Renderer.Adds.write r _).trans h, .append (.text _) ho⟩
    | codeSpan => exact adds_visitCodeSpan children r
    | fencedCodeBlock lines => exact adds_visitCode lines r
    | codeBlock lines => exact adds_visitCode lines r
    | text segment hard soft =>
      obtain ⟨o, h, ho⟩ := adds_visitText segment hard soft r
      obtain ⟨o', h', ho'⟩ := hall (visitText source segment hard soft r)
      exact ⟨_, h.trans h', .append ho ho'⟩
    | string value =>
      obtain ⟨o, h, ho⟩ := hall (r.write (escapeString value))
      exact ⟨_, (Renderer.Adds.write r _).trans h, .append (.text _) ho⟩
    | document => exact hall r
    | textBlock => exact hall r
    | blockquote => exact hall r
    | other => exact hall r
    | heading => exact ⟨[], .nil r, .nil⟩
    | image => exact ⟨[], .nil r, .nil⟩
    | rawHTML => exact ⟨[], .nil r, .nil⟩
    | htmlBlock => exact ⟨[], .nil r, .nil⟩
    | thematicBreak => exact ⟨[], .nil r, .nil⟩

theorem adds_walkAll : ∀ (ns : List Node) (r : Renderer), ∃ o, r.Adds (walkAll equalFold source ns r) o ∧ Inert o
  | [], r => ⟨[], .nil r, .nil⟩
  | n :: ns, r => by
    obtain ⟨o, h, ho⟩ := adds_walk n r
    obtain ⟨o', h', ho'⟩ := adds_walkAll ns (walk equalFold source n r)
    rw [walkAll]
    exact ⟨_, h.trans h', .append ho ho'⟩

end

end Walk

/-- **Inert output.**  Whatever the tree and the source, the output is made of balanced tags of the allow list without attributes, `<br>`, literal bytes
of the renderer and escaped text; and escaped text has no character that opens, closes or quotes markup. -/
theorem render_inert (equalFold : Bytes → Bytes → Bool) (source : Bytes) (root : Node) :
    Inert (render equalFold source root) ∧ ∀ s, ∀ b ∈ escapeString s, b ≠ 60 ∧ b ≠ 62 ∧ b ≠ 34 ∧ b ≠ 39 := by
  refine ⟨?_, escapeString_clean⟩
  obtain ⟨o, h, ho⟩ : ∃ o, Renderer.Adds ⟨[], []⟩ (walk equalFold source root ⟨[], []⟩) o ∧ Inert o := adds_walk root ⟨[], []⟩
  rw [render, h]
  exact ho

end Crm.Ai.Render
