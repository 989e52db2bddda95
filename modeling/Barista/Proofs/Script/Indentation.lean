import Barista.Proofs.Script.Identifier
import Barista.Proofs.Script.Separation
import Barista.Proofs.Text.Quoted

/-!
# Blocks show in the indentation

A line that ends in an opening brace opens a block and one that begins with a closing brace closes
one; a line is indented by the blocks that are open when it begins.  Text that stands in a line, be
it a name, a number or a quoted string, never breaks it, so the lines can be read off the text.
-/

namespace Barista

/-! ## Text without line breaks -/

namespace Text

/-- The text has no part of a line break in it. -/
def OneLine (s : String) : Prop := ∀ c ∈ s.toList, c ≠ '\n' ∧ c ≠ '\r'

instance (s : String) : Decidable (OneLine s) :=
  decidable_of_iff (s.toList.all fun c ↦ c ≠ '\n' && c ≠ '\r') (by simp [OneLine])

variable {s t : String}

theorem oneLine_append : OneLine (s ++ t) ↔ OneLine s ∧ OneLine t := by
  rw [OneLine, String.toList_append, List.forall_mem_append]
  rfl

theorem OneLine.append (hs : OneLine s) (ht : OneLine t) : OneLine (s ++ t) :=
  oneLine_append.2 ⟨hs, ht⟩

theorem oneLine_of_isDigit (h : ∀ c ∈ s.toList, c.isDigit ∨ c ∈ ['.', 'e', '-']) :
    OneLine s := by
  intro c hc
  constructor
  · rintro rfl
    exact absurd (h _ hc) (by decide)
  · rintro rfl
    exact absurd (h _ hc) (by decide)

theorem oneLine_escape (c : Char) : ∀ c' ∈ escape c, c' ≠ '\n' ∧ c' ≠ '\r' := by
  have hhex : ∀ n < 16, hexDigit n ≠ '\n' ∧ hexDigit n ≠ '\r' := by decide
  unfold escape
  split_ifs with hquote hbackslash hbreak htab hreturn hb hf hcontrol
  · simp
  · simp
  · simp
  · simp
  · simp
  · simp
  · simp
  · have hhigh := hhex (c.toNat / 16) (by omega)
    have hlow := hhex (c.toNat % 16) (by omega)
    simp [hhigh, hlow]
  · simp [hbreak, hreturn]

theorem OneLine.not_mem (h : OneLine s) : '\n' ∉ s.toList := by
  intro hmem
  exact (h _ hmem).1 rfl

theorem OneLine.endsVisibly (h : OneLine s) (hs : s.toList ≠ []) : EndsVisibly s.toList :=
  ⟨s.toList.getLast hs, List.getLast?_eq_some_getLast hs, h _ (List.getLast_mem hs)⟩

/-- Text without the separator is one piece. -/
theorem pieces_eq_singleton {separator : Char} {cs : List Char} (h : separator ∉ cs) :
    pieces separator cs = [cs] := by
  induction cs with
  | nil => rfl
  | cons c cs ih =>
      rw [List.mem_cons, not_or] at h
      rw [pieces, if_neg (Ne.symm h.1), ih h.2]

/-- Lines that are joined are the pieces of the text. -/
theorem split_join {lines : List String} (hne : lines ≠ [])
    (h : ∀ line ∈ lines, OneLine line) : split '\n' (join lines) = lines := by
  induction lines with
  | nil => exact absurd rfl hne
  | cons line rest ih =>
      obtain ⟨hline, hrest⟩ := List.forall_mem_cons.1 h
      have hfirst := pieces_eq_singleton hline.not_mem
      by_cases hnil : rest = []
      · rw [hnil, split, join, String.intercalate_singleton, hfirst]
        simp
      · have htext : (join (line :: rest)).toList = line.toList ++ '\n' :: (join rest).toList := by
          rw [← List.singleton_append, join_append (List.cons_ne_nil _ _) hnil]
          simp [join]
        have hothers := ih hnil hrest
        rw [split] at hothers
        rw [split, htext, pieces_append_cons, hfirst, List.map_append, hothers]
        simp

/-- A reader who takes line breaks for the ends of lines finds the same lines. -/
theorem lines_join {ls : List String} (h : ∀ line ∈ ls, OneLine line)
    (hne : ∀ line ∈ ls, line.toList ≠ []) : lines (join ls) = ls := by
  induction ls with
  | nil => rfl
  | cons line rest ih =>
      obtain ⟨hline, hrest⟩ := List.forall_mem_cons.1 h
      obtain ⟨hfirst, hothers⟩ := List.forall_mem_cons.1 hne
      have hsingle : lines line = [line] := by
        rw [lines, pieces_eq_singleton hline.not_mem, endedLines, if_neg]
        · simp
        · simpa using hfirst
      by_cases hnil : rest = []
      · rw [hnil, join, String.intercalate_singleton, hsingle]
      · rw [← List.singleton_append, join_append (List.cons_ne_nil _ _) hnil, join,
          String.intercalate_singleton, lines_append_newline (hline.endsVisibly hfirst), hsingle,
          ih hrest hothers]

theorem oneLine_quoted (s : String) : OneLine (quoted s) := by
  have hbody : ∀ c ∈ s.toList.flatMap escape, c ≠ '\n' ∧ c ≠ '\r' := by
    intro c hc
    obtain ⟨c', -, hc'⟩ := List.mem_flatMap.1 hc
    exact oneLine_escape c' c hc'
  rw [OneLine, quoted, String.toList_ofList, List.cons_append]
  exact List.forall_mem_cons.2 ⟨by decide, List.forall_mem_append.2 ⟨hbody, by simp⟩⟩

end Text

open Text (OneLine)

theorem Whole.oneLine_text (n : Whole) : OneLine n.text := by
  have hdigits : ∀ c ∈ Nat.toDigits 10 n.toInt.natAbs, c.isDigit ∨ c ∈ ['.', 'e', '-'] :=
    fun c hc ↦ .inl (isDigit_of_mem_toDigits c hc)
  apply Text.oneLine_of_isDigit
  rw [Whole.text, toList_toString]
  split
  · exact List.forall_mem_cons.2 ⟨.inr (by simp), hdigits⟩
  · exact hdigits

theorem Double.oneLine_text (d : Double) : OneLine d.text := by
  by_cases hfinite : d.isFinite
  · have hdecimal := (Layout.numeral_decimal d.shortest).isDigit_or_mem
    apply Text.oneLine_of_isDigit
    rw [toList_text hfinite]
    split
    · exact List.forall_mem_cons.2 ⟨.inr (by simp), hdecimal⟩
    · exact hdecimal
  · rw [Double.text, Layout.render, if_neg hfinite]
    split
    · decide
    split
    · decide
    · decide

namespace Script

open Barista.Core (VarId FunId Entity Entities Expr Program)
open Scoping Scoping.Trail

/-! ## Expressions stay on their line -/

theorem oneLine_of_isIdentifier {name : String} (h : isIdentifier name) : OneLine name := by
  obtain ⟨c, cs, hname, -, hcontinues⟩ := exists_cons_of_isIdentifier h
  intro c' hc'
  rw [hname] at hc'
  have hc' := hcontinues c' hc'
  constructor
  · rintro rfl
    revert hc'
    decide
  · rintro rfl
    revert hc'
    decide

theorem oneLine_inParens {text : String} (h : OneLine text) : OneLine (inParens text) :=
  (Text.OneLine.append (by decide) h).append (by decide)

theorem oneLine_commaList {texts : List String} (h : ∀ text ∈ texts, OneLine text) :
    OneLine (commaList texts) := by
  induction texts with
  | nil => decide
  | cons first texts ih =>
      obtain ⟨hfirst, hrest⟩ := List.forall_mem_cons.1 h
      cases texts with
      | nil => simpa [commaList] using hfirst
      | cons second texts =>
          have hcommas : commaList (first :: second :: texts) =
              first ++ ", " ++ commaList (second :: texts) := String.intercalate_cons_cons
          rw [hcommas]
          exact (hfirst.append (by decide)).append (ih hrest)

theorem oneLine_operator (op : BinaryOp) : OneLine (operator op) := by
  cases op <;> decide

theorem oneLine_unary (op : UnaryOp) : OneLine op.text := by
  cases op <;> decide

section

variable {refer : Entity → String}

mutual

theorem oneLine_render : ∀ e : Expr, (∀ entity ∈ e.refs, OneLine (refer entity)) →
    OneLine (render refer e)
  | .int n, _ => by
      rw [render, wholeText]
      split
      · exact oneLine_inParens n.oneLine_text
      · exact n.oneLine_text
  | .double d, _ => by
      rw [render, doubleText]
      split
      · exact oneLine_inParens d.oneLine_text
      · exact d.oneLine_text
  | .bool b, _ => by
      rw [render]
      cases b <;> decide
  | .string s, _ => by
      rw [render]
      exact Text.oneLine_quoted s
  | .var id, h => by
      rw [render]
      exact h _ List.mem_cons_self
  | .binary op l r type, h => by
      obtain ⟨hl, hr⟩ := List.forall_mem_append.1 h
      rw [render]
      exact oneLine_inParens (((((oneLine_render l hl).append (by decide)).append
        (oneLine_operator op)).append (by decide)).append (oneLine_render r hr))
  | .unary op e type, h => by
      rw [render]
      exact oneLine_inParens ((oneLine_unary op).append (oneLine_render e h))
  | .ternary c y n type, h => by
      obtain ⟨hcy, hn⟩ := List.forall_mem_append.1 h
      obtain ⟨hc, hy⟩ := List.forall_mem_append.1 hcy
      rw [render]
      exact oneLine_inParens (((((oneLine_render c hc).append (by decide)).append
        (oneLine_render y hy)).append (by decide)).append (oneLine_render n hn))
  | .call callee args type, h => by
      obtain ⟨hcallee, hargs⟩ := List.forall_mem_cons.1 h
      rw [render]
      exact hcallee.append (oneLine_inParens (oneLine_commaList (oneLine_renderAll args hargs)))
  | .index a i type, h => by
      obtain ⟨ha, hi⟩ := List.forall_mem_append.1 h
      rw [render]
      exact (((oneLine_render a ha).append (by decide)).append (oneLine_render i hi)).append
        (by decide)
  | .array items type, h => by
      rw [render]
      exact (Text.OneLine.append (by decide) (oneLine_commaList (oneLine_renderAll items h))).append
        (by decide)

theorem oneLine_renderAll : ∀ es : List Expr, (∀ entity ∈ Expr.allRefs es, OneLine (refer entity)) →
    ∀ text ∈ renderAll refer es, OneLine text
  | [], _ => List.forall_mem_nil _
  | e :: es, h => by
      obtain ⟨he, hes⟩ := List.forall_mem_append.1 h
      rw [renderAll]
      exact List.forall_mem_cons.2 ⟨oneLine_render e he, oneLine_renderAll es hes⟩

end

end

/-! ## The shape of a line -/

namespace Piece

def isOpening : Piece → Bool
  | opening => true
  | _ => false

def isClosing : Piece → Bool
  | closing => true
  | _ => false

/-- The piece can begin a line: not with a blank, and with a brace only if it closes a block. -/
def Starts : Piece → Prop
  | text s => OneLine s ∧ ∃ c cs, s.toList = c :: cs ∧ c ≠ ' ' ∧ c ≠ '\x7d'
  | closing | expr (.var _) | expr (.call _ _ _) => True
  | opening | expr _ | give _ | input _ | again _ => False

/-- The piece can stand behind others: it closes no block, and its words do not break the line. -/
def continues : Piece → Bool
  | text s => OneLine s
  | closing => false
  | opening | expr _ | give _ | input _ | again _ => true

end Piece

namespace Sketch

def opens (l : Sketch) : Bool := l.pieces.getLast?.any Piece.isOpening

def closes (l : Sketch) : Bool := l.pieces.head?.any Piece.isClosing

/-- A line closes a block at its start only, and it has an end. -/
structure Formed (l : Sketch) : Prop where
  starts : ∃ piece rest, l.pieces = piece :: rest ∧ piece.Starts ∧
    ∀ other ∈ rest, other.continues = true
  ends : l.Ends

theorem Formed.of_cons {depth : Nat} {piece : Piece} {rest : List Piece} (hpiece : piece.Starts)
    (hrest : rest.all Piece.continues = true) (hends : Sketch.Ends ⟨depth, piece :: rest⟩) :
    Formed ⟨depth, piece :: rest⟩ :=
  ⟨⟨piece, rest, rfl, hpiece, List.all_eq_true.1 hrest⟩, hends⟩

end Sketch

/-- The lines are indented by the open blocks, of which there are `n` before them and `m` behind
them. -/
inductive Nests : Nat → List Sketch → Nat → Prop
  | nil (n : Nat) : Nests n [] n
  | cons {n m : Nat} {l : Sketch} {ls : List Sketch} (hformed : l.Formed)
      (hdepth : l.depth + l.closes.toNat = n) (hrest : Nests (l.depth + l.opens.toNat) ls m) :
      Nests n (l :: ls) m

namespace Nests

variable {n m k : Nat} {l : Sketch} {ls ls' : List Sketch}

theorem append (h : Nests n ls m) (h' : Nests m ls' k) : Nests n (ls ++ ls') k := by
  induction h with
  | nil => exact h'
  | cons hformed hdepth _ ih => exact .cons hformed hdepth (ih h')

/-- A line that stands for itself. -/
theorem line (hformed : l.Formed) (hcloses : l.closes = false) (hopens : l.opens = false) :
    Nests l.depth [l] l.depth := by
  refine .cons hformed ?_ ?_
  · rw [hcloses]
    rfl
  · rw [hopens]
    exact .nil _

/-- A line that opens a block, the block, and what begins with the brace that closes it. -/
theorem block {rest : List Sketch} (hformed : l.Formed) (hcloses : l.closes = false)
    (hopens : l.opens = true) (hbody : Nests (l.depth + 1) ls (l.depth + 1))
    (hrest : Nests (l.depth + 1) rest l.depth) : Nests l.depth (l :: (ls ++ rest)) l.depth := by
  refine .cons hformed ?_ ?_
  · rw [hcloses]
    rfl
  · rw [hopens]
    exact hbody.append hrest

/-- The same behind the end of another block. -/
theorem next {rest : List Sketch} (hformed : l.Formed) (hcloses : l.closes = true)
    (hopens : l.opens = true) (hbody : Nests (l.depth + 1) ls (l.depth + 1))
    (hrest : Nests (l.depth + 1) rest l.depth) :
    Nests (l.depth + 1) (l :: (ls ++ rest)) l.depth := by
  refine .cons hformed ?_ ?_
  · rw [hcloses]
    rfl
  · rw [hopens]
    exact hbody.append hrest

end Nests

theorem starts_text {s : String} {c : Char} (hline : OneLine s)
    (hfirst : s.toList.head? = some c) (hblank : c ≠ ' ') (hbrace : c ≠ '\x7d') :
    (Piece.text s).Starts := by
  obtain ⟨cs, hcs⟩ := List.head?_eq_some_iff.1 hfirst
  exact ⟨hline, c, cs, hcs, hblank, hbrace⟩

theorem nests_closingLine (depth : Nat) : Nests (depth + 1) [closingLine depth] depth :=
  .cons (.of_cons trivial rfl (ends_closingLine depth)) rfl (.nil depth)

theorem continues_separated {pieces : List Piece}
    (h : ∀ piece ∈ pieces, piece.continues = true) :
    ∀ piece ∈ separated pieces, piece.continues = true :=
  forall_mem_separated (by decide) h

theorem formed_letLine (depth : Nat) (es : List Entity) : (letLine depth es).Formed := by
  refine .of_cons (starts_text (by decide) rfl (by decide) (by decide)) ?_ (ends_letLine depth es)
  have hnames := @continues_separated (es.map .give) (by simp [Piece.continues])
  exact List.all_eq_true.2 (List.forall_mem_append.2 ⟨hnames, List.all_eq_true.1 rfl⟩)

theorem formed_functionLine (depth : Nat) (f : Entity) (es : List Entity) :
    (functionLine depth f es).Formed := by
  refine .of_cons (starts_text (by decide) rfl (by decide) (by decide)) ?_
    (ends_functionLine depth f es)
  have hnames := @continues_separated (es.map .input) (by simp [Piece.continues])
  have hfront : ∀ piece ∈ [.give f, .text "("] ++ separated (es.map .input),
      piece.continues = true :=
    List.forall_mem_append.2 ⟨List.all_eq_true.1 rfl, hnames⟩
  exact List.all_eq_true.2 (List.forall_mem_append.2 ⟨hfront, List.all_eq_true.1 rfl⟩)

mutual

/-- A statement leaves as many blocks open as there were. -/
theorem nests_sketchOfStmt : ∀ (s : Stmt) (depth : Nat), Nests depth (sketchOfStmt depth s) depth
  | .declare id init, depth => by
      rw [sketchOfStmt]
      refine .line (.of_cons ?_ rfl (.of_getLast? (.text ";") rfl (by decide))) rfl rfl
      exact starts_text (by decide) rfl (by decide) (by decide)
  | .hoist ids, depth => by
      rw [sketchOfStmt]
      refine .line (formed_letLine depth _) rfl ?_
      rw [Sketch.opens, letLine, List.getLast?_concat]
      rfl
  | .assign id op value, depth => by
      rw [sketchOfStmt]
      refine .line (.of_cons ?_ ?_ (.of_getLast? (.text ";") rfl (by decide))) rfl rfl
      · trivial
      · cases op <;> rfl
  | .print argument, depth => by
      rw [sketchOfStmt]
      refine .line (.of_cons ?_ rfl (.of_getLast? (.text ");") rfl (by decide))) rfl rfl
      exact starts_text (by decide) rfl (by decide) (by decide)
  | .cond test body rest, depth => by
      rw [sketchOfStmt]
      refine .block (.of_cons ?_ rfl (.of_getLast? .opening rfl rfl)) rfl rfl
        (nests_sketchOfBlock body _) (nests_sketchOfChain rest depth)
      exact starts_text (by decide) rfl (by decide) (by decide)
  | .loop test body, depth => by
      rw [sketchOfStmt]
      refine .block (.of_cons ?_ rfl (.of_getLast? .opening rfl rfl)) rfl rfl
        (nests_sketchOfBlock body _) (nests_closingLine depth)
      exact starts_text (by decide) rfl (by decide) (by decide)
  | .elements iterator array body, depth => by
      rw [sketchOfStmt]
      refine .block (.of_cons ?_ rfl (.of_getLast? .opening rfl rfl)) rfl rfl
        (nests_sketchOfBlock body _) (nests_closingLine depth)
      exact starts_text (by decide) rfl (by decide) (by decide)
  | .count iterator limit body, depth => by
      rw [sketchOfStmt]
      refine .block (.of_cons ?_ rfl (.of_getLast? .opening rfl rfl)) rfl rfl
        (nests_sketchOfBlock body _) (nests_closingLine depth)
      exact starts_text (by decide) rfl (by decide) (by decide)
  | .ret none, depth => by
      rw [sketchOfStmt]
      refine .line (.of_cons ?_ rfl (.of_getLast? (.text "return;") rfl (by decide))) rfl rfl
      exact starts_text (by decide) rfl (by decide) (by decide)
  | .ret (some value), depth => by
      rw [sketchOfStmt]
      refine .line (.of_cons ?_ rfl (.of_getLast? (.text ";") rfl (by decide))) rfl rfl
      exact starts_text (by decide) rfl (by decide) (by decide)
  | .function id params body, depth => by
      rw [sketchOfStmt]
      refine .block (formed_functionLine depth _ _) rfl ?_ (nests_sketchOfBlock body _)
        (nests_closingLine depth)
      rw [Sketch.opens, functionLine, List.getLast?_append]
      rfl
  | .call callee args type, depth => by
      rw [sketchOfStmt]
      refine .line (.of_cons ?_ rfl (.of_getLast? (.text ";") rfl (by decide))) rfl rfl
      trivial

theorem nests_sketchOfBlock : ∀ (b : List Stmt) (depth : Nat),
    Nests depth (sketchOfBlock depth b) depth
  | [], depth => .nil depth
  | s :: rest, depth => by
      rw [sketchOfBlock]
      exact (nests_sketchOfStmt s depth).append (nests_sketchOfBlock rest depth)

/-- Branches begin by closing the block in front of them. -/
theorem nests_sketchOfChain : ∀ (c : Chain) (depth : Nat),
    Nests (depth + 1) (sketchOfChain depth c) depth
  | .finish, depth => nests_closingLine depth
  | .otherwise body, depth => by
      rw [sketchOfChain]
      refine .next (.of_cons ?_ rfl (.of_getLast? .opening rfl rfl)) rfl rfl
        (nests_sketchOfBlock body _) (nests_closingLine depth)
      trivial
  | .also test body rest, depth => by
      rw [sketchOfChain]
      refine .next (.of_cons ?_ rfl (.of_getLast? .opening rfl rfl)) rfl rfl
        (nests_sketchOfBlock body _) (nests_sketchOfChain rest depth)
      trivial

end

/-! ## Written lines -/

/-- The line ends in an opening brace. -/
def opensBlock (line : String) : Bool := line.toList.getLast? = some '\x7b'

/-- Behind its indentation the line begins with a closing brace. -/
def closesBlock (line : String) : Bool :=
  (line.toList.dropWhile (· = ' ')).head? = some '\x7d'

/-- The line shows some text on one line, `depth` steps to the right. -/
structure Shows (depth : Nat) (text : List Char) (line : String) : Prop where
  indented : line.toList = List.replicate (2 * depth) ' ' ++ text
  nonempty : text ≠ []
  visible : text.head? ≠ some ' '
  oneLine : OneLine line
  ends : text.getLast? = some ';' ∨ text.getLast? = some '\x7b' ∨ text = ['\x7d']

section

variable {before after : Entity → String}

namespace Piece

variable {piece : Piece}

theorem oneLine_print (htext : ∀ s, piece = .text s → OneLine s)
    (hrefs : ∀ entity ∈ piece.refs, isIdentifier (before entity))
    (hown : ∀ entity ∈ piece.gives ++ piece.inputs ++ piece.agains,
      isIdentifier (after entity)) : OneLine (piece.print before after) := by
  cases piece with
  | text s => exact htext s rfl
  | opening | closing => rw [print]; decide
  | expr e => exact oneLine_render e fun entity hentity ↦ oneLine_of_isIdentifier (hrefs _ hentity)
  | give entity | input entity | again entity =>
      exact oneLine_of_isIdentifier (hown entity (by simp))

theorem not_brace_of_startsName {c : Char} (h : Munch.startsName c) : c ≠ ' ' ∧ c ≠ '\x7d' := by
  constructor
  · rintro rfl
    revert h
    decide
  · rintro rfl
    revert h
    decide

/-- What begins a line begins it visibly, and with a closing brace if and only if it closes a
block. -/
theorem Starts.print (h : piece.Starts) (after : Entity → String)
    (hrefs : ∀ entity ∈ piece.refs, isIdentifier (before entity)) :
    ∃ c cs, (piece.print before after).toList = c :: cs ∧ c ≠ ' ' ∧
      (c = '\x7d' ↔ piece.isClosing = true) := by
  cases piece with
  | text s =>
      obtain ⟨-, c, cs, hcs, hblank, hbrace⟩ := h
      exact ⟨c, cs, hcs, hblank, iff_of_false hbrace Bool.false_ne_true⟩
  | closing => exact ⟨'\x7d', [], by simp [Piece.print], by decide, iff_of_true rfl rfl⟩
  | expr e =>
      have hname : ∃ name more, render before e = name ++ more ∧ isIdentifier name := by
        cases e with
        | var id => exact ⟨_, "", by simp [render], hrefs _ List.mem_cons_self⟩
        | call callee args type => exact ⟨_, _, render.eq_9 .., hrefs _ List.mem_cons_self⟩
        | _ => exact h.elim
      obtain ⟨name, more, htext, hidentifier⟩ := hname
      obtain ⟨c, cs, hcs, hstart, -⟩ := exists_cons_of_isIdentifier hidentifier
      obtain ⟨hblank, hbrace⟩ := not_brace_of_startsName hstart
      refine ⟨c, cs ++ more.toList, ?_, hblank, iff_of_false hbrace Bool.false_ne_true⟩
      rw [Piece.print, htext, String.toList_append, hcs, List.cons_append]
  | _ => exact h.elim

theorem getLast?_print_of_ends (before after : Entity → String) (h : piece.ends = true) :
    ∃ c, (piece.print before after).toList.getLast? = some c ∧
      (c = '\x7b' ↔ piece.isOpening = true) ∧ (c = ';' ∨ c = '\x7b' ∨ piece = .closing) := by
  cases piece with
  | text s =>
      exact ⟨';', of_decide_eq_true h, iff_of_false (by decide) Bool.false_ne_true, .inl rfl⟩
  | opening => exact ⟨'\x7b', by simp [Piece.print], iff_of_true rfl rfl, .inr (.inl rfl)⟩
  | closing =>
      exact ⟨'\x7d', by simp [Piece.print], iff_of_false (by decide) Bool.false_ne_true,
        .inr (.inr rfl)⟩
  | expr _ | give _ | input _ | again _ => cases h

end Piece

namespace Sketch

variable {l : Sketch}

theorem Formed.oneLine_text (h : l.Formed) {s : String} (hs : .text s ∈ l.pieces) : OneLine s := by
  obtain ⟨piece, rest, hpieces, hstarts, hrest⟩ := h.starts
  rw [hpieces] at hs
  rcases List.mem_cons.1 hs with rfl | hs
  · exact hstarts.1
  · exact of_decide_eq_true (hrest _ hs)

theorem toList_text_print (l : Sketch) (before after : Entity → String) :
    (l.print before after).text.toList =
      l.pieces.flatMap fun piece ↦ (piece.print before after).toList :=
  toList_foldr_print before after l.pieces

theorem Formed.oneLine_print (h : l.Formed)
    (hrefs : ∀ entity ∈ l.refs, isIdentifier (before entity))
    (hown : ∀ entity ∈ l.own, isIdentifier (after entity)) :
    OneLine (l.print before after).text := by
  intro c hc
  rw [toList_text_print] at hc
  obtain ⟨piece, hpiece, hc⟩ := List.mem_flatMap.1 hc
  have hline : OneLine (piece.print before after) := by
    refine Piece.oneLine_print ?_ ?_ ?_
    · rintro s rfl
      exact h.oneLine_text hpiece
    · intro entity hentity
      exact hrefs entity (List.mem_flatMap.2 ⟨piece, hpiece, hentity⟩)
    · intro entity hentity
      apply hown
      simp only [List.mem_append] at hentity
      simp only [own, given, List.mem_append]
      rcases hentity with (hgive | hinput) | hagain
      · exact .inl (.inl (List.mem_flatMap.2 ⟨piece, hpiece, hgive⟩))
      · exact .inl (.inr (List.mem_flatMap.2 ⟨piece, hpiece, hinput⟩))
      · exact .inr (List.mem_flatMap.2 ⟨piece, hpiece, hagain⟩)
  exact hline c hc

theorem Formed.head_print (h : l.Formed) (after : Entity → String)
    (hrefs : ∀ entity ∈ l.refs, isIdentifier (before entity)) :
    ∃ c cs, (l.print before after).text.toList = c :: cs ∧ c ≠ ' ' ∧
      (c = '\x7d' ↔ l.closes = true) := by
  obtain ⟨piece, rest, hpieces, hstarts, -⟩ := h.starts
  have hpiece : ∀ entity ∈ piece.refs, isIdentifier (before entity) := by
    intro entity hentity
    apply hrefs
    rw [refs, hpieces]
    exact List.mem_append_left _ hentity
  obtain ⟨c, cs, hcs, hblank, hbrace⟩ := hstarts.print after hpiece
  refine ⟨c, cs ++ rest.flatMap fun piece ↦ (piece.print before after).toList, ?_, hblank, ?_⟩
  · rw [toList_text_print, hpieces, List.flatMap_cons, hcs, List.cons_append]
  · rw [hbrace, closes, hpieces]
    rfl

theorem Formed.getLast?_text (h : l.Formed) (before after : Entity → String) :
    ∃ c, (l.print before after).text.toList.getLast? = some c ∧ (c = '\x7b' ↔ l.opens = true) ∧
      (c = ';' ∨ c = '\x7b' ∨ (l.print before after).text.toList = ['\x7d']) := by
  obtain ⟨front, last, hlast, hends⟩ := h.ends
  obtain ⟨c, hc, hbrace, hkind⟩ := Piece.getLast?_print_of_ends before after hends
  refine ⟨c, ?_, ?_, ?_⟩
  · rw [toList_text_print, hlast, List.flatMap_append, List.getLast?_append]
    simp [hc]
  · rw [hbrace, opens, hlast, List.getLast?_concat]
    rfl
  · refine hkind.imp_right (Or.imp_right ?_)
    rintro rfl
    -- A brace that closes a block begins its line, so nothing stands in front of it.
    obtain ⟨piece, rest, hpieces, -, hrest⟩ := h.starts
    rw [hpieces] at hlast
    cases front with
    | nil =>
        rw [toList_text_print, hpieces, hlast]
        simp [Piece.print]
    | cons first front =>
        obtain ⟨-, rfl⟩ := List.cons.inj hlast
        have hclosing := hrest .closing (by simp)
        cases hclosing

end Sketch

theorem Line.toList_indented (line : Line) :
    line.indented.toList = List.replicate (2 * line.depth) ' ' ++ line.text.toList := by
  rw [Line.indented, String.toList_append, String.toList_ofList]

theorem dropWhile_blanks {c : Char} (hc : c ≠ ' ') (n : Nat) (cs : List Char) :
    (List.replicate n ' ' ++ c :: cs).dropWhile (· = ' ') = c :: cs := by
  induction n with
  | zero => simp [hc]
  | succ n ih => simpa [List.replicate_succ] using ih

theorem oneLine_blanks (n : Nat) : OneLine (String.ofList (List.replicate n ' ')) := by
  intro c hc
  rw [String.toList_ofList] at hc
  rw [List.eq_of_mem_replicate hc]
  decide

/-- Written down, a line closes and opens what its sketch does. -/
theorem Sketch.Formed.shows {l : Sketch} (h : l.Formed)
    (hrefs : ∀ entity ∈ l.refs, isIdentifier (before entity))
    (hown : ∀ entity ∈ l.own, isIdentifier (after entity)) :
    (∃ text, Shows l.depth text (l.print before after).indented) ∧
      closesBlock (l.print before after).indented = l.closes ∧
      opensBlock (l.print before after).indented = l.opens := by
  obtain ⟨c, cs, htext, hblank, hcloses⟩ := h.head_print after hrefs
  obtain ⟨e, hlast, hopens, hkind⟩ := h.getLast?_text before after
  have hline := Line.toList_indented (l.print before after)
  refine ⟨⟨(l.print before after).text.toList, hline, ?_, ?_, ?_, ?_⟩, ?_, ?_⟩
  · rw [htext]
    exact List.cons_ne_nil c cs
  · rw [htext, List.head?_cons]
    exact fun heq ↦ hblank (Option.some.inj heq)
  · exact (oneLine_blanks _).append (h.oneLine_print hrefs hown)
  · rw [hlast]
    exact hkind.imp (congrArg some) (Or.imp_left (congrArg some))
  · rw [closesBlock, hline, htext, dropWhile_blanks hblank, List.head?_cons, Bool.eq_iff_iff,
      ← hcloses]
    simp
  · rw [opensBlock, hline, List.getLast?_append, hlast, Bool.eq_iff_iff, ← hopens]
    simp

end

/-! ## Written scripts -/

/-- The lines are indented by the open blocks, of which there are `n` before them and `m` behind
them. -/
inductive Indented : Nat → List String → Nat → Prop
  | nil (n : Nat) : Indented n [] n
  | cons {n m depth : Nat} {text : List Char} {line : String} {lines : List String}
      (hshows : Shows depth text line) (hdepth : depth + (closesBlock line).toNat = n)
      (hrest : Indented (depth + (opensBlock line).toNat) lines m) : Indented n (line :: lines) m

namespace Indented

variable {n m : Nat} {line : String} {lines earlier later : List String}

theorem countP_cons_eq (p : String → Bool) (line : String) (lines : List String) :
    (line :: lines).countP p = (p line).toNat + lines.countP p := by
  rw [List.countP_cons, Nat.add_comm]
  cases p line <;> rfl

/-- A line stands as far to the right as blocks have been opened and not closed up to it. -/
theorem exists_depth (h : Indented n (earlier ++ line :: later) m) :
    ∃ depth text, Shows depth text line ∧
      depth + (earlier ++ [line]).countP closesBlock = n + earlier.countP opensBlock := by
  induction earlier generalizing n with
  | nil =>
      cases h with
      | cons hshows hdepth _ =>
          refine ⟨_, _, hshows, ?_⟩
          rw [List.nil_append, countP_cons_eq, List.countP_nil, List.countP_nil]
          exact hdepth
  | cons first earlier ih =>
      cases h with
      | cons _ hdepth hrest =>
          obtain ⟨depth, text, hshows, hcount⟩ := ih hrest
          refine ⟨depth, text, hshows, ?_⟩
          rw [List.cons_append, countP_cons_eq, countP_cons_eq]
          omega

theorem balanced (h : Indented n lines m) :
    n + lines.countP opensBlock = m + lines.countP closesBlock := by
  induction h with
  | nil => rfl
  | cons _ hdepth _ ih =>
      rw [countP_cons_eq, countP_cons_eq]
      omega

theorem forall_shows (h : Indented n lines m) :
    ∀ line ∈ lines, ∃ depth text, Shows depth text line := by
  intro line hline
  obtain ⟨earlier, later, rfl⟩ := List.append_of_mem hline
  obtain ⟨depth, text, hshows, -⟩ := h.exists_depth
  exact ⟨depth, text, hshows⟩

end Indented

theorem refs_subset_contents (l : Sketch) : l.refs ⊆ contents l.trail := by
  intro entity hentity
  simp [Sketch.trail, hentity]

theorem own_subset_contents (l : Sketch) : l.own ⊆ contents l.trail := by
  intro entity hentity
  simp only [Sketch.own, Sketch.given, List.mem_append] at hentity
  simp only [Sketch.trail, contents_append, contents_map_bind, contents_map_use, List.mem_append]
  tauto

/-- Where the names are identifiers, the lines show the blocks of their sketches. -/
theorem indented_write {entities : Entities} {ls : List Sketch} {n m : Nat} (h : Nests n ls m)
    (hls : ∀ entity ∈ contents (Sketch.allTrail ls), isIdentifier (entities.nameOf entity))
    {names : Names} (hnames : names.Spelled) :
    Indented n ((write entities names ls).1.map Line.indented) m := by
  induction h generalizing names with
  | nil n => exact .nil n
  | @cons n m l ls hformed hdepth _ ih =>
      rw [allTrail_cons, contents_append] at hls
      obtain ⟨hl, hls⟩ := List.forall_mem_append.1 hls
      have hown : ∀ entity ∈ l.own, isIdentifier (entities.nameOf entity) :=
        fun entity hentity ↦ hl entity (own_subset_contents l hentity)
      have hafter : (names.declareAll entities l.given).2.Spelled :=
        hnames.declareAll fun entity hentity ↦ hown entity (List.mem_append_left _ hentity)
      obtain ⟨⟨text, hshows⟩, hcloses, hopens⟩ := hformed.shows
        (fun entity hentity ↦ hnames.refer (hl entity (refs_subset_contents l hentity)))
        (fun entity hentity ↦ hafter.refer (hown entity hentity))
      refine .cons hshows ?_ ?_
      · rw [hcloses]
        exact hdepth
      · rw [hopens]
        exact ih hls hafter

theorem indented_generate {p : Program}
    (h : ∀ entity ∈ p.occurrences, isIdentifier (p.entities.nameOf entity)) :
    Indented 0 (generate p) 0 := by
  rw [generate_eq_write]
  exact indented_write (nests_sketchOfBlock _ 0) (fun _ ↦ isIdentifier_of_mem_sketch h)
    Names.spelled_empty

/-- Blocks show in the lines of a script, optimized or not, when the names of its entities are
identifiers.  A line is as many steps to the right as blocks have been opened before it and not
closed up to it, where a line opens a block if it ends in a brace and closes one if it begins with a
brace; all blocks are closed in the end; and the lines are those of the text they are joined to. -/
theorem blocks_shown (options : Options) {p : Program}
    (h : ∀ entity ∈ p.occurrences, isIdentifier (p.entities.nameOf entity)) :
    let q := (prepare options p).1
    (∀ earlier line later, generate q = earlier ++ line :: later →
      ∃ depth text, Shows depth text line ∧
        depth + (earlier ++ [line]).countP closesBlock = earlier.countP opensBlock) ∧
    (generate q).countP opensBlock = (generate q).countP closesBlock ∧
    (generate q ≠ [] → Text.split '\n' (generateText q) = generate q) ∧
    Text.lines (generateText q) = generate q := by
  intro q
  have hindented := indented_generate (isIdentifier_of_prepare options h)
  have honeLine : ∀ line ∈ generate q, OneLine line := by
    intro line hline
    obtain ⟨depth, text, hshows⟩ := hindented.forall_shows line hline
    exact hshows.oneLine
  have hnonempty : ∀ line ∈ generate q, line.toList ≠ [] := by
    intro line hline
    obtain ⟨depth, text, hshows⟩ := hindented.forall_shows line hline
    rw [hshows.indented]
    exact List.append_ne_nil_of_right_ne_nil _ hshows.nonempty
  refine ⟨?_, ?_, fun hne ↦ Text.split_join hne honeLine, Text.lines_join honeLine hnonempty⟩
  · intro earlier line later heq
    have hlines : Indented 0 (earlier ++ line :: later) 0 := heq ▸ hindented
    obtain ⟨depth, text, hshows, hcount⟩ := hlines.exists_depth
    rw [Nat.zero_add] at hcount
    exact ⟨depth, text, hshows, hcount⟩
  · have hbalanced := hindented.balanced
    rwa [Nat.zero_add, Nat.zero_add] at hbalanced

/-- A string with a brace and a line break in it opens no block and breaks no line. -/
theorem blocks_shown_in_branches :
    let p : Program := ⟨[.cond (.bool true) [.print (.string "\x7d\n\x7b")]
      (.otherwise [.declare ⟨0⟩ (.int .one)])], ⟨[⟨"let", .int, false⟩], []⟩⟩
    (∀ entity ∈ p.occurrences, isIdentifier (p.entities.nameOf entity)) ∧
      generate (prepare ⟨false⟩ p).1 = ["let let_;", "if (true) \x7b",
        "  console.log(\"\x7d\\n\x7b\");", "\x7d else \x7b", "  let_ = 1;", "\x7d"] ∧
      Text.lines (generateText (prepare ⟨false⟩ p).1) = generate (prepare ⟨false⟩ p).1 := by
  intro p
  have hnames : ∀ entity ∈ p.occurrences, isIdentifier (p.entities.nameOf entity) := by
    decide +kernel
  exact ⟨hnames, by decide +kernel, (blocks_shown ⟨false⟩ hnames).2.2.2⟩

end Script
end Barista
