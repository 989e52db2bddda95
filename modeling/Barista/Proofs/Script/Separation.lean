import Barista.Proofs.Script.Sketch

/-!
# Lines in the text of a script

The text of a script is read line by line again.  Where a text ends in a character that belongs to
no line break, the lines of what continues it on the next line stand behind its own.  Every line of
a script ends in a semicolon or a brace, so this holds wherever a script is cut between its lines.
-/

namespace Barista
namespace Text

/-- The last character is there and no part of a line break. -/
def EndsVisibly (cs : List Char) : Prop :=
  ∃ c, cs.getLast? = some c ∧ c ≠ '\n' ∧ c ≠ '\r'

/-! ## Pieces -/

theorem pieces_append_cons (separator : Char) (a b : List Char) :
    pieces separator (a ++ separator :: b) = pieces separator a ++ pieces separator b := by
  induction a with
  | nil => simp [pieces]
  | cons c a ih =>
      by_cases hc : c = separator
      · simp [pieces, hc, ih]
      · obtain ⟨first, others, hpieces⟩ := List.exists_cons_of_ne_nil (pieces_ne_nil separator a)
        simp [pieces, hc, ih, hpieces]

/-- The last piece ends as the text does. -/
theorem exists_pieces_eq_append {separator c : Char} {cs : List Char} (hlast : cs.getLast? = some c)
    (hc : c ≠ separator) :
    ∃ front last, pieces separator cs = front ++ [last] ∧ last.getLast? = some c := by
  induction cs with
  | nil => cases hlast
  | cons d cs ih =>
      cases cs with
      | nil =>
          obtain rfl : d = c := by simpa using hlast
          exact ⟨[], [d], by simp [pieces, hc], rfl⟩
      | cons e cs =>
          rw [List.getLast?_cons_cons] at hlast
          obtain ⟨front, last, hpieces, hends⟩ := ih hlast
          by_cases hd : d = separator
          · exact ⟨[] :: front, last, by rw [pieces, if_pos hd, hpieces, List.cons_append], hends⟩
          · cases front with
            | nil =>
                refine ⟨[], d :: last, by rw [pieces, if_neg hd, hpieces]; rfl, ?_⟩
                rw [List.getLast?_cons, hends]
                rfl
            | cons first front =>
                exact ⟨(d :: first) :: front, last, by rw [pieces, if_neg hd, hpieces]; rfl, hends⟩

/-! ## Lines -/

theorem endedLines_append (a : List (List Char)) {b : List (List Char)} (hb : b ≠ []) :
    endedLines (a ++ b) = a.map dropReturn ++ endedLines b := by
  induction a with
  | nil => rfl
  | cons line a ih =>
      obtain ⟨first, others, hmore⟩ :=
        List.exists_cons_of_ne_nil (List.append_ne_nil_of_right_ne_nil a hb)
      rw [List.cons_append, hmore, endedLines, ← hmore, ih, List.map_cons, List.cons_append]
      simp

/-- A line break behind a visible character only ends a line. -/
theorem lines_append_newline {x y : String} (hx : EndsVisibly x.toList) :
    lines (x ++ "\n" ++ y) = lines x ++ lines y := by
  obtain ⟨c, hlast, hbreak, hreturn⟩ := hx
  obtain ⟨front, last, hpieces, hends⟩ := exists_pieces_eq_append hlast hbreak
  have htext : (x ++ "\n" ++ y).toList = x.toList ++ '\n' :: y.toList := by simp
  have hkept : dropReturn last = last := by
    rw [dropReturn, hends, if_neg]
    simpa using hreturn
  have hnonempty : last.isEmpty = false := by
    cases last with
    | nil => cases hends
    | cons d last => rfl
  rw [lines, lines, lines, htext, pieces_append_cons, hpieces,
    endedLines_append _ (pieces_ne_nil _ _), endedLines_append _ (List.cons_ne_nil _ _)]
  simp [endedLines, hkept, hnonempty]

theorem join_append {a b : List String} (ha : a ≠ []) (hb : b ≠ []) :
    join (a ++ b) = join a ++ "\n" ++ join b := by
  obtain ⟨first, others, rfl⟩ := List.exists_cons_of_ne_nil hb
  induction a with
  | nil => exact absurd rfl ha
  | cons line a ih =>
      cases a with
      | nil => simp [join, String.intercalate_cons_cons]
      | cons line' a =>
          have htail := ih (List.cons_ne_nil _ _)
          simp only [join, List.cons_append, String.intercalate_cons_cons] at htail ⊢
          rw [htail]
          simp only [String.append_assoc]

theorem endsVisibly_join {a : List String} (ha : a ≠ [])
    (hlines : ∀ line ∈ a, EndsVisibly line.toList) : EndsVisibly (join a).toList := by
  obtain ⟨front, last, rfl⟩ := List.eq_nil_or_concat a |>.resolve_left ha
  obtain ⟨c, hlast, hvisible⟩ := hlines last (by simp)
  refine ⟨c, ?_, hvisible⟩
  cases front with
  | nil => simpa [join] using hlast
  | cons line front =>
      rw [List.concat_eq_append, join_append (List.cons_ne_nil _ _) (List.cons_ne_nil _ _),
        String.toList_append, List.getLast?_append]
      simp [join, hlast]

/-- What joins more lines to others leaves their text in front as it is. -/
theorem lines_join_prefix {a b : List String} (hlines : ∀ line ∈ a, EndsVisibly line.toList)
    (h : a <+: b) : lines (join a) <+: lines (join b) := by
  obtain ⟨more, rfl⟩ := h
  by_cases ha : a = []
  · subst ha
    exact List.nil_prefix
  · by_cases hmore : more = []
    · simp only [hmore, List.append_nil, List.prefix_rfl]
    · rw [join_append ha hmore, lines_append_newline (endsVisibly_join ha hlines)]
      exact List.prefix_append _ _

end Text

namespace Script

open Barista.Core (Entity Entities)
open Text (EndsVisibly)

/-! ## The ends of script lines -/

/-- The piece ends a line: it is a brace or its text ends in a semicolon. -/
def Piece.ends : Piece → Bool
  | text s => s.toList.getLast? = some ';'
  | opening | closing => true
  | expr _ | give _ | input _ | again _ => false

/-- The last piece of the line ends it. -/
def Sketch.Ends (l : Sketch) : Prop :=
  ∃ front piece, l.pieces = front ++ [piece] ∧ piece.ends = true

theorem Sketch.Ends.of_getLast? {l : Sketch} (piece : Piece)
    (hlast : l.pieces.getLast? = some piece) (h : piece.ends = true) : l.Ends := by
  obtain ⟨front, hfront⟩ := List.getLast?_eq_some_iff.1 hlast
  exact ⟨front, piece, hfront, h⟩

theorem ends_closingLine (depth : Nat) : (closingLine depth).Ends :=
  .of_getLast? .closing rfl rfl

theorem ends_letLine (depth : Nat) (es : List Entity) : (letLine depth es).Ends :=
  ⟨.text "let " :: separated (es.map .give), .text ";", rfl, by decide⟩

theorem ends_functionLine (depth : Nat) (f : Entity) (es : List Entity) :
    (functionLine depth f es).Ends :=
  ⟨[.text "function ", .give f, .text "("] ++ separated (es.map .input) ++ [.text ") "], .opening,
    by simp [functionLine], rfl⟩

mutual

theorem ends_sketchOfStmt : ∀ (s : Stmt) (depth : Nat), ∀ l ∈ sketchOfStmt depth s, l.Ends
  | .declare _ _, _ | .assign _ _ _, _ | .ret (some _), _ | .call _ _ _, _ =>
      List.forall_mem_singleton.2 (.of_getLast? (.text ";") rfl (by decide))
  | .print _, _ => List.forall_mem_singleton.2 (.of_getLast? (.text ");") rfl (by decide))
  | .ret none, _ => List.forall_mem_singleton.2 (.of_getLast? (.text "return;") rfl (by decide))
  | .hoist ids, depth => List.forall_mem_singleton.2 (ends_letLine depth _)
  | .cond test body rest, depth => List.forall_mem_cons.2 ⟨.of_getLast? .opening rfl rfl,
      List.forall_mem_append.2 ⟨ends_sketchOfBlock body _, ends_sketchOfChain rest depth⟩⟩
  | .loop test body, depth | .elements _ test body, depth | .count _ test body, depth =>
      List.forall_mem_cons.2 ⟨.of_getLast? .opening rfl rfl, List.forall_mem_append.2
        ⟨ends_sketchOfBlock body _, List.forall_mem_singleton.2 (ends_closingLine depth)⟩⟩
  | .function id params body, depth =>
      List.forall_mem_cons.2 ⟨ends_functionLine depth _ _, List.forall_mem_append.2
        ⟨ends_sketchOfBlock body _, List.forall_mem_singleton.2 (ends_closingLine depth)⟩⟩

theorem ends_sketchOfBlock : ∀ (b : List Stmt) (depth : Nat), ∀ l ∈ sketchOfBlock depth b, l.Ends
  | [], _ => List.forall_mem_nil _
  | s :: rest, depth =>
      List.forall_mem_append.2 ⟨ends_sketchOfStmt s depth, ends_sketchOfBlock rest depth⟩

theorem ends_sketchOfChain : ∀ (c : Chain) (depth : Nat), ∀ l ∈ sketchOfChain depth c, l.Ends
  | .finish, depth => List.forall_mem_singleton.2 (ends_closingLine depth)
  | .otherwise body, depth =>
      List.forall_mem_cons.2 ⟨.of_getLast? .opening rfl rfl, List.forall_mem_append.2
        ⟨ends_sketchOfBlock body _, List.forall_mem_singleton.2 (ends_closingLine depth)⟩⟩
  | .also _ body rest, depth => List.forall_mem_cons.2 ⟨.of_getLast? .opening rfl rfl,
      List.forall_mem_append.2 ⟨ends_sketchOfBlock body _, ends_sketchOfChain rest depth⟩⟩

end

theorem Piece.getLast?_print {piece : Piece} (h : piece.ends = true)
    (before after : Entity → String) :
    ∃ c ∈ [';', '\x7b', '\x7d'], (piece.print before after).toList.getLast? = some c := by
  cases piece with
  | text s => exact ⟨';', by simp, of_decide_eq_true h⟩
  | opening => exact ⟨'\x7b', by simp, by simp [print]⟩
  | closing => exact ⟨'\x7d', by simp, by simp [print]⟩
  | expr _ | give _ | input _ | again _ => cases h

theorem toList_foldr_print (before after : Entity → String) (pieces : List Piece) :
    (pieces.foldr (fun piece text ↦ piece.print before after ++ text) "").toList =
      pieces.flatMap fun piece ↦ (piece.print before after).toList := by
  induction pieces with
  | nil => rfl
  | cons piece pieces ih => simp [ih]

theorem Sketch.Ends.getLast?_print {l : Sketch} (h : l.Ends) (before after : Entity → String) :
    ∃ c ∈ [';', '\x7b', '\x7d'],
      (l.print before after).indented.toList.getLast? = some c := by
  obtain ⟨front, piece, hpieces, hends⟩ := h
  obtain ⟨c, hc, hlast⟩ := Piece.getLast?_print hends before after
  refine ⟨c, hc, ?_⟩
  rw [Line.indented, Sketch.print, hpieces, String.toList_append, List.getLast?_append,
    toList_foldr_print, List.flatMap_append, List.getLast?_append]
  simp [hlast]

theorem exists_print_of_mem_write {entities : Entities} {ls : List Sketch} {names : Names}
    {line : Line} (h : line ∈ (write entities names ls).1) :
    ∃ l ∈ ls, ∃ before after, line = l.print before after := by
  induction ls generalizing names with
  | nil => cases h
  | cons l ls ih =>
      rcases List.mem_cons.1 h with rfl | h
      · exact ⟨l, List.mem_cons_self, _, _, rfl⟩
      · obtain ⟨l', hl', hline⟩ := ih h
        exact ⟨l', List.mem_cons_of_mem _ hl', hline⟩

/-- Every line of a script ends in a semicolon or a brace. -/
theorem getLast?_of_mem_generate {p : Core.Program} {line : String} (h : line ∈ generate p) :
    ∃ c ∈ [';', '\x7b', '\x7d'], line.toList.getLast? = some c := by
  rw [generate, linesOfBlock_eq_write] at h
  obtain ⟨_, hline, rfl⟩ := List.mem_map.1 h
  obtain ⟨l, hl, before, after, rfl⟩ := exists_print_of_mem_write hline
  exact (ends_sketchOfBlock _ _ l hl).getLast?_print before after

theorem endsVisibly_of_mem_generate {p : Core.Program} {line : String} (h : line ∈ generate p) :
    EndsVisibly line.toList := by
  obtain ⟨c, hc, hlast⟩ := getLast?_of_mem_generate h
  have hvisible : ∀ c ∈ [';', '\x7b', '\x7d'], c ≠ '\n' ∧ c ≠ '\r' := by simp
  exact ⟨c, hlast, hvisible c hc⟩

end Script
end Barista
