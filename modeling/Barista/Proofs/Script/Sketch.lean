import Barista.Proofs.Script.Naming
import Barista.Script.Line

/-!
# Sketches of script lines

A sketch is a line whose names are still open: it says where the line opens or closes a block, which
expressions stand in it and which entities it introduces.  The lines of a script are its sketches,
written down one by one with the names that have been given until then.
-/

namespace Barista
namespace Script

open Barista.Core (VarId FunId Entity Entities Expr)
open Scoping Scoping.Trail

inductive Piece
  | text (s : String)
  | opening
  | closing
  | expr (e : Expr)
  /-- Introduces an entity in the block where the line stands. -/
  | give (entity : Entity)
  /-- Introduces an entity in the block that the line opens. -/
  | input (entity : Entity)
  /-- Mentions an entity that the line itself introduces. -/
  | again (entity : Entity)

namespace Piece

/-- The text of a piece, given how entities are written in front of the line and behind it. -/
def print (before after : Entity → String) : Piece → String
  | text s => s
  | opening => "\x7b"
  | closing => "\x7d"
  | expr e => render before e
  | give entity | input entity | again entity => after entity

@[simp] def refs : Piece → List Entity
  | expr e => e.refs
  | _ => []

@[simp] def gives : Piece → List Entity
  | give entity => [entity]
  | _ => []

@[simp] def inputs : Piece → List Entity
  | input entity => [entity]
  | _ => []

@[simp] def agains : Piece → List Entity
  | again entity => [entity]
  | _ => []

@[simp] def leaves : Piece → Trail Entity
  | closing => [.leave]
  | _ => []

@[simp] def enters : Piece → Trail Entity
  | opening => [.enter]
  | _ => []

end Piece

structure Sketch where
  depth : Nat
  pieces : List Piece

namespace Sketch

def print (before after : Entity → String) (l : Sketch) : Line :=
  ⟨l.depth, l.pieces.foldr (fun piece text ↦ piece.print before after ++ text) ""⟩

/-- What the line mentions that others have introduced. -/
def refs (l : Sketch) : List Entity := l.pieces.flatMap Piece.refs

/-- What the line introduces. -/
def given (l : Sketch) : List Entity :=
  l.pieces.flatMap Piece.gives ++ l.pieces.flatMap Piece.inputs

/-- What the line names that it introduces itself. -/
def own (l : Sketch) : List Entity := l.given ++ l.pieces.flatMap Piece.agains

/-- The marks of a line under the rules of JavaScript.  A block that it closes ends at its start and
one that it opens begins at its end; the variable of a loop and the parameters of a function belong
to the block that their line opens. -/
def trail (l : Sketch) : Trail Entity :=
  l.pieces.flatMap Piece.leaves ++ l.refs.map .use ++ (l.pieces.flatMap Piece.gives).map .bind ++
    l.pieces.flatMap Piece.enters ++ (l.pieces.flatMap Piece.inputs).map .bind ++
    (l.pieces.flatMap Piece.agains).map .use

/-- What a list of lines mentions, in order. -/
def allRefs (ls : List Sketch) : List Entity := ls.flatMap refs

/-- The trail of a list of lines. -/
def allTrail (ls : List Sketch) : Trail Entity := ls.flatMap trail

end Sketch

/-- Writing sketches down: each line gives names to what it introduces. -/
def write (entities : Entities) (names : Names) : List Sketch → List Line × Names
  | [] => ([], names)
  | l :: rest =>
    let after := (names.declareAll entities l.given).2
    let others := write entities after rest
    (l.print (names.refer entities) (after.refer entities) :: others.1, others.2)

def separated (pieces : List Piece) : List Piece :=
  pieces.intersperse (.text ", ")

def closingLine (depth : Nat) : Sketch := ⟨depth, [.closing]⟩

def letLine (depth : Nat) (es : List Entity) : Sketch :=
  ⟨depth, .text "let " :: separated (es.map .give) ++ [.text ";"]⟩

def functionLine (depth : Nat) (f : Entity) (es : List Entity) : Sketch :=
  ⟨depth, [.text "function ", .give f, .text "("] ++ separated (es.map .input) ++
    [.text ") ", .opening]⟩

mutual

def sketchOfStmt (depth : Nat) : Stmt → List Sketch
  | .declare id init =>
    [⟨depth, [.text "let ", .give (.variable id), .text " = ", .expr init, .text ";"]⟩]
  | .hoist ids => [letLine depth (ids.map .variable)]
  | .assign id op value =>
    [⟨depth, [.expr (.var id), .text " ", .text op.text, .text " ", .expr value, .text ";"]⟩]
  | .print argument => [⟨depth, [.text "console.log(", .expr argument, .text ");"]⟩]
  | .cond test body rest =>
    ⟨depth, [.text "if (", .expr test, .text ") ", .opening]⟩ ::
      (sketchOfBlock (depth + 1) body ++ sketchOfChain depth rest)
  | .loop test body =>
    ⟨depth, [.text "while (", .expr test, .text ") ", .opening]⟩ ::
      (sketchOfBlock (depth + 1) body ++ [closingLine depth])
  | .elements iterator array body =>
    ⟨depth, [.text "for (const ", .input (.variable iterator), .text " of ", .expr array,
      .text ") ", .opening]⟩ :: (sketchOfBlock (depth + 1) body ++ [closingLine depth])
  | .count iterator limit body =>
    ⟨depth, [.text "for (let ", .input (.variable iterator), .text " = 0; ",
      .again (.variable iterator), .text " < ", .expr limit, .text "; ",
      .again (.variable iterator), .text "++) ", .opening]⟩ ::
      (sketchOfBlock (depth + 1) body ++ [closingLine depth])
  | .ret none => [⟨depth, [.text "return;"]⟩]
  | .ret (some value) => [⟨depth, [.text "return ", .expr value, .text ";"]⟩]
  | .function id params body =>
    functionLine depth (.function id) (params.map .variable) ::
      (sketchOfBlock (depth + 1) body ++ [closingLine depth])
  | .call callee args type => [⟨depth, [.expr (.call callee args type), .text ";"]⟩]

def sketchOfBlock (depth : Nat) : List Stmt → List Sketch
  | [] => []
  | s :: rest => sketchOfStmt depth s ++ sketchOfBlock depth rest

def sketchOfChain (depth : Nat) : Chain → List Sketch
  | .finish => [closingLine depth]
  | .otherwise body =>
    ⟨depth, [.closing, .text " else ", .opening]⟩ ::
      (sketchOfBlock (depth + 1) body ++ [closingLine depth])
  | .also test body rest =>
    ⟨depth, [.closing, .text " else if (", .expr test, .text ") ", .opening]⟩ ::
      (sketchOfBlock (depth + 1) body ++ sketchOfChain depth rest)

end

theorem sketchOfBlock_append (depth : Nat) (a b : List Stmt) :
    sketchOfBlock depth (a ++ b) = sketchOfBlock depth a ++ sketchOfBlock depth b := by
  induction a with
  | nil => rfl
  | cons s a ih => rw [List.cons_append, sketchOfBlock, sketchOfBlock, ih, List.append_assoc]

/-! ## Lines are sketches written down -/

theorem write_append (entities : Entities) (names : Names) (ls ls' : List Sketch) :
    write entities names (ls ++ ls') =
      ((write entities names ls).1 ++ (write entities (write entities names ls).2 ls').1,
        (write entities (write entities names ls).2 ls').2) := by
  induction ls generalizing names with
  | nil => rfl
  | cons l ls ih => simp only [List.cons_append, write, ih]

theorem write_closingLine (entities : Entities) (names : Names) (depth : Nat) :
    write entities names [closingLine depth] = ([⟨depth, "\x7d"⟩], names) := rfl

/-- Names behind a list of lines are given to what it introduces, in order. -/
theorem write_snd (entities : Entities) (names : Names) (ls : List Sketch) :
    (write entities names ls).2 = (names.declareAll entities (ls.flatMap Sketch.given)).2 := by
  induction ls generalizing names with
  | nil => rfl
  | cons l ls ih =>
      rw [List.flatMap_cons, Names.declareAll_append, ← ih]
      rfl

/-- Of the two ways to write entities, each counts only for its own part of a line. -/
theorem Sketch.print_congr {before before' after after' : Entity → String} (l : Sketch)
    (hbefore : ∀ entity ∈ l.refs, before entity = before' entity)
    (hafter : ∀ entity ∈ l.own, after entity = after' entity) :
    l.print before after = l.print before' after' := by
  have hpieces : ∀ piece ∈ l.pieces, piece.print before after = piece.print before' after' := by
    intro piece hpiece
    cases piece with
    | text s | opening | closing => rfl
    | expr e =>
        apply render_congr
        intro entity hentity
        exact hbefore entity (List.mem_flatMap.2 ⟨_, hpiece, hentity⟩)
    | give entity =>
        apply hafter
        apply List.mem_append_left
        apply List.mem_append_left
        exact List.mem_flatMap.2 ⟨_, hpiece, List.mem_singleton_self entity⟩
    | input entity =>
        apply hafter
        apply List.mem_append_left
        apply List.mem_append_right
        exact List.mem_flatMap.2 ⟨_, hpiece, List.mem_singleton_self entity⟩
    | again entity =>
        apply hafter
        apply List.mem_append_right
        exact List.mem_flatMap.2 ⟨_, hpiece, List.mem_singleton_self entity⟩
  rw [Sketch.print, Sketch.print]
  congr 1
  apply List.foldr_ext
  intro piece hpiece text
  rw [hpieces piece hpiece]

/-- Lines in which every name is known in time are written with one way to write entities. -/
theorem write_fst_eq {entities : Entities} {f : Entity → String} {names : Names} {ls : List Sketch}
    (h : ∀ front l back, ls = front ++ l :: back →
      (∀ entity ∈ l.refs, (write entities names front).2.refer entities entity = f entity) ∧
        ∀ entity ∈ l.own,
          (write entities names (front ++ [l])).2.refer entities entity = f entity) :
    (write entities names ls).1 = ls.map fun l ↦ l.print f f := by
  induction ls generalizing names with
  | nil => rfl
  | cons l ls ih =>
      obtain ⟨hrefs, hown⟩ := h [] l ls rfl
      have hfirst : l.print (names.refer entities)
          ((names.declareAll entities l.given).2.refer entities) = l.print f f :=
        l.print_congr hrefs hown
      have hrest : (write entities (names.declareAll entities l.given).2 ls).1 =
          ls.map fun l ↦ l.print f f := by
        apply ih
        rintro front l' back rfl
        exact h (l :: front) l' back rfl
      simp only [write, List.map_cons, hfirst, hrest]

/-- A list of names is written with commas. -/
theorem foldr_separated (before after : Entity → String) (piece : Entity → Piece)
    (hpiece : ∀ entity, (piece entity).print before after = after entity)
    (es : List Entity) (rest : List Piece) :
    (separated (es.map piece) ++ rest).foldr
        (fun piece text ↦ piece.print before after ++ text) "" =
      commaList (es.map after) ++
        rest.foldr (fun piece text ↦ piece.print before after ++ text) "" := by
  induction es with
  | nil => simp [separated, commaList]
  | cons e es ih =>
      cases es with
      | nil => simp [separated, commaList, hpiece]
      | cons e' es =>
          have htail : separated ((e :: e' :: es).map piece) =
              piece e :: .text ", " :: separated ((e' :: es).map piece) := rfl
          have hcommas : commaList ((e :: e' :: es).map after) =
              after e ++ ", " ++ commaList ((e' :: es).map after) :=
            String.intercalate_cons_cons
          rw [htail, hcommas, List.cons_append, List.cons_append, List.foldr_cons,
            List.foldr_cons, ih, hpiece, Piece.print, String.append_assoc, String.append_assoc]

/-- Commas carry nothing. -/
theorem flatMap_separated {β : Type} (f : Piece → List β) (hf : f (.text ", ") = [])
    (pieces : List Piece) : (separated pieces).flatMap f = pieces.flatMap f := by
  induction pieces with
  | nil => rfl
  | cons piece pieces ih =>
      cases pieces with
      | nil => rfl
      | cons piece' pieces =>
          have htail : separated (piece :: piece' :: pieces) =
              piece :: .text ", " :: separated (piece' :: pieces) := rfl
          rw [htail, List.flatMap_cons, List.flatMap_cons, ih, hf, List.nil_append,
            ← List.flatMap_cons]

theorem flatMap_separated_self (f : Piece → List Entity) (piece : Entity → Piece)
    (hf : f (.text ", ") = []) (hpiece : ∀ entity, f (piece entity) = [entity])
    (es : List Entity) : (separated (es.map piece)).flatMap f = es := by
  rw [flatMap_separated f hf]
  induction es with
  | nil => rfl
  | cons e es ih => rw [List.map_cons, List.flatMap_cons, ih, hpiece, List.singleton_append]

theorem flatMap_separated_nil {β : Type} (f : Piece → List β) (piece : Entity → Piece)
    (hf : f (.text ", ") = []) (hpiece : ∀ entity, f (piece entity) = [])
    (es : List Entity) : (separated (es.map piece)).flatMap f = [] := by
  rw [flatMap_separated f hf, List.flatMap_map, List.flatMap_eq_nil_iff]
  exact fun entity _ ↦ hpiece entity

section Commas

variable (depth : Nat) (f : Entity) (es : List Entity)

theorem flatMap_letLine {β : Type} (g : Piece → List β) (hg : ∀ s, g (.text s) = []) :
    (letLine depth es).pieces.flatMap g = (separated (es.map .give)).flatMap g := by
  simp [letLine, hg]

theorem flatMap_functionLine {β : Type} (g : Piece → List β) (hg : ∀ s, g (.text s) = []) :
    (functionLine depth f es).pieces.flatMap g =
      g (.give f) ++ (separated (es.map .input)).flatMap g ++ g .opening := by
  simp [functionLine, hg]

theorem given_letLine : (letLine depth es).given = es := by
  rw [Sketch.given, flatMap_letLine depth es Piece.gives fun _ ↦ rfl,
    flatMap_letLine depth es Piece.inputs fun _ ↦ rfl,
    flatMap_separated_self Piece.gives .give rfl fun _ ↦ rfl,
    flatMap_separated_nil Piece.inputs .give rfl fun _ ↦ rfl, List.append_nil]

theorem given_functionLine : (functionLine depth f es).given = f :: es := by
  rw [Sketch.given, flatMap_functionLine depth f es Piece.gives fun _ ↦ rfl,
    flatMap_functionLine depth f es Piece.inputs fun _ ↦ rfl,
    flatMap_separated_nil Piece.gives .input rfl fun _ ↦ rfl,
    flatMap_separated_self Piece.inputs .input rfl fun _ ↦ rfl]
  simp

theorem refs_letLine : (letLine depth es).refs = [] := by
  rw [Sketch.refs, flatMap_letLine depth es Piece.refs fun _ ↦ rfl]
  exact flatMap_separated_nil Piece.refs .give rfl (fun _ ↦ rfl) es

theorem refs_functionLine : (functionLine depth f es).refs = [] := by
  rw [Sketch.refs, flatMap_functionLine depth f es Piece.refs fun _ ↦ rfl,
    flatMap_separated_nil Piece.refs .input rfl (fun _ ↦ rfl) es]
  rfl

theorem trail_letLine : (letLine depth es).trail = es.map .bind := by
  rw [Sketch.trail, Sketch.refs, flatMap_letLine depth es Piece.leaves fun _ ↦ rfl,
    flatMap_letLine depth es Piece.refs fun _ ↦ rfl,
    flatMap_letLine depth es Piece.gives fun _ ↦ rfl,
    flatMap_letLine depth es Piece.enters fun _ ↦ rfl,
    flatMap_letLine depth es Piece.inputs fun _ ↦ rfl,
    flatMap_letLine depth es Piece.agains fun _ ↦ rfl,
    flatMap_separated_nil Piece.leaves .give rfl fun _ ↦ rfl,
    flatMap_separated_nil Piece.refs .give rfl fun _ ↦ rfl,
    flatMap_separated_self Piece.gives .give rfl fun _ ↦ rfl,
    flatMap_separated_nil Piece.enters .give rfl fun _ ↦ rfl,
    flatMap_separated_nil Piece.inputs .give rfl fun _ ↦ rfl,
    flatMap_separated_nil Piece.agains .give rfl fun _ ↦ rfl]
  simp

theorem trail_functionLine :
    (functionLine depth f es).trail = .bind f :: .enter :: es.map .bind := by
  rw [Sketch.trail, Sketch.refs, flatMap_functionLine depth f es Piece.leaves fun _ ↦ rfl,
    flatMap_functionLine depth f es Piece.refs fun _ ↦ rfl,
    flatMap_functionLine depth f es Piece.gives fun _ ↦ rfl,
    flatMap_functionLine depth f es Piece.enters fun _ ↦ rfl,
    flatMap_functionLine depth f es Piece.inputs fun _ ↦ rfl,
    flatMap_functionLine depth f es Piece.agains fun _ ↦ rfl,
    flatMap_separated_nil Piece.leaves .input rfl fun _ ↦ rfl,
    flatMap_separated_nil Piece.refs .input rfl fun _ ↦ rfl,
    flatMap_separated_nil Piece.gives .input rfl fun _ ↦ rfl,
    flatMap_separated_nil Piece.enters .input rfl fun _ ↦ rfl,
    flatMap_separated_self Piece.inputs .input rfl fun _ ↦ rfl,
    flatMap_separated_nil Piece.agains .input rfl fun _ ↦ rfl]
  simp

variable (before after : Entity → String)

theorem print_letLine : (letLine depth es).print before after =
    ⟨depth, "let " ++ commaList (es.map after) ++ ";"⟩ := by
  rw [Sketch.print, letLine, List.cons_append, List.foldr_cons,
    foldr_separated before after .give fun _ ↦ rfl]
  simp [Piece.print, String.append_assoc]

theorem print_functionLine : (functionLine depth f es).print before after =
    ⟨depth, "function " ++ after f ++ inParens (commaList (es.map after)) ++ " \x7b"⟩ := by
  rw [Sketch.print, functionLine, List.append_assoc, List.cons_append, List.cons_append,
    List.cons_append, List.nil_append, List.foldr_cons, List.foldr_cons, List.foldr_cons,
    foldr_separated before after .input fun _ ↦ rfl]
  simp [Piece.print, inParens, String.append_assoc]

end Commas

/-- Writing a line that introduces nothing. -/
theorem write_cons_of_given_nil (entities : Entities) (names : Names) {l : Sketch}
    (hl : l.given = []) (rest : List Sketch) :
    write entities names (l :: rest) =
      (l.print (names.refer entities) (names.refer entities) :: (write entities names rest).1,
        (write entities names rest).2) := by
  rw [write, hl]
  rfl

theorem write_cons_of_given_singleton (entities : Entities) (names : Names) {l : Sketch}
    {entity : Entity} (hl : l.given = [entity]) (rest : List Sketch) :
    write entities names (l :: rest) =
      (l.print (names.refer entities) ((names.declare entities entity).2.refer entities) ::
          (write entities (names.declare entities entity).2 rest).1,
        (write entities (names.declare entities entity).2 rest).2) := by
  rw [write, hl]
  rfl

theorem refer_declare_self (names : Names) (entities : Entities) (entity : Entity) :
    (names.declare entities entity).2.refer entities entity =
      (names.declare entities entity).1 :=
  Names.refer_eq_of_name? (Names.name?_declare_self names entities entity)

theorem toString_string (s : String) : toString s = s := rfl

mutual

theorem linesOfStmt_eq_write (entities : Entities) : ∀ (s : Stmt) (depth : Nat) (names : Names),
    linesOfStmt entities depth names s = write entities names (sketchOfStmt depth s)
  | .declare id init, depth, names => by
      rw [sketchOfStmt, write_cons_of_given_singleton entities names rfl]
      simp [linesOfStmt, write, Sketch.print, Piece.print, refer_declare_self, Names.expr,
        String.append_assoc, toString_string]
  | .hoist ids, depth, names => by
      rw [sketchOfStmt, write, given_letLine, print_letLine, ← Names.declareAll_fst]
      rfl
  | .assign id op value, depth, names => by
      rw [sketchOfStmt, write_cons_of_given_nil entities names rfl]
      simp [linesOfStmt, write, Sketch.print, Piece.print, Names.expr, render, String.append_assoc]
  | .print argument, depth, names => by
      rw [sketchOfStmt, write_cons_of_given_nil entities names rfl]
      simp [linesOfStmt, write, Sketch.print, Piece.print, Names.expr, String.append_assoc]
  | .cond test body rest, depth, names => by
      rw [sketchOfStmt, write_cons_of_given_nil entities names rfl, write_append]
      simp [linesOfStmt, linesOfBlock_eq_write entities body, linesOfChain_eq_write entities rest,
        Sketch.print, Piece.print, Names.expr, String.append_assoc]
  | .loop test body, depth, names => by
      rw [sketchOfStmt, write_cons_of_given_nil entities names rfl, write_append]
      simp [linesOfStmt, linesOfBlock_eq_write entities body, write_closingLine,
        Sketch.print, Piece.print, Names.expr, String.append_assoc]
  | .elements iterator array body, depth, names => by
      rw [sketchOfStmt, write_cons_of_given_singleton entities names rfl, write_append]
      simp [linesOfStmt, linesOfBlock_eq_write entities body, write_closingLine,
        Sketch.print, Piece.print, Names.expr, refer_declare_self, String.append_assoc,
        toString_string]
  | .count iterator limit body, depth, names => by
      rw [sketchOfStmt, write_cons_of_given_singleton entities names rfl, write_append]
      simp [linesOfStmt, linesOfBlock_eq_write entities body, write_closingLine,
        Sketch.print, Piece.print, Names.expr, refer_declare_self, String.append_assoc,
        toString_string]
  | .ret none, depth, names => rfl
  | .ret (some value), depth, names => by
      rw [sketchOfStmt, write_cons_of_given_nil entities names rfl]
      simp [linesOfStmt, write, Sketch.print, Piece.print, Names.expr, String.append_assoc]
  | .function id params body, depth, names => by
      have hnames := Names.declareAll_fst names entities (.function id :: params.map .variable)
      obtain ⟨hname, hparams⟩ := List.cons.inj hnames
      rw [sketchOfStmt, write, given_functionLine, print_functionLine, ← hname, ← hparams,
        write_append, write_closingLine, ← linesOfBlock_eq_write entities body]
      rfl
  | .call callee args type, depth, names => by
      rw [sketchOfStmt, write_cons_of_given_nil entities names rfl]
      simp [linesOfStmt, write, Sketch.print, Piece.print, Names.expr]

theorem linesOfBlock_eq_write (entities : Entities) :
    ∀ (b : List Stmt) (depth : Nat) (names : Names),
      linesOfBlock entities depth names b = write entities names (sketchOfBlock depth b)
  | [], depth, names => rfl
  | s :: rest, depth, names => by
      rw [sketchOfBlock, write_append, ← linesOfStmt_eq_write entities s,
        ← linesOfBlock_eq_write entities rest]
      rfl

theorem linesOfChain_eq_write (entities : Entities) :
    ∀ (c : Chain) (depth : Nat) (names : Names),
      linesOfChain entities depth names c = write entities names (sketchOfChain depth c)
  | .finish, depth, names => rfl
  | .otherwise body, depth, names => by
      rw [sketchOfChain, write_cons_of_given_nil entities names rfl, write_append]
      simp [linesOfChain, linesOfBlock_eq_write entities body, write_closingLine,
        Sketch.print, Piece.print]
  | .also test body rest, depth, names => by
      have hhead (text : String) :
          "\x7d" ++ (" else if (" ++ text) = "\x7d else if (" ++ text := by
        rw [← String.append_assoc]
        rfl
      rw [sketchOfChain, write_cons_of_given_nil entities names rfl, write_append]
      simp [linesOfChain, linesOfBlock_eq_write entities body, linesOfChain_eq_write entities rest,
        Sketch.print, Piece.print, Names.expr, String.append_assoc, hhead]

end

/-! ## The trail of a script -/

mutual

def Stmt.trail : Stmt → Trail Entity
  | .declare id init => init.refs.map .use ++ [.bind (.variable id)]
  | .hoist ids => (ids.map .variable).map .bind
  | .assign id _ value => .use (.variable id) :: value.refs.map .use
  | .print argument => argument.refs.map .use
  | .cond test body rest => test.refs.map .use ++ (nested (Stmt.allTrail body) ++ rest.trail)
  | .loop test body => test.refs.map .use ++ nested (Stmt.allTrail body)
  | .elements iterator array body =>
    array.refs.map .use ++ nested (.bind (.variable iterator) :: Stmt.allTrail body)
  | .count iterator limit body =>
    limit.refs.map .use ++ nested (.bind (.variable iterator) :: .use (.variable iterator) ::
      .use (.variable iterator) :: Stmt.allTrail body)
  | .ret value => (value.elim [] Expr.refs).map .use
  | .function id params body =>
    .bind (.function id) :: nested ((params.map .variable).map .bind ++ Stmt.allTrail body)
  | .call callee args _ => .use (.function callee) :: (Expr.allRefs args).map .use

def Stmt.allTrail : List Stmt → Trail Entity
  | [] => []
  | s :: rest => s.trail ++ Stmt.allTrail rest

/-- The branches behind a block that has been closed. -/
def Chain.trail : Chain → Trail Entity
  | .finish => []
  | .otherwise body => nested (Stmt.allTrail body)
  | .also test body rest =>
    test.refs.map .use ++ (nested (Stmt.allTrail body) ++ rest.trail)

end

theorem allTrail_cons (l : Sketch) (ls : List Sketch) :
    Sketch.allTrail (l :: ls) = l.trail ++ Sketch.allTrail ls :=
  List.flatMap_cons

theorem allTrail_append (ls ls' : List Sketch) :
    Sketch.allTrail (ls ++ ls') = Sketch.allTrail ls ++ Sketch.allTrail ls' :=
  List.flatMap_append

theorem bound_leaves (pieces : List Piece) : bound (pieces.flatMap Piece.leaves) = [] := by
  rw [bound, List.filterMap_eq_nil_iff]
  intro m hm
  obtain ⟨piece, -, hmem⟩ := List.mem_flatMap.1 hm
  cases piece <;> simp at hmem
  rw [hmem]
  rfl

theorem bound_enters (pieces : List Piece) : bound (pieces.flatMap Piece.enters) = [] := by
  rw [bound, List.filterMap_eq_nil_iff]
  intro m hm
  obtain ⟨piece, -, hmem⟩ := List.mem_flatMap.1 hm
  cases piece <;> simp at hmem
  rw [hmem]
  rfl

theorem bound_trail (l : Sketch) : bound l.trail = l.given := by
  simp [Sketch.trail, Sketch.given, bound_leaves, bound_enters]

/-- A line mentions what others have introduced in front of its own introductions. -/
theorem exists_use_of_mem_refs {l : Sketch} {entity : Entity} (h : entity ∈ l.refs) :
    ∃ pre post, l.trail = pre ++ .use entity :: post ∧ bound pre = [] := by
  obtain ⟨refs, refs', hrefs⟩ := List.append_of_mem h
  refine ⟨l.pieces.flatMap Piece.leaves ++ refs.map .use, refs'.map .use ++
    ((l.pieces.flatMap Piece.gives).map .bind ++ (l.pieces.flatMap Piece.enters ++
      ((l.pieces.flatMap Piece.inputs).map .bind ++ (l.pieces.flatMap Piece.agains).map .use))),
    ?_, ?_⟩
  · simp [Sketch.trail, hrefs]
  · simp [bound_leaves]

/-- A line mentions its own introductions behind them. -/
theorem exists_use_of_mem_agains {l : Sketch} {entity : Entity}
    (h : entity ∈ l.pieces.flatMap Piece.agains) :
    ∃ pre post, l.trail = pre ++ .use entity :: post ∧ bound pre = l.given := by
  obtain ⟨agains, agains', hagains⟩ := List.append_of_mem h
  refine ⟨l.pieces.flatMap Piece.leaves ++ l.refs.map .use ++
    (l.pieces.flatMap Piece.gives).map .bind ++ l.pieces.flatMap Piece.enters ++
    (l.pieces.flatMap Piece.inputs).map .bind ++ agains.map .use, agains'.map .use, ?_, ?_⟩
  · simp [Sketch.trail, hagains]
  · simp [bound_leaves, bound_enters, Sketch.given]

/-- What the marks of lines introduce is what the lines do. -/
theorem bound_allTrail (ls : List Sketch) :
    bound (Sketch.allTrail ls) = ls.flatMap Sketch.given := by
  induction ls with
  | nil => rfl
  | cons l ls ih => rw [allTrail_cons, bound_append, bound_trail, ih, List.flatMap_cons]

theorem allTrail_closingLine (depth : Nat) :
    Sketch.allTrail [closingLine depth] = [.leave] := rfl

mutual

theorem allTrail_sketchOfStmt : ∀ (s : Stmt) (depth : Nat),
    Sketch.allTrail (sketchOfStmt depth s) = s.trail
  | .declare id init, depth => by
      simp [sketchOfStmt, Stmt.trail, Sketch.allTrail, Sketch.trail, Sketch.refs]
  | .hoist ids, depth => by
      rw [sketchOfStmt, allTrail_cons, trail_letLine]
      exact List.append_nil _
  | .assign id op value, depth => by
      simp [sketchOfStmt, Stmt.trail, Sketch.allTrail, Sketch.trail, Sketch.refs, Expr.refs]
  | .print argument, depth => by
      simp [sketchOfStmt, Stmt.trail, Sketch.allTrail, Sketch.trail, Sketch.refs]
  | .cond test body rest, depth => by
      rw [sketchOfStmt, allTrail_cons, allTrail_append, allTrail_sketchOfBlock body,
        allTrail_sketchOfChain rest, Stmt.trail]
      simp [nested, Sketch.trail, Sketch.refs]
  | .loop test body, depth => by
      rw [sketchOfStmt, allTrail_cons, allTrail_append, allTrail_sketchOfBlock body,
        allTrail_closingLine, Stmt.trail]
      simp [nested, Sketch.trail, Sketch.refs]
  | .elements iterator array body, depth => by
      rw [sketchOfStmt, allTrail_cons, allTrail_append, allTrail_sketchOfBlock body,
        allTrail_closingLine, Stmt.trail]
      simp [nested, Sketch.trail, Sketch.refs]
  | .count iterator limit body, depth => by
      rw [sketchOfStmt, allTrail_cons, allTrail_append, allTrail_sketchOfBlock body,
        allTrail_closingLine, Stmt.trail]
      simp [nested, Sketch.trail, Sketch.refs]
  | .ret none, depth => rfl
  | .ret (some value), depth => by
      simp [sketchOfStmt, Stmt.trail, Sketch.allTrail, Sketch.trail, Sketch.refs]
  | .function id params body, depth => by
      rw [sketchOfStmt, allTrail_cons, allTrail_append, allTrail_sketchOfBlock body,
        allTrail_closingLine, trail_functionLine, Stmt.trail]
      simp [nested]
  | .call callee args type, depth => by
      simp [sketchOfStmt, Stmt.trail, Sketch.allTrail, Sketch.trail, Sketch.refs, Expr.refs]

theorem allTrail_sketchOfBlock : ∀ (b : List Stmt) (depth : Nat),
    Sketch.allTrail (sketchOfBlock depth b) = Stmt.allTrail b
  | [], depth => rfl
  | s :: rest, depth => by
      rw [sketchOfBlock, allTrail_append, allTrail_sketchOfStmt s, allTrail_sketchOfBlock rest]
      rfl

/-- The first of these lines closes the block in front of them. -/
theorem allTrail_sketchOfChain : ∀ (c : Chain) (depth : Nat),
    Sketch.allTrail (sketchOfChain depth c) = .leave :: c.trail
  | .finish, depth => rfl
  | .otherwise body, depth => by
      rw [sketchOfChain, allTrail_cons, allTrail_append, allTrail_sketchOfBlock body,
        allTrail_closingLine, Chain.trail]
      rfl
  | .also test body rest, depth => by
      rw [sketchOfChain, allTrail_cons, allTrail_append, allTrail_sketchOfBlock body,
        allTrail_sketchOfChain rest, Chain.trail]
      simp [nested, Sketch.trail, Sketch.refs]

end

/-! ## Where braces stand -/

/-- Outside of expressions and names, braces only open and close blocks. -/
def Piece.Plain : Piece → Prop
  | .text s => '\x7b' ∉ s.toList ∧ '\x7d' ∉ s.toList
  | _ => True

def Sketch.Plain (l : Sketch) : Prop := ∀ piece ∈ l.pieces, piece.Plain

theorem forall_mem_separated {P : Piece → Prop} {pieces : List Piece} (hcomma : P (.text ", "))
    (h : ∀ piece ∈ pieces, P piece) : ∀ piece ∈ separated pieces, P piece := by
  induction pieces with
  | nil => exact h
  | cons first pieces ih =>
      cases pieces with
      | nil => exact h
      | cons second pieces =>
          obtain ⟨hfirst, hrest⟩ := List.forall_mem_cons.1 h
          exact List.forall_mem_cons.2 ⟨hfirst, List.forall_mem_cons.2 ⟨hcomma, ih hrest⟩⟩

theorem plain_separated {pieces : List Piece} (h : ∀ piece ∈ pieces, piece.Plain) :
    ∀ piece ∈ separated pieces, piece.Plain :=
  forall_mem_separated (by simp [Piece.Plain]) h

theorem plain_closingLine (depth : Nat) : (closingLine depth).Plain := by
  simp [closingLine, Sketch.Plain, Piece.Plain]

theorem plain_letLine (depth : Nat) (es : List Entity) : (letLine depth es).Plain := by
  have hnames := @plain_separated (es.map .give) (by simp [Piece.Plain])
  intro piece hpiece
  simp only [letLine, List.cons_append, List.mem_cons, List.mem_append, List.not_mem_nil,
    or_false] at hpiece
  rcases hpiece with rfl | hpiece | rfl
  · simp [Piece.Plain]
  · exact hnames piece hpiece
  · simp [Piece.Plain]

theorem plain_functionLine (depth : Nat) (f : Entity) (es : List Entity) :
    (functionLine depth f es).Plain := by
  have hnames := @plain_separated (es.map .input) (by simp [Piece.Plain])
  intro piece hpiece
  simp only [functionLine, List.cons_append, List.nil_append, List.mem_cons, List.mem_append,
    List.not_mem_nil, or_false] at hpiece
  rcases hpiece with rfl | rfl | rfl | hpiece | rfl | rfl
  · simp [Piece.Plain]
  · trivial
  · simp [Piece.Plain]
  · exact hnames piece hpiece
  · simp [Piece.Plain]
  · trivial

mutual

theorem plain_sketchOfStmt : ∀ (s : Stmt) (depth : Nat), ∀ l ∈ sketchOfStmt depth s, l.Plain
  | .declare id init, depth => by
      simp [sketchOfStmt, Sketch.Plain, Piece.Plain]
  | .hoist ids, depth => by
      rw [sketchOfStmt, List.forall_mem_singleton]
      exact plain_letLine _ _
  | .assign id op value, depth => by
      cases op <;>
        simp [sketchOfStmt, Sketch.Plain, Piece.Plain, AssignOp.text, AssignOp.symbol, Symbol.text]
  | .print argument, depth => by
      simp [sketchOfStmt, Sketch.Plain, Piece.Plain]
  | .cond test body rest, depth => by
      rw [sketchOfStmt, List.forall_mem_cons, List.forall_mem_append]
      refine ⟨?_, plain_sketchOfBlock body _, plain_sketchOfChain rest _⟩
      simp [Sketch.Plain, Piece.Plain]
  | .loop test body, depth => by
      rw [sketchOfStmt, List.forall_mem_cons, List.forall_mem_append, List.forall_mem_singleton]
      refine ⟨?_, plain_sketchOfBlock body _, plain_closingLine _⟩
      simp [Sketch.Plain, Piece.Plain]
  | .elements iterator array body, depth => by
      rw [sketchOfStmt, List.forall_mem_cons, List.forall_mem_append, List.forall_mem_singleton]
      refine ⟨?_, plain_sketchOfBlock body _, plain_closingLine _⟩
      simp [Sketch.Plain, Piece.Plain]
  | .count iterator limit body, depth => by
      rw [sketchOfStmt, List.forall_mem_cons, List.forall_mem_append, List.forall_mem_singleton]
      refine ⟨?_, plain_sketchOfBlock body _, plain_closingLine _⟩
      simp [Sketch.Plain, Piece.Plain]
  | .ret none, depth => by
      simp [sketchOfStmt, Sketch.Plain, Piece.Plain]
  | .ret (some value), depth => by
      simp [sketchOfStmt, Sketch.Plain, Piece.Plain]
  | .function id params body, depth => by
      rw [sketchOfStmt, List.forall_mem_cons, List.forall_mem_append, List.forall_mem_singleton]
      exact ⟨plain_functionLine _ _ _, plain_sketchOfBlock body _, plain_closingLine _⟩
  | .call callee args type, depth => by
      simp [sketchOfStmt, Sketch.Plain, Piece.Plain]

theorem plain_sketchOfBlock : ∀ (b : List Stmt) (depth : Nat), ∀ l ∈ sketchOfBlock depth b, l.Plain
  | [], depth => by simp [sketchOfBlock]
  | s :: rest, depth => by
      rw [sketchOfBlock, List.forall_mem_append]
      exact ⟨plain_sketchOfStmt s depth, plain_sketchOfBlock rest depth⟩

theorem plain_sketchOfChain : ∀ (c : Chain) (depth : Nat), ∀ l ∈ sketchOfChain depth c, l.Plain
  | .finish, depth => by
      rw [sketchOfChain, List.forall_mem_singleton]
      exact plain_closingLine _
  | .otherwise body, depth => by
      rw [sketchOfChain, List.forall_mem_cons, List.forall_mem_append, List.forall_mem_singleton]
      refine ⟨?_, plain_sketchOfBlock body _, plain_closingLine _⟩
      simp [Sketch.Plain, Piece.Plain]
  | .also test body rest, depth => by
      rw [sketchOfChain, List.forall_mem_cons, List.forall_mem_append]
      refine ⟨?_, plain_sketchOfBlock body _, plain_sketchOfChain rest _⟩
      simp [Sketch.Plain, Piece.Plain]

end

end Script
end Barista
