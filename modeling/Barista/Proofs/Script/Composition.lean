import Barista.Proofs.Script.Capture
import Barista.Proofs.Surface.Concatenation

/-!
# Programs that continue others

When a program goes on where another one ends, nothing of what has been there changes: entities keep
their indices, statements their place and lines their text.  A line depends on the table of entities
only through the entities that occur in it, and on the lines in front of it through their names.
-/

namespace Barista

open Barista.Core (VarId FunId Entity Entities Expr Program)
open Scoping Scoping.Trail

namespace Core

/-- The second program begins with the first one, and its table continues that of the first. -/
structure Program.Below (p q : Program) : Prop where
  statements : p.statements <+: q.statements
  entities : p.entities.Below q.entities

end Core

/-- The optimizer works on each statement by itself. -/
theorem Optimize.program_below {p q : Program} (h : p.Below q) :
    (Optimize.program p).Below (Optimize.program q) := by
  obtain ⟨more, hmore⟩ := h.statements
  refine ⟨⟨Optimize.block more, ?_⟩, h.entities⟩
  rw [Optimize.program, Optimize.program, ← hmore, Optimize.block_append]

namespace Script

/-! ## Larger tables -/

section Below

variable {e e' : Entities}

theorem type_of_below (hbelow : e.Below e') {x : Expr} (h : ∀ a ∈ x.refs, e.Has a) :
    x.type e' = x.type e := by
  cases x with
  | var id => exact hbelow.typeOf_eq (h _ (List.mem_singleton_self _))
  | _ => rfl

mutual

/-- The script of a statement depends on the entities in it only. -/
theorem placedStmt_of_below (hbelow : e.Below e') : ∀ (s : Core.Stmt) (inBranch : Bool),
    (∀ a ∈ contents (s.trail e), e.Has a) → placedStmt e' inBranch s = placedStmt e inBranch s
  | .declare _ _, _, _ | .assign _ _ _, _, _ | .print _, _, _ | .ret _, _, _
  | .call _ _ _, _, _ => rfl
  | .cond test body rest, inBranch, h => by
      simp only [Core.Stmt.trail, contents_append, List.forall_mem_append] at h
      obtain ⟨⟨-, hbody⟩, hrest⟩ := h
      rw [placedStmt, placedStmt, placedBlock_of_below hbelow body true hbody,
        placedChain_of_below hbelow rest hrest]
  | .loop test body, inBranch, h => by
      simp only [Core.Stmt.trail, contents_append, contents_nested, List.forall_mem_append] at h
      rw [placedStmt, placedStmt, placedBlock_of_below hbelow body false h.2]
  | .each iterator collection body, inBranch, h => by
      simp only [Core.Stmt.trail, contents_append, contents_nested, contents_cons_bind,
        contents_map_use, List.forall_mem_append, List.forall_mem_cons] at h
      obtain ⟨hcollection, -, hbody⟩ := h
      rw [placedStmt, placedStmt, type_of_below hbelow hcollection,
        placedBlock_of_below hbelow body false hbody]
  | .function id body, inBranch, h => by
      simp only [Core.Stmt.trail, contents_append, contents_nested, contents_cons_bind,
        List.forall_mem_append, List.forall_mem_cons] at h
      obtain ⟨hid, -, hbody⟩ := h
      rw [placedStmt, placedStmt, hbelow.paramsOf_eq hid,
        placedBlock_of_below hbelow body false hbody]

theorem placedBlock_of_below (hbelow : e.Below e') : ∀ (b : List Core.Stmt) (inBranch : Bool),
    (∀ a ∈ contents (Core.Stmt.allTrail e b), e.Has a) →
      placedBlock e' inBranch b = placedBlock e inBranch b
  | [], _, _ => rfl
  | s :: rest, inBranch, h => by
      simp only [Core.Stmt.allTrail, contents_append, List.forall_mem_append] at h
      rw [placedBlock, placedBlock, placedStmt_of_below hbelow s inBranch h.1,
        placedBlock_of_below hbelow rest inBranch h.2]

theorem placedChain_of_below (hbelow : e.Below e') : ∀ c : Core.Chain,
    (∀ a ∈ contents (c.trail e), e.Has a) → placedChain e' c = placedChain e c
  | .finish, _ => rfl
  | .otherwise body, h => by
      rw [placedChain, placedChain, placedBlock_of_below hbelow body true h]
  | .also test body rest, h => by
      simp only [Core.Chain.trail, contents_append, List.forall_mem_append] at h
      obtain ⟨⟨-, hbody⟩, hrest⟩ := h
      rw [placedChain, placedChain, placedBlock_of_below hbelow body true hbody,
        placedChain_of_below hbelow rest hrest]

end

theorem refer_of_below (hbelow : e.Below e') (names : Names) {a : Entity} (h : e.Has a) :
    names.refer e' a = names.refer e a := by
  simp only [Names.refer, hbelow.nameOf_eq h]

theorem declareAll_of_below (hbelow : e.Below e') {es : List Entity} (names : Names)
    (h : ∀ a ∈ es, e.Has a) :
    names.declareAll e' es = names.declareAll e es := by
  induction es generalizing names with
  | nil => rfl
  | cons a es ih =>
      obtain ⟨ha, hes⟩ := List.forall_mem_cons.1 h
      have hname : names.declare e' a = names.declare e a := by
        simp only [Names.declare, hbelow.nameOf_eq ha]
      simp only [Names.declareAll, hname, ih _ hes]

/-- The text of a line depends on the entities in it only. -/
theorem write_of_below (hbelow : e.Below e') {ls : List Sketch} (names : Names)
    (h : ∀ a ∈ contents (Sketch.allTrail ls), e.Has a) : write e' names ls = write e names ls := by
  induction ls generalizing names with
  | nil => rfl
  | cons l ls ih =>
      rw [allTrail_cons, contents_append, List.forall_mem_append] at h
      obtain ⟨hline, hothers⟩ := h
      have hrefs : ∀ a ∈ l.refs, e.Has a := by
        intro a ha
        apply hline
        simp [Sketch.trail, ha]
      have hown : ∀ a ∈ l.own, e.Has a := by
        intro a ha
        apply hline
        simp only [Sketch.own, Sketch.given, List.mem_append] at ha
        simp only [Sketch.trail, contents_append, contents_map_bind, contents_map_use,
          List.mem_append]
        tauto
      have hgiven : names.declareAll e' l.given = names.declareAll e l.given :=
        declareAll_of_below hbelow names fun a ha ↦ hown a (List.mem_append_left _ ha)
      have hprint : l.print (names.refer e') ((names.declareAll e l.given).2.refer e') =
          l.print (names.refer e) ((names.declareAll e l.given).2.refer e) :=
        l.print_congr (fun a ha ↦ refer_of_below hbelow _ (hrefs a ha))
          fun a ha ↦ refer_of_below hbelow _ (hown a ha)
      simp only [write, hgiven, hprint, ih _ hothers]

end Below

/-! ## Longer programs -/

theorem placedBlock_append (e : Entities) (inBranch : Bool) (a b : List Core.Stmt) :
    placedBlock e inBranch (a ++ b) = placedBlock e inBranch a ++ placedBlock e inBranch b := by
  induction a with
  | nil => rfl
  | cons s a ih => rw [List.cons_append, placedBlock, placedBlock, ih, List.append_assoc]

/-- Nothing occurs in a script that does not occur in the program. -/
theorem mem_contents_of_placedBlock {e : Entities} {b : List Core.Stmt} {a : Entity}
    (h : a ∈ contents (Stmt.allTrail (placedBlock e false b))) :
    a ∈ contents (Core.Stmt.allTrail e b) := by
  have hdeclared : .bind a ∈ Stmt.allTrail (placedBlock e false b) →
      a ∈ contents (Core.Stmt.allTrail e b) := by
    intro hbind
    have hcount := count_placedBlock e a b false
    have hpos := List.count_pos_iff.2 (mem_bound_iff.2 hbind)
    have hmem : a ∈ bound (Core.Stmt.allTrail e b) := by
      rw [Core.Stmt.bound_allTrail, ← List.count_pos_iff]
      omega
    exact mem_contents_iff.2 (.inl (mem_bound_iff.1 hmem))
  rcases mem_contents_iff.1 h with hbind | huse
  · exact hdeclared hbind
  · by_contra hnone
    -- What the program never mentions is mentioned in the script behind its introduction at most.
    have hleads : Leads a False (Core.Stmt.allTrail e b) :=
      leads_of_not_mem fun hmem ↦ hnone (mem_contents_iff.2 (.inr hmem))
    have hscript := (follows_placedBlock e a b false).leads False (by simp) hleads
    obtain ⟨pre, post, hsplit⟩ := List.append_of_mem huse
    have hbind := (hscript pre post hsplit).resolve_left id
    refine hnone (hdeclared ?_)
    rw [hsplit]
    exact List.mem_append_left _ hbind

/-- The script of a program that begins with another one begins with its script. -/
theorem generate_prefix {p q : Program} (h : p.Below q) (hp : p.declared.Nodup)
    (hq : q.declared.Nodup) (hoccurs : ∀ a ∈ p.occurrences, p.entities.Has a) :
    generate p <+: generate q := by
  obtain ⟨more, hmore⟩ := h.statements
  have hplaced : ofProgram p = placedBlock p.entities false p.statements :=
    ofProgram_eq_placed (nodup_variablesOf hp)
  have hsketch : sketch q = sketch p ++ sketchOfBlock 0 (placedBlock q.entities false more) := by
    rw [sketch, sketch, ofProgram_eq_placed (nodup_variablesOf hq), hplaced, ← hmore,
      placedBlock_append, placedBlock_of_below h.entities _ _ hoccurs, sketchOfBlock_append]
  have hwrite : write q.entities .empty (sketch p) = write p.entities .empty (sketch p) := by
    apply write_of_below h.entities
    intro a ha
    rw [allTrail_sketch, hplaced] at ha
    exact hoccurs a (mem_contents_of_placedBlock ha)
  rw [generate_eq_write, generate_eq_write, hsketch, write_append, hwrite, List.map_append]
  exact List.prefix_append _ _

end Script

/-! ## Accepted programs -/

/-- Where statements are accepted the first of them are, and keep their places in the tables. -/
theorem below_of_block_append {a b : List Surface.Stmt} {q : Program} {s : Analysis.State}
    (hblock : Analysis.block none (a ++ b) Analysis.State.initial = .ok q.statements s)
    (hentities : s.entities = q.entities) :
    ∃ core s₁, Analysis.block none a Analysis.State.initial = .ok core s₁ ∧
      Program.Below ⟨core, s₁.entities⟩ q := by
  obtain ⟨core, s₁, others, hfirst, hothers, hcore⟩ := Analysis.block_append_eq_ok.1 hblock
  have hclosed := (Analysis.block_grows Analysis.closed_initial a hfirst).2
  have hgrows := (Analysis.block_grows hclosed b hothers).1
  rw [hentities] at hgrows
  exact ⟨core, s₁, hfirst, ⟨others, hcore.symm⟩, hgrows⟩

/-- Of two accepted programs, the lines of the longer one begin with those of the shorter one, with
the optimizer on or off. -/
theorem generate_prepare_prefix {a b : List Surface.Stmt} {p q : Program} {s s' : Analysis.State}
    (hp : Analysis.block none a Analysis.State.initial = .ok p.statements s)
    (hp' : s.entities = p.entities)
    (hq : Analysis.block none b Analysis.State.initial = .ok q.statements s')
    (hq' : s'.entities = q.entities) (h : p.Below q) (options : Options) :
    Script.generate (prepare options p).1 <+: Script.generate (prepare options q).1 := by
  have hscoped := Analysis.lexicallyScoped_of_block hp hp'
  rcases options with ⟨_ | _⟩
  · exact Script.generate_prefix h hscoped.declared.1
      (Analysis.lexicallyScoped_of_block hq hq').declared.1 hscoped.occurs
  · exact Script.generate_prefix (Optimize.program_below h)
      (Script.nodup_declared_optimized hp hp') (Script.nodup_declared_optimized hq hq')
      hscoped.occursOptimized

/-- Two texts with a line break between them are parsed as one after the other, and if they are
accepted together then so is the first, as the beginning of what the two become. -/
theorem compilation_of_append_newline {s₁ s₂ : String} {t₁ t₂ : List Surface.Stmt}
    (h₁ : Surface.parse s₁ = .ok t₁) (h₂ : Surface.parse s₂ = .ok t₂) :
    Surface.parse (s₁ ++ "\n" ++ s₂) =
        .ok (t₁ ++ t₂.map (Surface.Stmt.mapSpan (Span.shift (Text.byteWidth s₁.toList + 1)))) ∧
      ∀ q, analyze (s₁ ++ "\n" ++ s₂) = .ok q →
        ∃ p, analyze s₁ = .ok p ∧ p.Below q ∧
          ∀ options, Script.generate (prepare options p).1 <+:
            Script.generate (prepare options q).1 := by
  have hparse := Surface.parse_append_newline h₁ h₂
  refine ⟨hparse, fun q hq ↦ ?_⟩
  obtain ⟨statements, s, hparse', hblock, hentities⟩ := block_of_analyze hq
  cases hparse.symm.trans hparse'
  obtain ⟨core, s₁, hfirst, hbelow⟩ := below_of_block_append hblock hentities
  exact ⟨⟨core, s₁.entities⟩, analyze_of_block h₁ hfirst, hbelow,
    generate_prepare_prefix hfirst rfl hblock hentities hbelow⟩

theorem compilation_of_append_newline_shadowed :
    ∃ t₁ t₂ q, Surface.parse "int x = 3\nprint(x)" = .ok t₁ ∧
      Surface.parse "for x in 2 \x7b print(x) \x7d" = .ok t₂ ∧
      analyze ("int x = 3\nprint(x)" ++ "\n" ++ "for x in 2 \x7b print(x) \x7d") = .ok q ∧
      ∃ p, analyze "int x = 3\nprint(x)" = .ok p ∧ p.Below q ∧
        ∀ options, Script.generate (prepare options p).1 <+:
          Script.generate (prepare options q).1 := by
  have hfirst : ∃ p, analyze "int x = 3\nprint(x)" = .ok p := exists_of_isOk (by decide +kernel)
  have hsecond : ∃ p, analyze "for x in 2 \x7b print(x) \x7d" = .ok p :=
    exists_of_isOk (by decide +kernel)
  have hboth : ∃ q, analyze ("int x = 3\nprint(x)" ++ "\n" ++ "for x in 2 \x7b print(x) \x7d") =
      .ok q := exists_of_isOk (by decide +kernel)
  obtain ⟨_, hp⟩ := hfirst
  obtain ⟨_, hp'⟩ := hsecond
  obtain ⟨q, hq⟩ := hboth
  obtain ⟨t₁, -, h₁, -⟩ := block_of_analyze hp
  obtain ⟨t₂, -, h₂, -⟩ := block_of_analyze hp'
  exact ⟨t₁, t₂, q, h₁, h₂, hq, (compilation_of_append_newline h₁ h₂).2 q hq⟩

end Barista
