import Barista.Proofs.Optimize.Closedness
import Barista.Proofs.Script.Generated

/-!
# Names after optimization

Hoisting moves introductions to the front only, so a script introduces an entity before it mentions
it where the program declares it before.  In an optimized program that leaves the entities whose
declarations were thrown away: they never get a name, and the name they are written with may be the
name of something else.
-/

namespace Barista
namespace Script

open Barista.Core (VarId FunId Entity Entities Expr Program)
open Scoping Scoping.Trail

/-! ## Introductions in front of mentions -/

/-- Along the trail `a` is mentioned behind its introduction only, unless it is known before. -/
def Leads (a : Entity) (known : Prop) (t : Trail Entity) : Prop :=
  ∀ pre post, t = pre ++ .use a :: post → known ∨ .bind a ∈ pre

section

variable {a : Entity} {known known' : Prop} {s t : Trail Entity}

theorem Leads.mono (h : Leads a known t) (hknown : known → known') : Leads a known' t :=
  fun pre post hsplit ↦ (h pre post hsplit).imp_left hknown

theorem leads_append_iff :
    Leads a known (s ++ t) ↔ Leads a known s ∧ Leads a (known ∨ .bind a ∈ s) t := by
  constructor
  · intro h
    refine ⟨?_, ?_⟩
    · rintro pre post rfl
      exact h pre (post ++ t) (by simp)
    · rintro pre post rfl
      have hlead := h (s ++ pre) post (by simp)
      rw [List.mem_append] at hlead
      exact or_assoc.2 hlead
  · rintro ⟨hs, ht⟩ pre post hsplit
    rcases append_eq_append_cons hsplit with ⟨rest, hrest, -⟩ | ⟨rest, rfl, hrest⟩
    · exact hs pre rest hrest
    · rw [List.mem_append]
      exact or_assoc.1 (ht rest post hrest)

theorem leads_of_not_mem (h : .use a ∉ t) : Leads a known t := by
  rintro pre post rfl
  exact (h (by simp)).elim

theorem leads_uses_iff {es : List Entity} : Leads a known (es.map .use) ↔ (a ∈ es → known) := by
  constructor
  · intro h ha
    obtain ⟨front, back, rfl⟩ := List.append_of_mem ha
    exact (h (front.map .use) (back.map .use) (by simp)).resolve_right (by simp)
  · intro h pre post hsplit
    have hmem : Mark.use a ∈ es.map Mark.use := by simp [hsplit]
    exact .inl (h (by simpa using hmem))

theorem leads_nested_iff : Leads a known (nested t) ↔ Leads a known t := by
  have hsplit : nested t = [.enter] ++ t ++ [.leave] := rfl
  have henter : Leads a known [.enter] := leads_of_not_mem (by simp)
  rw [hsplit, leads_append_iff, leads_append_iff]
  constructor
  · rintro ⟨⟨-, h⟩, -⟩
    exact h.mono (by simp)
  · intro h
    exact ⟨⟨henter, h.mono .inl⟩, leads_of_not_mem (by simp)⟩

theorem bind_mem_nested_iff : .bind a ∈ nested t ↔ .bind a ∈ t := by
  simp [nested]

end

/-- The second trail introduces `a` if the first one does, and no later, unless `a` has been seen
in front of it. -/
structure Follows (a : Entity) (seen : Prop) (t t' : Trail Entity) : Prop where
  kept : .bind a ∈ t → .bind a ∈ t' ∨ seen
  leads : ∀ known, (seen → known) → Leads a known t → Leads a known t'

namespace Follows

variable {a : Entity} {seen seen' : Prop} {t t' u u' : Trail Entity}

theorem append (h : Follows a seen t t') (h' : Follows a seen u u') :
    Follows a seen (t ++ u) (t' ++ u') := by
  refine ⟨?_, ?_⟩
  · rw [List.mem_append, List.mem_append]
    rintro (hbind | hbind)
    · exact (h.kept hbind).imp_left .inl
    · exact (h'.kept hbind).imp_left .inr
  · intro known hseen hleads
    obtain ⟨hfirst, hsecond⟩ := leads_append_iff.1 hleads
    refine leads_append_iff.2 ⟨h.leads known hseen hfirst, ?_⟩
    refine h'.leads _ (fun hs ↦ .inl (hseen hs)) (hsecond.mono ?_)
    rintro (hknown | hbind)
    · exact .inl hknown
    · exact (h.kept hbind).symm.imp_left hseen

theorem mono (h : Follows a seen t t') (hseen : seen → seen') : Follows a seen' t t' :=
  ⟨fun hbind ↦ (h.kept hbind).imp_right hseen, fun known hs ↦ h.leads known fun h ↦ hs (hseen h)⟩

/-- Outside of branches nothing is relied on. -/
theorem outside {declared : Prop} (h : Follows a (false = true ∧ declared) t t') :
    Follows a seen t t' :=
  h.mono (by simp)

theorem refl (t : Trail Entity) : Follows a seen t t :=
  ⟨.inl, fun _ _ h ↦ h⟩

theorem nested (h : Follows a seen t t') : Follows a seen (Trail.nested t) (Trail.nested t') := by
  refine ⟨?_, fun known hseen ↦ ?_⟩
  · rw [bind_mem_nested_iff, bind_mem_nested_iff]
    exact h.kept
  · rw [leads_nested_iff, leads_nested_iff]
    exact h.leads known hseen

/-- A branch is transparent on the one side and a block on the other. -/
theorem branch (h : Follows a seen t t') : Follows a seen t (Trail.nested t') := by
  refine ⟨?_, fun known hseen ↦ ?_⟩
  · rw [bind_mem_nested_iff]
    exact h.kept
  · rw [leads_nested_iff]
    exact h.leads known hseen

/-- What is introduced in front has been seen behind it. -/
theorem hoist {ids : List VarId} (h : Follows a (a ∈ ids.map .variable) t t') :
    Follows a seen t ((ids.map .variable).map .bind ++ t') := by
  have hbinds : a ∈ ids.map .variable → .bind a ∈ (ids.map Entity.variable).map Mark.bind :=
    List.mem_map_of_mem
  refine ⟨fun hbind ↦ .inl ?_, fun known hseen hleads ↦ leads_append_iff.2 ⟨?_, ?_⟩⟩
  · rw [List.mem_append]
    exact (h.kept hbind).symm.imp_left hbinds
  · exact leads_of_not_mem (by simp)
  · exact h.leads _ (fun ha ↦ .inr (hbinds ha)) (hleads.mono .inl)

/-- A declaration in a branch is an assignment to a variable that has been seen. -/
theorem assign (es : List Entity) {e : Entity} (he : a = e → seen) :
    Follows a seen (es.map .use ++ [.bind e]) ((e :: es).map .use) := by
  refine ⟨?_, fun known hseen hleads ↦ ?_⟩
  · intro hbind
    have hsame : a = e := by simpa using hbind
    exact .inr (he hsame)
  · have huses := leads_uses_iff.1 (leads_append_iff.1 hleads).1
    rw [leads_uses_iff, List.mem_cons]
    rintro (hsame | hmem)
    · exact hseen (he hsame)
    · exact huses hmem

/-- The head of a counting loop mentions its own variable. -/
theorem counter (e : Entity) : Follows a seen [.bind e] [.bind e, .use e, .use e] := by
  refine ⟨fun hbind ↦ .inl ?_, fun known _ _ ↦ ?_⟩
  · have hsame : a = e := by simpa using hbind
    simp [hsame]
  · have huses : Leads a (known ∨ .bind a ∈ [Mark.bind e]) ([e, e].map .use) :=
      leads_uses_iff.2 fun ha ↦ .inr (by simpa using ha)
    exact leads_append_iff.2 ⟨leads_of_not_mem (by simp), huses⟩

end Follows

mutual

/-- A statement in a branch relies on what the branch declares having been hoisted. -/
theorem follows_placedStmt (entities : Entities) (a : Entity) : ∀ (s : Core.Stmt) (inBranch : Bool),
    Follows a (inBranch = true ∧ a ∈ (branchDeclared s).map .variable) (s.trail entities)
      (Stmt.allTrail (placedStmt entities inBranch s))
  | .declare id init, inBranch => by
      rw [placedStmt, allTrail_singleton, branchDeclared]
      cases inBranch with
      | true => exact .assign init.refs fun ha ↦ ⟨rfl, by simp [ha]⟩
      | false => exact .refl _
  | .function id body, inBranch => by
      have hbody := follows_placedBlock entities a body false
      rw [placedStmt, allTrail_singleton]
      exact (Follows.refl [_]).append ((Follows.refl _).append hbody.outside).nested
  | .assign _ _ _, inBranch | .print _, inBranch | .ret _, inBranch | .call _ _ _, inBranch => by
      rw [placedStmt, allTrail_singleton]
      exact .refl _
  | .cond test body rest, inBranch => by
      have hbody := (follows_placedBlock entities a body true).branch
      have hrest := follows_placedChain entities a rest
      have hall : Follows a (a ∈ (blockDeclared body ++ chainDeclared rest).map .variable)
          (Core.Stmt.trail entities (.cond test body rest))
          (Stmt.trail
            (.cond test (placedBlock entities true body) (placedChain entities rest))) := by
        rw [Core.Stmt.trail, Stmt.trail, List.append_assoc, List.map_append]
        exact (Follows.refl _).append
          ((hbody.mono fun ha ↦ List.mem_append_left _ ha.2).append
            (hrest.mono fun ha ↦ List.mem_append_right _ ha))
      rw [placedStmt, allTrail_hoistFirst, branchDeclared]
      cases inBranch with
      | true => exact hall.mono fun ha ↦ ⟨rfl, ha⟩
      | false => exact hall.hoist
  | .loop test body, inBranch => by
      have hbody := follows_placedBlock entities a body false
      rw [placedStmt, allTrail_singleton]
      exact (Follows.refl _).append hbody.outside.nested
  | .each iterator collection body, inBranch => by
      have hbody := follows_placedBlock entities a body false
      rw [placedStmt]
      split
      · rw [allTrail_singleton]
        exact (Follows.refl _).append ((Follows.refl [_]).append hbody.outside).nested
      · rw [allTrail_singleton]
        exact (Follows.refl _).append ((Follows.counter _).append hbody.outside).nested

theorem follows_placedBlock (entities : Entities) (a : Entity) :
    ∀ (b : List Core.Stmt) (inBranch : Bool),
      Follows a (inBranch = true ∧ a ∈ (blockDeclared b).map .variable)
        (Core.Stmt.allTrail entities b) (Stmt.allTrail (placedBlock entities inBranch b))
  | [], inBranch => .refl _
  | s :: rest, inBranch => by
      have hfirst := follows_placedStmt entities a s inBranch
      have hothers := follows_placedBlock entities a rest inBranch
      rw [placedBlock, allTrail_append_stmts, Core.Stmt.allTrail, blockDeclared, List.map_append]
      exact (hfirst.mono fun ha ↦ ⟨ha.1, List.mem_append_left _ ha.2⟩).append
        (hothers.mono fun ha ↦ ⟨ha.1, List.mem_append_right _ ha.2⟩)

theorem follows_placedChain (entities : Entities) (a : Entity) : ∀ c : Core.Chain,
    Follows a (a ∈ (chainDeclared c).map .variable) (c.trail entities)
      (placedChain entities c).trail
  | .finish => .refl _
  | .otherwise body => by
      have hbody := (follows_placedBlock entities a body true).branch
      exact hbody.mono fun ha ↦ ha.2
  | .also test body rest => by
      have hbody := (follows_placedBlock entities a body true).branch
      have hrest := follows_placedChain entities a rest
      rw [placedChain, Chain.trail, Core.Chain.trail, chainDeclared, List.append_assoc,
        List.map_append]
      exact (Follows.refl _).append
        ((hbody.mono fun ha ↦ List.mem_append_left _ ha.2).append
          (hrest.mono fun ha ↦ List.mem_append_right _ ha))

end

/-! ## Loops mention what they introduce -/

theorem agains_letLine (depth : Nat) (es : List Entity) :
    (letLine depth es).pieces.flatMap Piece.agains = [] := by
  rw [flatMap_letLine depth es Piece.agains fun _ ↦ rfl,
    flatMap_separated_nil Piece.agains .give rfl fun _ ↦ rfl]

theorem agains_functionLine (depth : Nat) (f : Entity) (es : List Entity) :
    (functionLine depth f es).pieces.flatMap Piece.agains = [] := by
  rw [flatMap_functionLine depth f es Piece.agains fun _ ↦ rfl,
    flatMap_separated_nil Piece.agains .input rfl fun _ ↦ rfl]
  rfl

/-- What the line mentions of its own it introduces. -/
def Sketch.Introduces (l : Sketch) : Prop := l.pieces.flatMap Piece.agains ⊆ l.given

theorem introduces_of_agains_nil {l : Sketch} (h : l.pieces.flatMap Piece.agains = []) :
    l.Introduces := by
  rw [Sketch.Introduces, h]
  exact List.nil_subset _

mutual

theorem introduces_sketchOfStmt : ∀ (s : Stmt) (depth : Nat),
    ∀ l ∈ sketchOfStmt depth s, l.Introduces
  | .declare id init, depth | .assign id op init, depth | .print init, depth
  | .ret (some init), depth => by
      rw [sketchOfStmt, List.forall_mem_singleton]
      exact introduces_of_agains_nil rfl
  | .ret none, depth | .call callee args type, depth => by
      rw [sketchOfStmt, List.forall_mem_singleton]
      exact introduces_of_agains_nil rfl
  | .hoist ids, depth => by
      rw [sketchOfStmt, List.forall_mem_singleton]
      exact introduces_of_agains_nil (agains_letLine _ _)
  | .cond test body rest, depth => by
      rw [sketchOfStmt, List.forall_mem_cons, List.forall_mem_append]
      exact ⟨introduces_of_agains_nil rfl, introduces_sketchOfBlock body _,
        introduces_sketchOfChain rest _⟩
  | .loop test body, depth | .elements _ test body, depth => by
      rw [sketchOfStmt, List.forall_mem_cons, List.forall_mem_append, List.forall_mem_singleton]
      exact ⟨introduces_of_agains_nil rfl, introduces_sketchOfBlock body _,
        introduces_of_agains_nil rfl⟩
  | .count iterator limit body, depth => by
      rw [sketchOfStmt, List.forall_mem_cons, List.forall_mem_append, List.forall_mem_singleton]
      refine ⟨?_, introduces_sketchOfBlock body _, introduces_of_agains_nil rfl⟩
      simp [Sketch.Introduces, Sketch.given]
  | .function id params body, depth => by
      rw [sketchOfStmt, List.forall_mem_cons, List.forall_mem_append, List.forall_mem_singleton]
      exact ⟨introduces_of_agains_nil (agains_functionLine _ _ _), introduces_sketchOfBlock body _,
        introduces_of_agains_nil rfl⟩

theorem introduces_sketchOfBlock : ∀ (b : List Stmt) (depth : Nat),
    ∀ l ∈ sketchOfBlock depth b, l.Introduces
  | [], depth => by simp [sketchOfBlock]
  | s :: rest, depth => by
      rw [sketchOfBlock, List.forall_mem_append]
      exact ⟨introduces_sketchOfStmt s depth, introduces_sketchOfBlock rest depth⟩

theorem introduces_sketchOfChain : ∀ (c : Chain) (depth : Nat),
    ∀ l ∈ sketchOfChain depth c, l.Introduces
  | .finish, depth => by
      rw [sketchOfChain, List.forall_mem_singleton]
      exact introduces_of_agains_nil rfl
  | .otherwise body, depth => by
      rw [sketchOfChain, List.forall_mem_cons, List.forall_mem_append, List.forall_mem_singleton]
      exact ⟨introduces_of_agains_nil rfl, introduces_sketchOfBlock body _,
        introduces_of_agains_nil rfl⟩
  | .also test body rest, depth => by
      rw [sketchOfChain, List.forall_mem_cons, List.forall_mem_append]
      exact ⟨introduces_of_agains_nil rfl, introduces_sketchOfBlock body _,
        introduces_sketchOfChain rest _⟩

end

theorem mem_given_of_mem_own {p : Program} {l : Sketch} (hl : l ∈ sketch p) {entity : Entity}
    (hentity : entity ∈ l.own) : entity ∈ l.given := by
  rcases List.mem_append.1 hentity with hgiven | hagain
  · exact hgiven
  · exact introduces_sketchOfBlock _ _ l hl hagain

/-! ## Names -/

theorem Names.name?_declareAll_of_not_mem {names : Names} {entities : Entities}
    {es : List Entity} {entity : Entity} (h : entity ∉ es) :
    (names.declareAll entities es).2.name? entity = names.name? entity := by
  induction es generalizing names with
  | nil => rfl
  | cons e es ih =>
      rw [List.mem_cons, not_or] at h
      obtain ⟨hne, hes⟩ := h
      have hbeq : (entity == e) = false := by simpa using hne
      rw [declareAll]
      dsimp only
      rw [ih hes, declare]
      split
      · rfl
      · simp only [name?, List.lookup_cons, hbeq]

/-- The names in the script of a program some of whose declarations are lost. -/
structure NamedExcept (lost : List Entity) (p : Program) : Prop where
  /-- Line by line, the script is its sketch with the names given until then. -/
  written : generate p = (write p.entities .empty (sketch p)).1.map Line.indented
  /-- What a line introduces has its name behind the line, and keeps it. -/
  own : ∀ front l back, sketch p = front ++ l :: back → ∀ entity ∈ l.own,
    ∃ name, (namesAfter p (front ++ [l])).name? entity = some name ∧
      (namesAfter p (sketch p)).name? entity = some name
  /-- What a line mentions has its name in front of the line, and keeps it, unless it is lost. -/
  refs : ∀ front l back, sketch p = front ++ l :: back → ∀ entity ∈ l.refs, entity ∉ lost →
    ∃ name, (namesAfter p front).name? entity = some name ∧
      (namesAfter p (sketch p)).name? entity = some name
  /-- What is lost never gets a name. -/
  lost : ∀ front back, sketch p = front ++ back → ∀ entity ∈ lost,
    (namesAfter p front).name? entity = none ∧
      (namesAfter p front).refer p.entities entity = safeName (p.entities.nameOf entity)
  distinct : ∀ entity other name, (namesAfter p (sketch p)).name? entity = some name →
    (namesAfter p (sketch p)).name? other = some name → entity = other

/-- Behind these lines, a mention of `entity` is written with the name that `other` has. -/
def Captures (p : Program) (front : List Sketch) (entity other : Entity) : Prop :=
  other ≠ entity ∧
    (namesAfter p (sketch p)).name? other = some ((namesAfter p front).refer p.entities entity)

instance (p : Program) (front : List Sketch) (entity other : Entity) :
    Decidable (Captures p front entity other) :=
  inferInstanceAs (Decidable (_ ∧ _))

theorem NamedExcept.captures_iff {lost : List Entity} {p : Program} (h : NamedExcept lost p)
    {front back : List Sketch} {l : Sketch} (hsplit : sketch p = front ++ l :: back)
    {entity other : Entity} (hentity : entity ∈ l.refs) :
    Captures p front entity other ↔ entity ∈ lost ∧ other ≠ entity ∧
      (namesAfter p (sketch p)).name? other = some (safeName (p.entities.nameOf entity)) := by
  rw [Captures]
  by_cases hlost : entity ∈ lost
  · rw [(h.lost front _ hsplit entity hlost).2]
    simp [hlost]
  · obtain ⟨name, hname, hfinal⟩ := h.refs front l back hsplit entity hentity hlost
    rw [Names.refer_eq_of_name? hname]
    constructor
    · rintro ⟨hother, hcaptured⟩
      exact (hother (h.distinct other entity name hcaptured hfinal)).elim
    · rintro ⟨hmem, -⟩
      exact (hlost hmem).elim

theorem nodup_variablesOf {declared : List Entity} (h : declared.Nodup) :
    (variablesOf declared).Nodup := by
  refine h.filterMap ?_
  rintro (id | id) (id' | id') v hv hv' <;> simp_all [Entity.varId?]

section Optimized

variable {statements : List Surface.Stmt} {p : Program} {s : Analysis.State}
  (hblock : Analysis.block none statements Analysis.State.initial = .ok p.statements s)
  (hentities : s.entities = p.entities)

include hblock hentities

theorem nodup_bound_trail : (bound p.trail).Nodup := by
  rw [p.bound_trail]
  exact (Analysis.numbered_of_block hblock hentities).nodup_declared

theorem nodup_declared_optimized : (Optimize.program p).declared.Nodup := by
  rw [← Program.bound_trail, List.nodup_iff_count_le_one]
  intro a
  have hthin := (Optimize.thins_program p).count_le a
  have honce := List.nodup_iff_count_le_one.1 (nodup_bound_trail hblock hentities) a
  omega

theorem ofProgram_optimized :
    ofProgram (Optimize.program p) =
      placedBlock p.entities false (Optimize.program p).statements :=
  ofProgram_eq_placed (nodup_variablesOf (nodup_declared_optimized hblock hentities))

/-- A mention in the script of an optimized program stands behind its introduction, unless the
declaration is lost. -/
theorem leads_sketch_optimized (a : Entity) :
    Leads a (a ∈ Optimize.pruned p) (Sketch.allTrail (sketch (Optimize.program p))) := by
  have hcore : Leads a (a ∈ Optimize.pruned p) (Optimize.program p).trail := by
    intro pre post huse
    obtain ⟨front, back, hsplit, hsees⟩ := (Optimize.thins_program p).exists_use huse
    obtain ⟨out, before, behind, hfront, hopen, -⟩ :=
      Analysis.declares_of_use hblock hentities hsplit
    exact hsees before behind hfront hopen
  have hfollows := follows_placedBlock p.entities a (Optimize.program p).statements false
  rw [allTrail_sketch, ofProgram_optimized hblock hentities]
  exact hfollows.leads _ (by simp) hcore

theorem not_given_of_pruned {a : Entity} (ha : a ∈ Optimize.pruned p) :
    a ∉ (sketch (Optimize.program p)).flatMap Sketch.given := by
  have hgone := (Optimize.thins_program p).bind_not_mem (nodup_bound_trail hblock hentities) ha
  rw [← mem_bound_iff, Program.bound_trail] at hgone
  have hcount := count_placedBlock p.entities a (Optimize.program p).statements false
  have hnone : (Core.Stmt.allDeclared p.entities (Optimize.program p).statements).count a = 0 :=
    List.count_eq_zero.2 hgone
  rw [← bound_allTrail, allTrail_sketch, ofProgram_optimized hblock hentities,
    ← List.count_eq_zero]
  omega

theorem namedExcept_optimized : NamedExcept (Optimize.pruned p) (Optimize.program p) := by
  have hdistinct : (namesAfter (Optimize.program p) (sketch (Optimize.program p))).Distinct := by
    rw [namesAfter_eq]
    exact Names.distinct_empty.declareAll _ _
  refine ⟨generate_eq_write _, ?_, ?_, ?_, ?_⟩
  · intro front l back hsplit entity hentity
    have hmem : l ∈ sketch (Optimize.program p) := by simp [hsplit]
    have hgiven : entity ∈ (front ++ [l]).flatMap Sketch.given := by
      rw [List.flatMap_append, List.flatMap_singleton]
      exact List.mem_append_right _ (mem_given_of_mem_own hmem hentity)
    have hsplit' : sketch (Optimize.program p) = (front ++ [l]) ++ back := by simpa using hsplit
    rw [hsplit']
    exact exists_name?_namesAfter hgiven
  · intro front l back hsplit entity hentity hkept
    obtain ⟨pre, post, huse, hpre⟩ := exists_use_of_mem_refs hentity
    have hall : Sketch.allTrail (sketch (Optimize.program p)) =
        (Sketch.allTrail front ++ pre) ++ .use entity :: (post ++ Sketch.allTrail back) := by
      rw [hsplit, allTrail_append, allTrail_cons, huse]
      simp
    have hbind := (leads_sketch_optimized hblock hentities entity _ _ hall).resolve_left hkept
    rw [← mem_bound_iff, bound_append, bound_allTrail, hpre, List.append_nil] at hbind
    rw [hsplit]
    exact exists_name?_namesAfter hbind
  · intro front back hsplit entity hlost
    have hnever := not_given_of_pruned hblock hentities hlost
    rw [hsplit, List.flatMap_append, List.mem_append, not_or] at hnever
    have hnone : (namesAfter (Optimize.program p) front).name? entity = none := by
      rw [namesAfter_eq, Names.name?_declareAll_of_not_mem hnever.1]
      rfl
    refine ⟨hnone, ?_⟩
    rw [Names.refer, hnone]
  · intro entity other name h h'
    exact hdistinct.eq_of_name? h h'

end Optimized

end Script

/-- In the script of an optimized program a mention is written with the name of something else
exactly when the declaration was in a branch that is left out and something else has its name. -/
theorem captures_iff_of_analyze {source : String} {p : Core.Program} (h : analyze source = .ok p) :
    Script.NamedExcept (Optimize.pruned p) (Optimize.program p) ∧
      ∀ front l back, Script.sketch (Optimize.program p) = front ++ l :: back →
        ∀ entity ∈ l.refs, ∀ other, Script.Captures (Optimize.program p) front entity other ↔
          entity ∈ Optimize.pruned p ∧ other ≠ entity ∧
            (Script.namesAfter (Optimize.program p) (Script.sketch (Optimize.program p))).name?
              other = some (Script.safeName (p.entities.nameOf entity)) := by
  obtain ⟨statements, s, -, hblock, hentities⟩ := block_of_analyze h
  have hnamed := Script.namedExcept_optimized hblock hentities
  refine ⟨hnamed, ?_⟩
  intro front l back hsplit entity hentity other
  exact hnamed.captures_iff hsplit hentity

/-- Of two variables whose declarations are lost, one has a name that nothing else has. -/
theorem captures_iff_of_analyze_shadowed :
    let i : Core.Entity := .variable ⟨0⟩
    let n : Core.Entity := .variable ⟨1⟩
    let iterator : Core.Entity := .variable ⟨2⟩
    ∃ p, analyze ("if false \x7b\n  int i = 3\n  int n = 4\n\x7d\n" ++
        "for i in i + n \x7b\n  print(i)\n\x7d") = .ok p ∧
      ∃ l back, Script.sketch (Optimize.program p) = [] ++ l :: back ∧ i ∈ l.refs ∧ n ∈ l.refs ∧
        Script.Captures (Optimize.program p) [] i iterator ∧
        ¬ Script.Captures (Optimize.program p) [] n iterator ∧
        ∀ entity ∈ l.refs, ∀ other, Script.Captures (Optimize.program p) [] entity other ↔
          entity ∈ Optimize.pruned p ∧ other ≠ entity ∧
            (Script.namesAfter (Optimize.program p) (Script.sketch (Optimize.program p))).name?
              other = some (Script.safeName (p.entities.nameOf entity)) := by
  intro i n iterator
  refine (exists_of_toOption (P := fun p ↦
    (Script.sketch (Optimize.program p)).head?.map Script.Sketch.refs = some [i, n] ∧
      Script.Captures (Optimize.program p) [] i iterator ∧
      ¬ Script.Captures (Optimize.program p) [] n iterator) ?_).imp
    fun p ⟨h, hhead, hi, hn⟩ ↦ ⟨h, ?_⟩
  · decide +kernel
  · obtain ⟨l, hl, hrefs⟩ := Option.map_eq_some_iff.1 hhead
    obtain ⟨back, hback⟩ := List.head?_eq_some_iff.1 hl
    refine ⟨l, back, hback, by simp [hrefs], by simp [hrefs], hi, hn, ?_⟩
    exact (captures_iff_of_analyze h).2 [] l back hback

/-- A loop over a number whose declaration is lost counts up to its own variable. -/
theorem captured_by_loop :
    ∃ p, analyze "if false \x7b\n  int i = 3\n\x7d\nfor i in i \x7b\n  print(i)\n\x7d" = .ok p ∧
      Script.generate (Optimize.program p) =
        ["for (let i = 0; i < i; i++) \x7b", "  console.log(i);", "\x7d"] ∧
      (∃ l back, Script.sketch (Optimize.program p) = [] ++ l :: back ∧
        .variable ⟨0⟩ ∈ l.refs ∧ .variable ⟨1⟩ ∈ l.given) ∧
      Script.Captures (Optimize.program p) [] (.variable ⟨0⟩) (.variable ⟨1⟩) := by
  refine (exists_of_toOption (P := fun p ↦ Script.generate (Optimize.program p) =
        ["for (let i = 0; i < i; i++) \x7b", "  console.log(i);", "\x7d"] ∧
      (Script.sketch (Optimize.program p)).head?.map (fun l ↦ (l.refs, l.given)) =
        some ([.variable ⟨0⟩], [.variable ⟨1⟩]) ∧
      Script.Captures (Optimize.program p) [] (.variable ⟨0⟩) (.variable ⟨1⟩)) ?_).imp
    fun p ⟨h, hlines, hhead, hcaptures⟩ ↦ ⟨h, hlines, ?_, hcaptures⟩
  · decide +kernel
  · obtain ⟨l, hl, hpieces⟩ := Option.map_eq_some_iff.1 hhead
    obtain ⟨back, hback⟩ := List.head?_eq_some_iff.1 hl
    obtain ⟨hrefs, hgiven⟩ := Prod.mk.inj hpieces
    exact ⟨l, back, hback, by simp [hrefs], by simp [hgiven]⟩

end Barista
