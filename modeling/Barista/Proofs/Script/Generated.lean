import Barista.Proofs.Analysis.LexicalScope
import Barista.Proofs.Script.Introduction

/-!
# The generated script

The lines of a script are written from their sketches, and the sketches know nothing of names.  In
the script of an accepted program each variable is introduced once, where all that mentions it can
see it, and each entity has a name of its own before it is mentioned.
-/

namespace Barista
namespace Script

open Barista.Core (VarId FunId Entity Entities Program)
open Scoping Scoping.Trail

def sketch (p : Program) : List Sketch := sketchOfBlock 0 (ofProgram p)

/-- The names that have been given when these lines are written. -/
def namesAfter (p : Program) (ls : List Sketch) : Names := (write p.entities .empty ls).2

theorem generate_eq_write (p : Program) :
    generate p = (write p.entities .empty (sketch p)).1.map Line.indented := by
  rw [generate, linesOfBlock_eq_write]
  rfl

theorem allTrail_sketch (p : Program) : Sketch.allTrail (sketch p) = Stmt.allTrail (ofProgram p) :=
  allTrail_sketchOfBlock _ _

/-! ## Scopes -/

theorem sees_frames_iff {t : Trail Entity} {v : VarId} :
    Sees (frames t) v ↔ ∃ out, Declares t out (.variable v) :=
  exists_declares_iff.symm

section Accepted

variable {statements : List Surface.Stmt} {p : Program} {s : Analysis.State}
  (hblock : Analysis.block none statements Analysis.State.initial = .ok p.statements s)
  (hentities : s.entities = p.entities)

include hblock hentities

theorem ofProgram_of_block : ofProgram p = placedBlock p.entities false p.statements := by
  have hnumbered := Analysis.numbered_of_block hblock hentities
  exact ofProgram_eq_placed hnumbered.nodup_varIds

/-- In the script, too, a variable is mentioned only where its introduction can be seen. -/
theorem declares_of_use_sketch {pre post : Trail Entity} {v : VarId}
    (huse : Sketch.allTrail (sketch p) = pre ++ .use (.variable v) :: post) :
    ∃ out, Declares pre out (.variable v) := by
  have hsafe : Safe [[]] p.trail := by
    intro front w back hsplit
    exact sees_frames_iff.2 (Analysis.declares_of_use hblock hentities hsplit)
  have hmirrors := mirrors_placedBlock p.entities p.statements false
  have hscript := hmirrors.safe [] [] [] [] (fun _ hv ↦ hv) (fun v hv ↦ by cases hv) hsafe
  rw [allTrail_sketch, ofProgram_of_block hblock hentities] at huse
  exact sees_frames_iff.1 (hscript pre v post huse)

/-- Functions keep their order, so each is introduced before it is called. -/
theorem bind_function_mem {pre post : Trail Entity} {f : FunId}
    (huse : Sketch.allTrail (sketch p) = pre ++ .use (.function f) :: post) :
    .bind (.function f) ∈ pre := by
  have hmarks := functionMarks_placedBlock p.entities p.statements false
  rw [← ofProgram_of_block hblock hentities, ← allTrail_sketch, huse, functionMarks_append]
    at hmarks
  obtain ⟨front, back, hsplit, hfront⟩ := functionMarks_split hmarks.symm
  obtain ⟨out, hdeclares⟩ := Analysis.declares_of_use hblock hentities hsplit
  rw [← bind_mem_functionMarks_iff, ← hfront, bind_mem_functionMarks_iff]
  exact hdeclares.mem

theorem bind_mem_of_use {pre post : Trail Entity} {entity : Entity}
    (huse : Sketch.allTrail (sketch p) = pre ++ .use entity :: post) : .bind entity ∈ pre := by
  rcases entity with v | f
  · obtain ⟨out, hdeclares⟩ := declares_of_use_sketch hblock hentities huse
    exact hdeclares.mem
  · exact bind_function_mem hblock hentities huse

/-- Each entity is introduced as often as it is declared. -/
theorem count_given (entity : Entity) :
    ((sketch p).flatMap Sketch.given).count entity = p.declared.count entity := by
  have hcount := count_placedBlock p.entities entity p.statements false
  rw [← bound_allTrail, allTrail_sketch, ofProgram_of_block hblock hentities]
  exact hcount

/-- The script mentions what the program does. -/
theorem allRefs_sketch : Sketch.allRefs (sketch p) = mentionsOfBlock false p.statements := by
  rw [sketch, ofProgram_of_block hblock hentities]
  exact allRefs_placedBlock p.entities 0 p.statements false

/-! ## Names -/

/-- A mention in a line is a mention in the script. -/
theorem bind_mem_of_use_line {front back : List Sketch} {l : Sketch}
    (hsplit : sketch p = front ++ l :: back) {pre post : Trail Entity} {entity : Entity}
    (huse : l.trail = pre ++ .use entity :: post) :
    entity ∈ front.flatMap Sketch.given ++ bound pre := by
  have hall : Sketch.allTrail (sketch p) =
      (Sketch.allTrail front ++ pre) ++ .use entity :: (post ++ Sketch.allTrail back) := by
    rw [hsplit, allTrail_append, allTrail_cons, huse]
    simp
  have hbind := bind_mem_of_use hblock hentities hall
  rwa [← mem_bound_iff, bound_append, bound_allTrail] at hbind

/-- What a line mentions has been introduced by the lines in front of it. -/
theorem given_of_mem_refs {front back : List Sketch} {l : Sketch}
    (hsplit : sketch p = front ++ l :: back) {entity : Entity} (hentity : entity ∈ l.refs) :
    entity ∈ front.flatMap Sketch.given := by
  obtain ⟨pre, post, huse, hpre⟩ := exists_use_of_mem_refs hentity
  have hmem := bind_mem_of_use_line hblock hentities hsplit huse
  rwa [hpre, List.append_nil] at hmem

/-- What a line introduces itself has been introduced behind it. -/
theorem given_of_mem_own {front back : List Sketch} {l : Sketch}
    (hsplit : sketch p = front ++ l :: back) {entity : Entity} (hentity : entity ∈ l.own) :
    entity ∈ (front ++ [l]).flatMap Sketch.given := by
  rw [List.flatMap_append, List.flatMap_singleton]
  rcases List.mem_append.1 hentity with hgiven | hagain
  · exact List.mem_append_right _ hgiven
  · obtain ⟨pre, post, huse, hpre⟩ := exists_use_of_mem_agains hagain
    have hmem := bind_mem_of_use_line hblock hentities hsplit huse
    rwa [hpre] at hmem

end Accepted

theorem namesAfter_eq (p : Program) (ls : List Sketch) :
    namesAfter p ls = (Names.empty.declareAll p.entities (ls.flatMap Sketch.given)).2 :=
  write_snd _ _ _

/-- What lines have introduced has a name, and keeps it. -/
theorem exists_name?_namesAfter {p : Program} {ls ls' : List Sketch} {entity : Entity}
    (h : entity ∈ ls.flatMap Sketch.given) :
    ∃ name, (namesAfter p ls).name? entity = some name ∧
      (namesAfter p (ls ++ ls')).name? entity = some name := by
  rw [namesAfter_eq, namesAfter_eq, List.flatMap_append, Names.declareAll_append]
  obtain ⟨name, hname⟩ := Names.exists_name?_declareAll h
  exact ⟨name, hname, Names.name?_declareAll_of_some hname⟩

/-- How entities are written when all names have been given, with something else for those that
have none. -/
def writtenAs (p : Program) (fallback : Entity → String) (entity : Entity) : String :=
  ((namesAfter p (sketch p)).name? entity).getD (fallback entity)

theorem refer_eq_writtenAs {p : Program} {ls : List Sketch} {fallback : Entity → String}
    {entity : Entity} {name : String} (h : (namesAfter p ls).name? entity = some name)
    (hfinal : (namesAfter p (sketch p)).name? entity = some name) :
    (namesAfter p ls).refer p.entities entity = writtenAs p fallback entity := by
  rw [Names.refer_eq_of_name? h, writtenAs, hfinal]
  rfl

/-- The names in the script of a program. -/
structure Named (p : Program) : Prop where
  /-- Line by line, the script is its sketch with the names given until then. -/
  written : generate p = (write p.entities .empty (sketch p)).1.map Line.indented
  /-- The lines mention what the program refers to, in its order, and the variables of branches
  where their declarations have become assignments. -/
  mentions : Sketch.allRefs (sketch p) = mentionsOfBlock false p.statements
  /-- They introduce what the program declares. -/
  introduces : ((sketch p).flatMap Sketch.given).Perm p.declared
  /-- What a line mentions has its name in front of the line, and keeps it. -/
  refs : ∀ front l back, sketch p = front ++ l :: back → ∀ entity ∈ l.refs,
    ∃ name, (namesAfter p front).name? entity = some name ∧
      (namesAfter p (sketch p)).name? entity = some name
  /-- What a line introduces has its name behind the line, and keeps it. -/
  own : ∀ front l back, sketch p = front ++ l :: back → ∀ entity ∈ l.own,
    ∃ name, (namesAfter p (front ++ [l])).name? entity = some name ∧
      (namesAfter p (sketch p)).name? entity = some name
  /-- So the script is the sketch with these names, whatever would be written without one. -/
  final : ∀ fallback, generate p =
    (sketch p).map fun l ↦ (l.print (writtenAs p fallback) (writtenAs p fallback)).indented
  distinct : ∀ entity other name, (namesAfter p (sketch p)).name? entity = some name →
    (namesAfter p (sketch p)).name? other = some name → entity = other
  unreserved : ∀ entity name, (namesAfter p (sketch p)).name? entity = some name →
    name ∉ reserved

theorem named_of_block {statements : List Surface.Stmt} {p : Program} {s : Analysis.State}
    (hblock : Analysis.block none statements Analysis.State.initial = .ok p.statements s)
    (hentities : s.entities = p.entities) : Named p := by
  have hdistinct : (namesAfter p (sketch p)).Distinct := by
    rw [namesAfter_eq]
    exact Names.distinct_empty.declareAll _ _
  have hrefs : ∀ front l back, sketch p = front ++ l :: back → ∀ entity ∈ l.refs,
      ∃ name, (namesAfter p front).name? entity = some name ∧
        (namesAfter p (sketch p)).name? entity = some name := by
    intro front l back hsplit entity hentity
    have hgiven := given_of_mem_refs hblock hentities hsplit hentity
    rw [hsplit]
    exact exists_name?_namesAfter hgiven
  have hown : ∀ front l back, sketch p = front ++ l :: back → ∀ entity ∈ l.own,
      ∃ name, (namesAfter p (front ++ [l])).name? entity = some name ∧
        (namesAfter p (sketch p)).name? entity = some name := by
    intro front l back hsplit entity hentity
    have hgiven := given_of_mem_own hblock hentities hsplit hentity
    have hsplit' : sketch p = (front ++ [l]) ++ back := by simpa using hsplit
    rw [hsplit']
    exact exists_name?_namesAfter hgiven
  have hintroduces : ((sketch p).flatMap Sketch.given).Perm p.declared :=
    List.perm_iff_count.2 (count_given hblock hentities)
  have hmentions := allRefs_sketch hblock hentities
  refine ⟨generate_eq_write p, hmentions, hintroduces, hrefs, hown, ?_, ?_, ?_⟩
  · intro fallback
    rw [generate_eq_write, write_fst_eq, List.map_map]
    · rfl
    · intro front l back hsplit
      refine ⟨?_, ?_⟩
      · intro entity hentity
        obtain ⟨name, hname, hfinal⟩ := hrefs front l back hsplit entity hentity
        exact refer_eq_writtenAs hname hfinal
      · intro entity hentity
        obtain ⟨name, hname, hfinal⟩ := hown front l back hsplit entity hentity
        exact refer_eq_writtenAs hname hfinal
  · intro entity other name h h'
    exact hdistinct.eq_of_name? h h'
  · intro entity name h
    exact hdistinct.unreserved name (Names.mem_used_of_name? h)

/-- Variables and blocks in the script of a program. -/
structure BlockScoped (p : Program) : Prop where
  /-- Line by line, the script is its sketch with names, and its braces are those of the sketch. -/
  written : generate p = (write p.entities .empty (sketch p)).1.map Line.indented
  plain : ∀ l ∈ sketch p, l.Plain
  /-- Each variable is introduced once. -/
  once : ∀ v, p.entities.Has (.variable v) →
    ((sketch p).flatMap Sketch.given).count (.variable v) = 1
  /-- Wherever it is mentioned, the block of its introduction is still open. -/
  visible : ∀ pre v post, Sketch.allTrail (sketch p) = pre ++ .use (.variable v) :: post →
    ∃ out, Declares pre out (.variable v)
  /-- What branches declare is introduced in front of the outermost conditional. -/
  placed : ofProgram p = placedBlock p.entities false p.statements

theorem blockScoped_of_block {statements : List Surface.Stmt} {p : Program} {s : Analysis.State}
    (hblock : Analysis.block none statements Analysis.State.initial = .ok p.statements s)
    (hentities : s.entities = p.entities) : BlockScoped p := by
  have hnumbered := Analysis.numbered_of_block hblock hentities
  refine ⟨generate_eq_write p, plain_sketchOfBlock _ _, ?_, ?_, ?_⟩
  · intro v hv
    rw [count_given hblock hentities]
    exact List.count_eq_one_of_mem hnumbered.nodup_declared (hnumbered.mem_declared_iff.2 hv)
  · intro pre v post huse
    exact declares_of_use_sketch hblock hentities huse
  · exact ofProgram_of_block hblock hentities

end Script

/-- In the script of an accepted program every entity is named before it is mentioned, by a name
that nothing else has. -/
theorem named_of_analyze {source : String} {p : Core.Program} (h : analyze source = .ok p) :
    Script.Named p := by
  obtain ⟨statements, s, -, hblock, hentities⟩ := block_of_analyze h
  exact Script.named_of_block hblock hentities

theorem named_of_analyze_shadowed :
    ∃ p, analyze "int new = 3\nint new_ = 2\nfor new in new \x7b\n  print(new + new_)\n\x7d" =
      .ok p ∧ Script.Named p := by
  refine (exists_of_isOk ?_).imp fun p h ↦ ⟨h, named_of_analyze h⟩
  decide +kernel

/-- In the script of an accepted program every variable is introduced once, in a block around all
that mentions it. -/
theorem blockScoped_of_analyze {source : String} {p : Core.Program} (h : analyze source = .ok p) :
    Script.BlockScoped p := by
  obtain ⟨statements, s, -, hblock, hentities⟩ := block_of_analyze h
  exact Script.blockScoped_of_block hblock hentities

theorem blockScoped_of_analyze_branches :
    ∃ p, analyze ("int x = 1\nif x > 0 \x7b\n  int y = 2\n\x7d else \x7b\n  int z = 3\n" ++
      "  if x > 5 \x7b\n    int w = 4\n  \x7d\n\x7d\nprint(y)") = .ok p ∧
      Script.BlockScoped p := by
  refine (exists_of_isOk ?_).imp fun p h ↦ ⟨h, blockScoped_of_analyze h⟩
  decide +kernel

end Barista
