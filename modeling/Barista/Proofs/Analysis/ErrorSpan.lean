import Barista.Proofs.Analysis.Outcome
import Barista.Proofs.Surface.Descent
import Barista.Proofs.Surface.Nesting
import Barista.Proofs.Text.Position

/-!
# Errors have a place

An error of the analysis carries the span of a phrase of the program, and such a phrase begins with
a token.  A syntax error carries the span of what could not be read, or the end of the text.  So
every error that is reported for a text begins between two characters of it, where positions are
faithful.
-/

namespace Barista

open Surface (SpanTree)

/-! ## Trees with a property of all their spans -/

namespace Surface.SpanTree

variable {P : Span → Prop} {t u : SpanTree} {ts : List SpanTree}

theorem mem_nodesOf : u ∈ nodesOf ts ↔ ∃ t ∈ ts, u ∈ t.nodes := by
  induction ts with
  | nil => simp [nodesOf]
  | cons t ts ih => simp [nodesOf, ih]

/-- The span of the tree and the spans of all trees in it have the property. -/
def All (P : Span → Prop) (t : SpanTree) : Prop := ∀ u ∈ t.nodes, P u.span

theorem All.span (h : t.All P) : P t.span := by
  apply h
  rw [nodes_eq]
  exact List.mem_cons_self

theorem All.parts (h : t.All P) : ∀ part ∈ t.parts, part.All P := by
  intro part hpart u hu
  apply h
  rw [nodes_eq]
  exact List.mem_cons_of_mem t (mem_nodesOf.2 ⟨part, hpart, hu⟩)

theorem All.expr {e : Expr} (h : e.spanTree.All P) : P e.span := by
  rw [← Expr.span_spanTree]
  exact h.span

end Surface.SpanTree

namespace Analysis

open Barista.Core (VarId Entity)
open Surface (Expr Stmt Chain Param)

variable {P : Span → Prop} {α β : Type}

/-! ## Checks that blame such a span -/

/-- An error, if there is one, is at a span with the property. -/
def Places (P : Span → Prop) (x : Except SemanticError α) : Prop :=
  ∀ e, x = .error e → P e.span

theorem places_ok {a : α} : Places P (.ok a) := by
  intro e h
  cases h

theorem places_error {cause : Cause} {span : Span} (h : P span) :
    Places P (.error ⟨cause, span⟩ : Except SemanticError α) := by
  intro e he
  cases he
  exact h

theorem Places.bind {x : Except SemanticError α} {f : α → Except SemanticError β}
    (hx : Places P x) (hf : ∀ a, Places P (f a)) : Places P (x >>= f) := by
  intro e h
  rcases except_bind_eq_error.1 h with h | ⟨a, -, h⟩
  · exact hx e h
  · exact hf a e h

namespace Check

/-- From any state, an error is at a span with the property. -/
def Places (P : Span → Prop) (x : Check α) : Prop :=
  ∀ s e, Fails x s e → P e.span

theorem places_pure {a : α} : Places P (pure a) :=
  fun _ _ h ↦ (not_pure_fails h).elim

theorem places_fail {cause : Cause} {span : Span} (h : P span) :
    Places P (fail cause span : Check α) := by
  intro s e he
  rw [fail_fails_iff.1 he]
  exact h

theorem places_fail_bind {cause : Cause} {span : Span} {f : α → Check β} (h : P span) :
    Places P ((fail cause span : Check α) >>= f) := by
  intro s e he
  rw [fail_bind_fails_iff.1 he]
  exact h

theorem Places.bind {x : Check α} {f : α → Check β} (hx : Places P x)
    (hf : ∀ a, Places P (f a)) : Places P (x >>= f) := by
  intro s e h
  rcases bind_fails_iff.1 h with h | ⟨a, s', -, h⟩
  · exact hx s e h
  · exact hf a s' e h

theorem places_within {check : Env → Except SemanticError α}
    (h : ∀ env, Analysis.Places P (check env)) : Places P (within check) :=
  fun s e he ↦ h s.env e (within_fails_iff.1 he)

theorem places_report {event : Event} : Places P (report event) :=
  fun _ _ h ↦ (not_report_fails h).elim

theorem places_addVariable {v : Core.Variable} : Places P (addVariable v) :=
  fun _ _ h ↦ (not_addVariable_fails h).elim

theorem places_addFunction {f : Core.Function} : Places P (addFunction f) :=
  fun _ _ h ↦ (not_addFunction_fails h).elim

theorem places_declare {name : Surface.Name} {entity : Entity} (h : P name.span) :
    Places P (Check.declare name entity) := by
  intro s e he
  rw [(declare_fails_iff.1 he).2]
  exact h

theorem Places.nested {x : Check α} (h : Places P x) : Places P (nested x) :=
  fun _ e he ↦ h _ e (nested_fails_iff.1 he)

end Check

/-! ## Expressions -/

namespace Env

variable {env : Env} {span : Span}

theorem resolveVariable_places {name : String} (h : P span) :
    Places P (env.resolveVariable name span) := by
  rw [resolveVariable]
  split
  · exact places_ok
  · exact places_error h
  · exact places_error h

theorem resolveFunction_places {name : String} (h : P span) :
    Places P (env.resolveFunction name span) := by
  rw [resolveFunction]
  split
  · exact places_ok
  · exact places_error h
  · exact places_error h

theorem requireBool_places {e : Core.Expr} (h : P span) : Places P (env.requireBool e span) := by
  rw [requireBool]
  split
  · exact places_ok
  · exact places_error h

theorem requireNumeric_places {e : Core.Expr} (h : P span) :
    Places P (env.requireNumeric e span) := by
  rw [requireNumeric]
  split
  · exact places_ok
  · exact places_error h

theorem requireAssignable_places {target : Ty} {e : Core.Expr} (h : P span) :
    Places P (env.requireAssignable target e span) := by
  rw [requireAssignable]
  split
  · exact places_ok
  · exact places_error h

theorem resolveCallee_places {callee : Surface.Name} {count : Nat} (hcallee : P callee.span)
    (h : P span) : Places P (env.resolveCallee callee count span) := by
  rw [resolveCallee]
  refine (resolveFunction_places hcallee).bind fun f ↦ ?_
  dsimp only
  split
  · exact places_ok
  · exact places_error h

theorem binary_places {op : BinaryOp} {left right : Core.Expr} {l r : Expr} (hl : P l.span)
    (hr : P r.span) :
    Places P (if op.isArithmetic = true then do
        env.requireNumeric left l.span
        env.requireNumeric right r.span
        return .binary op left right (env.typeOf left)
      else if op.isLogical = true then do
        env.requireBool left l.span
        env.requireBool right r.span
        return .binary op left right .bool
      else return .binary op left right .bool : Except SemanticError Core.Expr) := by
  split
  · exact (requireNumeric_places hl).bind fun _ ↦ (requireNumeric_places hr).bind fun _ ↦ places_ok
  · split
    · exact (requireBool_places hl).bind fun _ ↦ (requireBool_places hr).bind fun _ ↦ places_ok
    · exact places_ok

mutual

/-- An expression is refused at one of the phrases in it. -/
theorem expr_places (env : Env) (hint : Option Ty) :
    ∀ e : Expr, e.spanTree.All P → Places P (env.expr hint e)
  | .int _ _, _ | .double _ _, _ | .bool _ _, _ | .string _ _, _ => by
      rw [expr]
      exact places_ok
  | .ident name span, h => by
      rw [expr]
      exact (resolveVariable_places h.span).bind fun id ↦ places_ok
  | .binary op l r span, h => by
      obtain ⟨hl, hr⟩ : l.spanTree.All P ∧ r.spanTree.All P := by
        simpa [Expr.spanTree, SpanTree.parts] using h.parts
      rw [expr]
      refine (expr_places env none l hl).bind fun left ↦ ?_
      refine (expr_places env none r hr).bind fun right ↦ ?_
      exact binary_places hl.expr hr.expr
  | .unary .not e span, h => by
      have he : e.spanTree.All P := by
        simpa [Expr.spanTree, SpanTree.parts] using h.parts
      rw [expr]
      refine (expr_places env none e he).bind fun operand ↦ ?_
      exact (requireBool_places he.expr).bind fun _ ↦ places_ok
  | .unary .neg e span, h => by
      have he : e.spanTree.All P := by
        simpa [Expr.spanTree, SpanTree.parts] using h.parts
      rw [expr]
      exact (expr_places env none e he).bind fun operand ↦ places_ok
  | .ternary t y n span, h => by
      obtain ⟨ht, hy, hn⟩ : t.spanTree.All P ∧ y.spanTree.All P ∧ n.spanTree.All P := by
        simpa [Expr.spanTree, SpanTree.parts] using h.parts
      rw [expr]
      refine (expr_places env none t ht).bind fun test ↦ ?_
      refine (requireBool_places ht.expr).bind fun _ ↦ ?_
      refine (expr_places env hint y hy).bind fun yes ↦ ?_
      refine (expr_places env hint n hn).bind fun no ↦ ?_
      split
      · exact places_ok
      · exact places_error h.span
  | .call callee args openParen span, h => by
      obtain ⟨hcallee, hopen, hargs⟩ : callee.spanTree.All P ∧
          SpanTree.All P (.node (some (.punct .openParen)) openParen []) ∧
          ∀ t ∈ Expr.spanTrees args, t.All P := by
        simpa [Expr.spanTree, SpanTree.parts] using h.parts
      rw [expr]
      refine (resolveCallee_places hcallee.span hopen.span).bind fun f ↦ ?_
      exact (exprs_places env _ args hargs).bind fun values ↦ places_ok
  | .index a i span, h => by
      obtain ⟨ha, hi⟩ : a.spanTree.All P ∧ i.spanTree.All P := by
        simpa [Expr.spanTree, SpanTree.parts] using h.parts
      rw [expr]
      refine (expr_places env none a ha).bind fun array ↦ ?_
      split
      · refine (expr_places env none i hi).bind fun position ↦ ?_
        split
        · exact places_ok
        · exact places_error hi.expr
      · exact places_error ha.expr
  | .array items span, h => by
      have hitems : ∀ t ∈ Expr.spanTrees items, t.All P := h.parts
      rw [expr]
      exact (exprs_places env _ items hitems).bind fun values ↦ places_ok

theorem exprs_places (env : Env) (hints : List (Option Ty)) :
    ∀ es : List Expr, (∀ t ∈ Expr.spanTrees es, t.All P) → Places P (env.exprs hints es)
  | [], _ => by
      rw [exprs]
      exact places_ok
  | e :: es, h => by
      obtain ⟨he, hes⟩ := List.forall_mem_cons.1 h
      rw [exprs]
      refine (expr_places env _ e he).bind fun value ↦ ?_
      exact (exprs_places env _ es hes).bind fun values ↦ places_ok

end

theorem condition_places {e : Expr} (h : e.spanTree.All P) : Places P (env.condition e) := by
  rw [condition]
  refine (expr_places env none e h).bind fun test ↦ ?_
  exact (requireBool_places h.expr).bind fun _ ↦ places_ok

end Env

/-! ## Statements -/

open Check

theorem addParams_places : ∀ params : List Param,
    (∀ t ∈ params.flatMap Param.spanTrees, t.All P) → Check.Places P (addParams params)
  | [], _ => places_pure
  | p :: ps, h => by
      obtain ⟨hp, hps⟩ := List.forall_mem_append.1 h
      rw [addParams]
      split
      · exact places_fail_bind (hp _ List.mem_cons_self).span
      · refine places_addVariable.bind fun id ↦ ?_
        exact (addParams_places ps hps).bind fun ids ↦ places_pure

theorem declareParams_places : ∀ (params : List Param) (ids : List VarId),
    (∀ t ∈ params.flatMap Param.spanTrees, t.All P) → Check.Places P (declareParams params ids)
  | [], [], _ | [], _ :: _, _ | _ :: _, [], _ => places_pure
  | p :: ps, id :: ids, h => by
      obtain ⟨hp, hps⟩ := List.forall_mem_append.1 h
      rw [declareParams]
      exact (places_declare (hp _ List.mem_cons_self).span).bind fun _ ↦
        declareParams_places ps ids hps

theorem returned_places {result : Option Ty} {value : Option Expr} {span : Span} (hspan : P span)
    (hvalue : ∀ e, value = some e → e.spanTree.All P) :
    Check.Places P (returned result value span) := by
  rw [returned.eq_def]
  split
  · exact places_fail hspan
  · exact places_pure
  · exact places_fail hspan
  · exact places_fail hspan
  · rename_i e _
    have he := hvalue e rfl
    refine (places_within fun env ↦ env.expr_places _ e he).bind fun core ↦ ?_
    refine (places_within fun env ↦ places_ok).bind fun found ↦ ?_
    split
    · exact places_pure
    · exact places_fail he.expr

theorem assigned_places {target : Surface.Name} {op : AssignOp} {e : Expr}
    (htarget : P target.span) (he : e.spanTree.All P) :
    Check.Places P (assigned target op e) := by
  rw [assigned]
  refine (places_within fun env ↦ env.resolveVariable_places htarget).bind fun id ↦ ?_
  refine (places_within fun env ↦ places_ok).bind fun v ↦ ?_
  dsimp only
  split
  · exact places_fail_bind htarget
  · refine (places_within fun env ↦ env.expr_places _ e he).bind fun value ↦ ?_
    split
    · split
      · exact places_fail_bind htarget
      · exact (places_within fun env ↦ env.requireNumeric_places he.expr).bind fun _ ↦ places_pure
    · exact (places_within fun env ↦ env.requireAssignable_places he.expr).bind fun _ ↦ places_pure

mutual

/-- A statement is refused at one of the phrases in it. -/
theorem stmt_places (result : Option Ty) :
    ∀ st : Stmt, (∀ t ∈ st.spanTrees, t.All P) → Check.Places P (stmt result st)
  | .declare type name init, h => by
      obtain ⟨htype, hname, hinit⟩ : type.spanTree.All P ∧ name.spanTree.All P ∧
          init.spanTree.All P := by
        simpa [Stmt.spanTrees] using h
      rw [stmt]
      split
      · exact places_fail_bind htype.span
      · refine (places_within fun env ↦ env.expr_places _ init hinit).bind fun value ↦ ?_
        refine (places_within fun env ↦ env.requireAssignable_places hinit.expr).bind fun _ ↦ ?_
        refine places_addVariable.bind fun id ↦ ?_
        exact (places_declare hname.span).bind fun _ ↦ places_pure
  | .function name params type body, h => by
      obtain ⟨hname, hparams, -, hbody⟩ : name.spanTree.All P ∧
          (∀ t ∈ params.flatMap Param.spanTrees, t.All P) ∧ type.spanTree.All P ∧
          ∀ t ∈ Stmt.spanForest body, t.All P := by
        obtain ⟨hname, hrest⟩ := List.forall_mem_cons.1 h
        obtain ⟨hparams, hrest⟩ := List.forall_mem_append.1 hrest
        exact ⟨hname, hparams, List.forall_mem_cons.1 hrest⟩
      rw [stmt]
      refine (addParams_places params hparams).bind fun ids ↦ ?_
      refine places_addFunction.bind fun id ↦ ?_
      refine (places_declare hname.span).bind fun _ ↦ ?_
      refine places_report.bind fun _ ↦ ?_
      refine Check.Places.bind (Places.nested ?_) fun core ↦ ?_
      · exact (declareParams_places params ids hparams).bind fun _ ↦ block_places _ body hbody
      · exact places_report.bind fun _ ↦ places_pure
  | .assign target op opSpan value, h => by
      obtain ⟨htarget, -, hvalue⟩ : target.spanTree.All P ∧
          SpanTree.All P (.node (some (.symbol op.symbol)) opSpan []) ∧
          value.spanTree.All P := by
        simpa [Stmt.spanTrees] using h
      rw [stmt]
      exact (assigned_places htarget.span hvalue).bind fun _ ↦ places_pure
  | .print argument span, h => by
      have hargument : argument.spanTree.All P := by
        simpa [SpanTree.parts] using (h _ List.mem_cons_self).parts
      rw [stmt]
      exact (places_within fun env ↦ env.expr_places _ argument hargument).bind fun _ ↦ places_pure
  | .cond test body rest span, h => by
      obtain ⟨htest, hrest⟩ := List.forall_mem_cons.1 (h _ List.mem_cons_self).parts
      obtain ⟨hbody, hrest⟩ := List.forall_mem_append.1 hrest
      rw [stmt]
      refine (places_within fun env ↦ env.condition_places htest).bind fun _ ↦ ?_
      refine (block_places result body hbody).bind fun _ ↦ ?_
      exact (chain_places result rest hrest).bind fun _ ↦ places_pure
  | .loop test body span, h => by
      obtain ⟨htest, hbody⟩ := List.forall_mem_cons.1 (h _ List.mem_cons_self).parts
      rw [stmt]
      refine (places_within fun env ↦ env.condition_places htest).bind fun _ ↦ ?_
      refine places_report.bind fun _ ↦ ?_
      refine (block_places result body hbody).nested.bind fun _ ↦ ?_
      exact places_report.bind fun _ ↦ places_pure
  | .each iterator collection body span, h => by
      obtain ⟨hiterator, hrest⟩ := List.forall_mem_cons.1 (h _ List.mem_cons_self).parts
      obtain ⟨hcollection, hbody⟩ := List.forall_mem_cons.1 hrest
      rw [stmt]
      refine (places_within fun env ↦ env.expr_places _ collection hcollection).bind fun _ ↦ ?_
      refine (places_within fun env ↦ places_ok).bind fun type ↦ ?_
      split
      · exact places_fail hcollection.expr
      · refine places_addVariable.bind fun id ↦ ?_
        refine places_report.bind fun _ ↦ ?_
        refine Check.Places.bind (Places.nested ?_) fun core ↦ ?_
        · exact (places_declare hiterator.span).bind fun _ ↦ block_places result body hbody
        · exact places_report.bind fun _ ↦ places_pure
  | .ret value span, h => by
      have htree := h _ List.mem_cons_self
      rw [stmt]
      refine Check.Places.bind (returned_places htree.span ?_) fun _ ↦ places_pure
      rintro e rfl
      exact htree.parts _ List.mem_cons_self
  | .call callee args openParen, h => by
      obtain ⟨hcallee, hrest⟩ := List.forall_mem_cons.1 h
      obtain ⟨hopen, hargs⟩ := List.forall_mem_cons.1 hrest
      rw [stmt]
      refine Check.Places.bind (places_within fun env ↦
        env.resolveCallee_places hcallee.span hopen.span) fun f ↦ ?_
      refine (places_within fun env ↦ env.exprs_places _ args hargs).bind fun _ ↦ ?_
      exact (places_within fun env ↦ places_ok).bind fun _ ↦ places_pure

theorem block_places (result : Option Ty) :
    ∀ body : List Stmt, (∀ t ∈ Stmt.spanForest body, t.All P) → Check.Places P (block result body)
  | [], _ => by
      rw [block]
      exact places_pure
  | st :: rest, h => by
      obtain ⟨hst, hrest⟩ := List.forall_mem_append.1 h
      rw [block]
      refine (stmt_places result st hst).bind fun _ ↦ ?_
      exact (block_places result rest hrest).bind fun _ ↦ places_pure

theorem chain_places (result : Option Ty) :
    ∀ ch : Chain, (∀ t ∈ ch.spanTrees, t.All P) → Check.Places P (chain result ch)
  | .finish, _ => by
      rw [chain]
      exact places_pure
  | .otherwise body, h => by
      rw [chain]
      exact (block_places result body h).bind fun _ ↦ places_pure
  | .also test body rest, h => by
      obtain ⟨htest, hrest⟩ := List.forall_mem_cons.1 h
      obtain ⟨hbody, hrest⟩ := List.forall_mem_append.1 hrest
      rw [chain]
      refine (places_within fun env ↦ env.condition_places htest).bind fun _ ↦ ?_
      refine (block_places result body hbody).bind fun _ ↦ ?_
      exact (chain_places result rest hrest).bind fun _ ↦ places_pure

end

/-- A program is refused at one of its phrases. -/
theorem exists_node_of_analyze {statements : List Stmt} {e : SemanticError}
    (h : (analyze statements).1 = .error e) :
    ∃ t ∈ SpanTree.nodesOf (Stmt.spanForest statements), t.span = e.span := by
  have hall : ∀ t ∈ Stmt.spanForest statements, t.All fun span ↦
      ∃ u ∈ SpanTree.nodesOf (Stmt.spanForest statements), u.span = span := by
    intro t ht u hu
    exact ⟨u, SpanTree.mem_nodesOf.2 ⟨t, ht, hu⟩, rfl⟩
  refine block_places none statements hall State.initial e ?_
  rw [analyze] at h
  split at h
  · cases h
  · rename_i e' s' hfails
    cases h
    exact ⟨s', hfails⟩

end Analysis

/-! ## Errors of a text -/

section Source

variable {source : String} {item : Item}

theorem boundary_of_mem_items (h : item ∈ Item.ofSource source) :
    Text.Boundary source item.span.start := by
  obtain ⟨items, others, hitems⟩ := List.append_of_mem h
  obtain ⟨before, text, after, ⟨hsource, hspan⟩, -⟩ := Item.accords_of_scan [] rfl hitems
  refine ⟨before, text ++ after, ?_, by rw [hspan]⟩
  rw [← List.append_assoc]
  exact hsource

theorem boundary_stop (source : String) : Text.Boundary source source.utf8ByteSize :=
  ⟨source.toList, [], (List.append_nil _).symm, (Cursor.byteWidth_toList source).symm⟩

/-- A syntax error is where an item begins or where the text ends. -/
theorem boundary_of_parse_error {e : Surface.SyntaxError} (h : Surface.parse source = .error e) :
    Text.Boundary source e.span.start := by
  have hmirrors := Surface.mirrors_program (Cursor.ofSource source)
  rw [Surface.parse] at h
  cases hprogram : Surface.program (Cursor.ofSource source) with
  | ok value r hlt =>
      rw [hprogram] at h
      cases h
  | fail error r =>
      rw [hprogram] at h hmirrors
      cases h
      cases e with
      | lexical f => exact boundary_of_mem_items hmirrors
      | unexpectedToken expected t s =>
          obtain ⟨l, others, -, rfl, g, more, hleads, -⟩ := hmirrors
          exact boundary_of_mem_items (hleads.mem_items List.mem_cons_self)
      | unexpectedEnd expected s =>
          obtain ⟨rfl, -⟩ := hmirrors
          exact boundary_stop source

theorem boundary_of_node {statements : List Surface.Stmt} {t : SpanTree}
    (h : Surface.parse source = .ok statements)
    (ht : t ∈ SpanTree.nodesOf (Surface.Stmt.spanForest statements)) :
    Text.Boundary source t.span.start := by
  obtain ⟨r, hderives, hnil⟩ := Surface.isProgram_of_parse h
  obtain ⟨⟨ls, hreads⟩, hlaid⟩ := hderives.laidBetween (Item.ofSource source)
  have hlaid := hlaid (Surface.along_ofSource hreads hnil)
  obtain ⟨l, hl, hstart⟩ := (hlaid.of_mem_nodesOf ht).1.start
  rw [hstart]
  exact boundary_of_mem_items hl

end Source

open Text (byteWidth Boundary) in
/-- Positions are faithful.  Between two characters of a text the line counts the line breaks before
the place and the column the characters behind the last of them; of two places the later one has the
later position, so no two are seen at the same position; and every error that a text is refused
with, by the parser or by the analysis, begins at such a place. -/
theorem positions_faithful (source : String) :
    (∀ before after, source.toList = before ++ after →
      Position.locate source (byteWidth before) =
        ⟨1 + before.count '\n', 1 + (before.rtakeWhile (· ≠ '\n')).length⟩) ∧
    (∀ a b, Boundary source a → Boundary source b →
      ((Position.locate source a).Before (Position.locate source b) ↔ a < b) ∧
      (Position.locate source a = Position.locate source b ↔ a = b)) ∧
    (∀ e, Surface.parse source = .error e → Boundary source e.span.start) ∧
    ∀ statements e, Surface.parse source = .ok statements →
      (Analysis.analyze statements).1 = .error e →
      (∃ t ∈ SpanTree.nodesOf (Surface.Stmt.spanForest statements), t.span = e.span) ∧
        Boundary source e.span.start := by
  refine ⟨?_, ?_, fun e h ↦ boundary_of_parse_error h, ?_⟩
  · intro before after hsource
    rw [Position.locate_eq_foldl hsource, Position.foldl_after_origin]
  · intro a b ha hb
    exact ⟨Position.locate_before_iff ha hb, Position.locate_eq_iff ha hb⟩
  · intro statements e hparse herror
    obtain ⟨t, ht, hspan⟩ := Analysis.exists_node_of_analyze herror
    refine ⟨⟨t, ht, hspan⟩, ?_⟩
    rw [← hspan]
    exact boundary_of_node hparse ht

/-- An undeclared name on the second line, behind a comment with a letter of two bytes. -/
theorem positions_faithful_second_line :
    let source := "## é\n y = 1"
    ∃ statements e, Surface.parse source = .ok statements ∧
      (Analysis.analyze statements).1 = .error e ∧ e.span = ⟨7, 8⟩ ∧
      Text.Boundary source 7 ∧ Position.locate source 7 = ⟨2, 2⟩ := by
  intro source
  -- The span of the error, or nothing if there is none.
  let blamed (statements : List Surface.Stmt) : Except Analysis.SemanticError (Option Span) :=
    ((Analysis.analyze statements).1.map fun _ ↦ none).tryCatch fun e ↦ .ok (some e.span)
  have hfound : (Surface.parse source).toOption.bind (fun statements ↦
      (blamed statements).toOption) = some (some ⟨7, 8⟩) := by
    decide +kernel
  cases hparse : Surface.parse source with
  | error error =>
      rw [hparse] at hfound
      cases hfound
  | ok statements =>
      rw [hparse] at hfound
      cases herror : (Analysis.analyze statements).1 with
      | ok program => simp [blamed, herror, Except.toOption, Except.map, Except.tryCatch] at hfound
      | error e =>
          have hspan : e.span = ⟨7, 8⟩ := by
            simpa [blamed, herror, Except.toOption, Except.map, Except.tryCatch] using hfound
          have hboundary := ((positions_faithful source).2.2.2 statements e hparse herror).2
          rw [hspan] at hboundary
          exact ⟨statements, e, rfl, herror, hspan, hboundary, by decide +kernel⟩

end Barista
