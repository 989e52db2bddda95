import Barista.Proofs.Analysis.Arena
import Barista.Proofs.Core.Typing

/-!
# Soundness of analysis

Every tree that analysis gives obeys the typing rules at each of its nodes.  The checks look at the
table as it stands when an expression is met, the rules at the table of the whole program; the two
agree on what an expression mentions, because the table only grows.
-/

namespace Barista
namespace Analysis

open Barista.Core

theorem isRelational_of_not {op : BinaryOp} (harith : op.isArithmetic = false)
    (hlogic : op.isLogical = false) : op.isRelational = true := by
  cases op <;> simp_all [BinaryOp.isArithmetic, BinaryOp.isLogical, BinaryOp.isRelational]

/-- The hints for arguments, read off the table of the whole program. -/
theorem paramHints_eq {s : State} (hs : s.Closed) {final : Entities}
    (hbelow : s.entities.Below final) {id : FunId} {f : Function}
    (hf : s.entities.findFunction? id = some f) :
    s.env.paramHints id = f.params.map fun p ↦ some (final.typeOf p) := by
  have hparams : s.entities.paramsOf id = f.params := by rw [Entities.paramsOf, hf]
  rw [Env.paramHints]
  change (s.entities.paramsOf id).map _ = _
  rw [hparams]
  apply List.map_congr_left
  intro p hp
  rw [hbelow.typeOf_eq (hs.params id f hf p hp)]
  rfl

theorem hasType_call {s : State} (hs : s.Closed) {final : Entities}
    (hbelow : s.entities.Below final) {hint : Option Ty} {name : String} {id : FunId}
    {args : List Core.Expr} (hfound : s.scope.lookup? name = some (.function id))
    (hcount : args.length = (s.entities.paramsOf id).length)
    (hargs : HaveTypes final (s.env.paramHints id) args) :
    HasType final hint (.call id args (s.entities.resultOf id)) (s.entities.resultOf id) := by
  obtain ⟨f, hf⟩ := Entities.has_function_iff.1 (hs.found _ _ hfound)
  have hresult : s.entities.resultOf id = f.result := by rw [Entities.resultOf, hf]
  have hparams : s.entities.paramsOf id = f.params := by rw [Entities.paramsOf, hf]
  rw [paramHints_eq hs hbelow hf] at hargs
  rw [hparams] at hcount
  rw [hresult]
  exact .call (hbelow.findFunction? hf) hcount hargs

theorem arrayType_nil (env : Env) {hint : Option Ty} (h : hint.bind Ty.element? = none) :
    env.arrayType hint [] = .array .void := by
  rcases hint with _ | type
  · rfl
  · cases type <;> simp_all [Env.arrayType, Ty.element?]

theorem arrayType_cons (env : Env) {hint : Option Ty} (h : hint.bind Ty.element? = none)
    (first : Core.Expr) (rest : List Core.Expr) :
    env.arrayType hint (first :: rest) = .array (env.typeOf first) := by
  rcases hint with _ | type
  · rfl
  · cases type <;> simp_all [Env.arrayType, Ty.element?]

theorem hasType_array {s : State} {final : Entities} {hint : Option Ty} {items : List Core.Expr}
    (hitems : HaveTypes final (List.replicate items.length (hint.bind Ty.element?)) items)
    (hsame : ∀ c ∈ items, c.type final = s.env.typeOf c) :
    HasType final hint (.array items (s.env.arrayType hint items))
      (s.env.arrayType hint items) := by
  cases helement : hint.bind Ty.element? with
  | some t =>
      obtain ⟨type, rfl, htype⟩ := Option.bind_eq_some_iff.1 helement
      cases type <;> cases htype
      exact .expectedArray hitems
  | none =>
      rw [helement] at hitems
      cases items with
      | nil =>
          rw [arrayType_nil _ helement]
          exact .emptyArray helement
      | cons first rest =>
          rw [arrayType_cons _ helement]
          rw [List.length_cons, List.replicate_succ] at hitems
          cases hitems with
          | cons hfirst hrest =>
              rw [← hfirst.type_eq, hsame first List.mem_cons_self] at hfirst
              exact .array helement hfirst hrest

theorem length_paramHints (env : Env) (id : FunId) :
    (env.paramHints id).length = (env.entities.paramsOf id).length :=
  List.length_map ..

mutual

theorem hasType_of_expr {s : State} (hs : s.Closed) {final : Entities}
    (hbelow : s.entities.Below final) {hint : Option Ty} {c : Core.Expr} :
    ∀ e : Surface.Expr, s.env.expr hint e = .ok c → HasType final hint c (s.env.typeOf c)
  | .int value span, h => by
      cases Env.accepts_of_expr h
      exact .int
  | .double value span, h => by
      cases Env.accepts_of_expr h
      exact .double
  | .bool value span, h => by
      cases Env.accepts_of_expr h
      exact .bool
  | .string value span, h => by
      cases Env.accepts_of_expr h
      exact .string
  | .ident name span, h => by
      cases Env.accepts_of_expr h with
      | ident hfound =>
          rename_i id
          obtain ⟨v, hv⟩ := Entities.has_variable_iff.1 (hs.found _ _ hfound)
          have htype : s.env.typeOf (.var id) = v.type := by
            change s.entities.typeOf id = v.type
            rw [Entities.typeOf, hv]
          rw [htype]
          exact .var (hbelow.findVariable? hv)
  | .binary op l r span, h => by
      cases Env.accepts_of_expr h with
      | arithmetic hop hleft hright hl hr =>
          exact .arithmetic hop (hasType_of_expr hs hbelow l hleft)
            (hasType_of_expr hs hbelow r hright) hl hr
      | logical hop hleft hright hl hr =>
          have htl := hasType_of_expr hs hbelow l hleft
          have htr := hasType_of_expr hs hbelow r hright
          rw [hl] at htl
          rw [hr] at htr
          exact .logical hop htl htr
      | comparison hop hop' hleft hright =>
          exact .comparison (isRelational_of_not hop hop') (hasType_of_expr hs hbelow l hleft)
            (hasType_of_expr hs hbelow r hright)
  | .unary op e span, h => by
      cases Env.accepts_of_expr h with
      | not he ht =>
          have hte := hasType_of_expr hs hbelow e he
          rw [ht] at hte
          exact .not hte
      | neg he => exact .neg (hasType_of_expr hs hbelow e he)
  | .ternary t y n span, h => by
      cases Env.accepts_of_expr h with
      | ternary ht hbool hy hn hsame =>
          have htt := hasType_of_expr hs hbelow t ht
          have htn := hasType_of_expr hs hbelow n hn
          rw [hbool] at htt
          rw [hsame] at htn
          exact .ternary htt (hasType_of_expr hs hbelow y hy) htn
  | .call callee args openParen span, h => by
      cases Env.accepts_of_expr h with
      | call hfound hcount hargs =>
          have hlength := hcount.trans (length_paramHints s.env _).symm
          have htypes := (haveTypes_of_exprs hs hbelow args hlength hargs).1
          rw [← Env.length_of_exprs hargs] at hcount
          exact hasType_call hs hbelow hfound hcount htypes
  | .index a i span, h => by
      cases Env.accepts_of_expr h with
      | index ha harray hi hint' =>
          have hta := hasType_of_expr hs hbelow a ha
          have hti := hasType_of_expr hs hbelow i hi
          rw [harray] at hta
          rw [hint'] at hti
          exact .index hta hti
  | .array items span, h => by
      cases Env.accepts_of_expr h with
      | array hitems =>
          obtain ⟨htypes, hsame⟩ :=
            haveTypes_of_exprs hs hbelow items (by rw [List.length_replicate]) hitems
          rw [← Env.length_of_exprs hitems] at htypes
          exact hasType_array htypes hsame

theorem haveTypes_of_exprs {s : State} (hs : s.Closed) {final : Entities}
    (hbelow : s.entities.Below final) {hints : List (Option Ty)} {cs : List Core.Expr} :
    ∀ es : List Surface.Expr, es.length = hints.length → s.env.exprs hints es = .ok cs →
      HaveTypes final hints cs ∧ ∀ c ∈ cs, c.type final = s.env.typeOf c
  | [], hlength, h => by
      rw [Env.exprs_nil_eq_ok.1 h]
      cases hints with
      | nil => exact ⟨.nil, by simp⟩
      | cons hint hints => cases hlength
  | e :: es, hlength, h => by
      obtain ⟨first, others, hfirst, hothers, rfl⟩ := Env.exprs_cons_eq_ok.1 h
      cases hints with
      | nil => cases hlength
      | cons hint hints =>
          have hlength' : es.length = hints.length := by simpa using hlength
          have htype := hasType_of_expr hs hbelow e hfirst
          obtain ⟨htypes, hsame⟩ := haveTypes_of_exprs hs hbelow es hlength' hothers
          exact ⟨.cons htype htypes, List.forall_mem_cons.2 ⟨htype.type_eq, hsame⟩⟩

end

/-- The result type that statements are checked against is that of the function around them. -/
def Encloses (final : Entities) (enclosing : Option FunId) (result : Option Ty) : Prop :=
  ∀ type, result = some type →
    ∃ id f, enclosing = some id ∧ final.findFunction? id = some f ∧ f.result = type

theorem encloses_none (final : Entities) : Encloses final none none := by
  intro type h
  cases h

theorem elementType?_eq_some {type element : Ty} (h : elementType? type = some element) :
    (type = .int ∧ element = .int) ∨ type = .array element := by
  cases type <;> simp_all [elementType?]

theorem eq_of_findVariable?_assignTarget {entities : Entities} {id : VarId} {v : Variable}
    (h : entities.findVariable? id = some v) : assignTarget entities id = v := by
  rw [assignTarget, h]
  rfl

theorem stmtTyped_assign {s : State} (hs : s.Closed) {final : Entities}
    (hbelow : s.entities.Below final) {result : Option Ty} {enclosing : Option FunId}
    {target : Surface.Name} {op : AssignOp} {opSpan : Span} {e : Surface.Expr} {c : Core.Stmt}
    {s' : State} (h : stmt result (.assign target op opSpan e) s = .ok c s') :
    StmtTyped final enclosing c := by
  cases accepts_of_stmt h with
  | assign hfound hwritable hvalue hcompound hplain =>
      obtain ⟨v, hv⟩ := Entities.has_variable_iff.1 (hs.found _ _ hfound)
      have htarget := eq_of_findVariable?_assignTarget hv
      rw [htarget] at hwritable hvalue hcompound hplain
      have hv' := hbelow.findVariable? hv
      have htype := hasType_of_expr hs hbelow e hvalue
      cases hop : op.isCompound with
      | true => exact .compound hv' hwritable hop htype (hcompound hop).1 (hcompound hop).2
      | false => exact .assign hv' hwritable hop htype (hplain hop)

theorem stmtTyped_ret {s : State} (hs : s.Closed) {final : Entities}
    (hbelow : s.entities.Below final) {result : Option Ty} {enclosing : Option FunId}
    (hencloses : Encloses final enclosing result) {value : Option Surface.Expr} {span : Span}
    {c : Core.Stmt} {s' : State} (h : stmt result (.ret value span) s = .ok c s') :
    StmtTyped final enclosing c := by
  cases accepts_of_stmt h with
  | stop hresult =>
      obtain ⟨id, f, rfl, hf, hvoid⟩ := hencloses _ hresult
      exact .stop hf hvoid
  | ret hresult hvoid hvalue haccepts =>
      rename_i e type value
      obtain ⟨id, f, rfl, hf, rfl⟩ := hencloses _ hresult
      exact .ret hf hvoid (hasType_of_expr hs hbelow e hvalue) haccepts

/-- The parameters of a function are read only and have a type other than `void`. -/
theorem params_typed {entities final : Entities} {name : Surface.Name}
    {params : List Surface.Param} {type : Surface.TypeName}
    (hbelow : (withFunction entities name params type).Below final)
    (hvoid : ∀ p ∈ params, paramType p ≠ .void) :
    ∀ id ∈ paramIds entities params, ∃ v, final.findVariable? id = some v ∧
      v.type ≠ .void ∧ v.readOnly = true := by
  intro id hid
  obtain ⟨p, hp, hfind⟩ := findVariable?_of_mem_paramIds hid
  have hadded := (addParamVariables_below_withFunction entities name params type).trans hbelow
  exact ⟨paramVariable p, hadded.findVariable? hfind, hvoid p hp, rfl⟩

mutual

theorem stmtTyped_of_stmt {s s' : State} (hs : s.Closed) {final : Entities}
    (hbelow : s'.entities.Below final) {result : Option Ty} {enclosing : Option FunId}
    (hencloses : Encloses final enclosing result) {c : Core.Stmt} :
    ∀ st : Surface.Stmt, stmt result st s = .ok c s' → StmtTyped final enclosing c
  | .declare type name init, h => by
      have hs' := (stmt_grows hs _ h).1.trans hbelow
      cases accepts_of_stmt h with
      | declare hvoid hvalue haccepts _ hentities _ =>
          have hv := Entities.findVariable?_addVariable_next s.entities
            ⟨name.text, type.type, false⟩
          rw [← hentities] at hv
          exact .declare (hbelow.findVariable? hv) hvoid (hasType_of_expr hs hs' init hvalue)
            haccepts
  | .function name params type body, h => by
      cases accepts_of_stmt h with
      | function hvoid _ hentities₁ hscope₁ hparams hbody hentities _ =>
          have hstart := hs.functionBody hentities₁ hscope₁ hparams
          have hgrows := (block_grows hstart body hbody).1
          rw [entities_of_declareParams hparams, hentities₁] at hgrows
          rw [hentities] at hbelow
          have hfinal := hgrows.trans hbelow
          have hf := hfinal.findFunction? (findFunction?_withFunction _ _ _ _)
          refine .function hf (params_typed hfinal hvoid)
            (blockTyped_of_block hstart hbelow ?_ body hbody)
          rintro t ⟨⟩
          exact ⟨_, _, rfl, hf, rfl⟩
  | .assign target op opSpan e, h =>
      stmtTyped_assign hs ((stmt_grows hs _ h).1.trans hbelow) h
  | .print e span, h => by
      have hs' := (stmt_grows hs _ h).1.trans hbelow
      cases accepts_of_stmt h with
      | print hvalue => exact .print (hasType_of_expr hs hs' e hvalue)
  | .cond test body rest span, h => by
      have hs' := (stmt_grows hs _ h).1.trans hbelow
      cases accepts_of_stmt h with
      | cond htest hbool hbody hrest =>
          have htype := hasType_of_expr hs hs' test htest
          rw [hbool] at htype
          have hclosed := (block_grows hs body hbody).2
          have hgrows := (chain_grows hclosed rest hrest).1
          exact .cond htype (blockTyped_of_block hs (hgrows.trans hbelow) hencloses body hbody)
            (chainTyped_of_chain hclosed hbelow hencloses rest hrest)
  | .loop test body span, h => by
      have hs' := (stmt_grows hs _ h).1.trans hbelow
      cases accepts_of_stmt h with
      | loop htest hbool hentities₁ hscope₁ hbody hentities _ =>
          have htype := hasType_of_expr hs hs' test htest
          rw [hbool] at htype
          rw [hentities] at hbelow
          exact .loop htype
            (blockTyped_of_block (hs.enter hentities₁ hscope₁) hbelow hencloses body hbody)
  | .each iterator collection body span, h => by
      have hs' := (stmt_grows hs _ h).1.trans hbelow
      cases accepts_of_stmt h with
      | each hvalue helement hentities₁ hscope₁ hbody hentities hscope =>
          rename_i element b s₁ s₂
          have hstart := hs.eachBody hentities₁ hscope₁
          have hgrows := (block_grows hstart body hbody).1
          rw [hentities] at hbelow
          have hv := Entities.findVariable?_addVariable_next s.entities
            ⟨iterator.text, element, true⟩
          rw [← hentities₁] at hv
          have hv' := hbelow.findVariable? (hgrows.findVariable? hv)
          have htype := hasType_of_expr hs hs' collection hvalue
          have hbody' := blockTyped_of_block hstart hbelow hencloses body hbody
          rcases elementType?_eq_some helement with ⟨hint, rfl⟩ | harray
          · rw [hint] at htype
            exact .count hv' rfl rfl htype hbody'
          · rw [harray] at htype
            exact .elements hv' rfl htype hbody'
  | .ret value span, h =>
      stmtTyped_ret hs ((stmt_grows hs _ h).1.trans hbelow) hencloses h
  | .call callee args openParen, h => by
      have hs' := (stmt_grows hs _ h).1.trans hbelow
      cases accepts_of_stmt h with
      | call hfound hcount hargs =>
          have hlength := hcount.trans (length_paramHints s.env _).symm
          have htypes := (haveTypes_of_exprs hs hs' args hlength hargs).1
          rw [← Env.length_of_exprs hargs] at hcount
          exact .call (hasType_call hs hs' hfound hcount htypes)

theorem blockTyped_of_block {s s' : State} (hs : s.Closed) {final : Entities}
    (hbelow : s'.entities.Below final) {result : Option Ty} {enclosing : Option FunId}
    (hencloses : Encloses final enclosing result) {b : List Core.Stmt} :
    ∀ body : List Surface.Stmt, block result body s = .ok b s' → BlockTyped final enclosing b
  | [], h => by
      obtain ⟨rfl, -⟩ := block_nil_eq_ok.1 h
      exact .nil
  | st :: rest, h => by
      obtain ⟨first, s₁, others, hfirst, hothers, rfl⟩ := block_cons_eq_ok.1 h
      have hclosed := (stmt_grows hs st hfirst).2
      have hgrows := (block_grows hclosed rest hothers).1
      exact .cons (stmtTyped_of_stmt hs (hgrows.trans hbelow) hencloses st hfirst)
        (blockTyped_of_block hclosed hbelow hencloses rest hothers)

theorem chainTyped_of_chain {s s' : State} (hs : s.Closed) {final : Entities}
    (hbelow : s'.entities.Below final) {result : Option Ty} {enclosing : Option FunId}
    (hencloses : Encloses final enclosing result) {c : Core.Chain} :
    ∀ ch : Surface.Chain, chain result ch s = .ok c s' → ChainTyped final enclosing c
  | .finish, h => by
      cases acceptsChain_of_chain h
      exact .finish
  | .otherwise body, h => by
      cases acceptsChain_of_chain h with
      | otherwise hbody => exact .otherwise (blockTyped_of_block hs hbelow hencloses body hbody)
  | .also test body rest, h => by
      have hs' := (chain_grows hs _ h).1.trans hbelow
      cases acceptsChain_of_chain h with
      | also htest hbool hbody hrest =>
          have htype := hasType_of_expr hs hs' test htest
          rw [hbool] at htype
          have hclosed := (block_grows hs body hbody).2
          have hgrows := (chain_grows hclosed rest hrest).1
          exact .also htype (blockTyped_of_block hs (hgrows.trans hbelow) hencloses body hbody)
            (chainTyped_of_chain hclosed hbelow hencloses rest hrest)

end

end Analysis

/-- Every program that analysis gives obeys the typing rules at every node. -/
theorem typed_of_analyze {source : String} {p : Core.Program} (h : analyze source = .ok p) :
    p.Typed := by
  obtain ⟨statements, s, -, hblock, hentities⟩ := block_of_analyze h
  have hbelow : s.entities.Below p.entities := hentities ▸ Core.Entities.Below.refl _
  exact Analysis.blockTyped_of_block Analysis.closed_initial hbelow
    (Analysis.encloses_none _) statements hblock

theorem typed_of_analyze_loop :
    ∃ p, analyze ("func f(n: int) -> int \x7b\n  return n <= 1 ? 1 : n * f(n - 1)\n\x7d\n" ++
      "for i in [1, 2] \x7b\n  int x = f(i)\n  x += 1\n\x7d") = .ok p ∧ p.Typed := by
  refine (exists_of_isOk ?_).imp fun p h ↦ ⟨h, typed_of_analyze h⟩
  decide +kernel

end Barista
