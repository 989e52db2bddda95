import Barista.Proofs.Surface.Completeness
import Barista.Proofs.Token.Scan
import Barista.Proofs.Core.Part

/-!
# The doubles of a program

Every double in a text becomes one literal of its tree, in the order of the text, and analysis keeps
them all.  So the doubles of an accepted program are doubles that a text can spell, and these are
finite.
-/

namespace Barista

/-! ## In a stream -/

def Token.doubles : Token → List Double
  | .double d => [d]
  | _ => []

def Item.doubles : Item → List Double
  | lexeme l => l.token.doubles
  | fault _ => []

namespace Cursor

def doubles (c : Cursor) : List Double :=
  c.items.flatMap Item.doubles

theorem Passes.doubles {c r : Cursor} {token : Token} {s : Span} (h : c.Passes token s r) :
    c.doubles = token.doubles ++ r.doubles := by
  obtain ⟨⟨onNewLine, hitems⟩, -⟩ := h
  rw [Cursor.doubles, hitems]
  rfl

theorem PassesName.doubles {c r : Cursor} {name : Surface.Name} (h : c.PassesName name r) :
    c.doubles = r.doubles :=
  Passes.doubles h

end Cursor

/-! ## In a surface tree -/

namespace Surface

mutual

def Expr.doubles : Expr → List Double
  | .double d _ => [d]
  | .int .. | .bool .. | .string .. | .ident .. => []
  | .binary _ left right _ => Expr.doubles left ++ Expr.doubles right
  | .unary _ operand _ => Expr.doubles operand
  | .ternary test yes no _ => Expr.doubles test ++ Expr.doubles yes ++ Expr.doubles no
  | .call _ args _ _ => Expr.allDoubles args
  | .index base position _ => Expr.doubles base ++ Expr.doubles position
  | .array values _ => Expr.allDoubles values

def Expr.allDoubles : List Expr → List Double
  | [] => []
  | e :: es => Expr.doubles e ++ Expr.allDoubles es

end

mutual

def Stmt.doubles : Stmt → List Double
  | .declare _ _ init => init.doubles
  | .function _ _ _ body => Stmt.allDoubles body
  | .assign _ _ _ value => value.doubles
  | .print argument _ => argument.doubles
  | .cond test body rest _ => test.doubles ++ Stmt.allDoubles body ++ Chain.doubles rest
  | .loop test body _ => test.doubles ++ Stmt.allDoubles body
  | .each _ collection body _ => collection.doubles ++ Stmt.allDoubles body
  | .ret none _ => []
  | .ret (some value) _ => value.doubles
  | .call _ args _ => Expr.allDoubles args

def Stmt.allDoubles : List Stmt → List Double
  | [] => []
  | t :: ts => Stmt.doubles t ++ Stmt.allDoubles ts

def Chain.doubles : Chain → List Double
  | .finish => []
  | .otherwise body => Stmt.allDoubles body
  | .also test body rest => test.doubles ++ Stmt.allDoubles body ++ Chain.doubles rest

end

def Phrase.doubles : (p : Phrase) → p.Tree → List Double
  | type | param | params | someParams => fun _ ↦ []
  | expression | level _ | operand _ | unary | suffixed => Expr.doubles
  | args | someArgs => Expr.allDoubles
  | statement => Stmt.doubles
  | statements | block => Stmt.allDoubles
  | branches => Chain.doubles

/-- A phrase has the doubles of its tokens, in their order. -/
theorem Derives.doubles {p : Phrase} {c r : Cursor} {t : p.Tree} (h : Derives p c t r) :
    c.doubles = p.doubles t ++ r.doubles := by
  induction h with
  | plainType hword => exact hword.doubles
  | arrayType hword hopen _ hclose _ ih =>
      rw [hword.doubles, hopen.doubles, ih, hclose.doubles]
      rfl
  | plain _ ih | single _ ih | tighter _ _ ih | tightest _ ih | base _ ih | args _ ih
  | params _ ih => exact ih
  | ternary _ hquestion _ hcolon _ _ ihtest ihyes ihno =>
      rw [ihtest, hquestion.doubles, ihyes, hcolon.doubles, ihno]
      simp [Phrase.doubles, Expr.doubles, Token.doubles]
  | operation _ _ _ hsign _ _ ihleft ihright | comparison _ _ hsign _ _ ihleft ihright
  | power _ hsign _ _ ihleft ihright =>
      rw [ihleft, hsign.doubles, ihright]
      simp [Phrase.doubles, Expr.doubles, Token.doubles]
  | unary hsign _ _ ih =>
      rw [hsign.doubles, ih]
      rfl
  | int h | double h | string h | yes h | no h | ident h => exact h.doubles
  | call hcallee hopen _ hclose _ ih | callStatement hcallee hopen _ hclose ih =>
      rw [hcallee.doubles, hopen.doubles, ih, hclose.doubles]
      rfl
  | paren hopen _ hclose ih | array hopen _ hclose _ ih | block hopen _ hclose ih =>
      rw [hopen.doubles, ih, hclose.doubles]
      rfl
  | index _ hopen _ hclose _ iharray ihposition =>
      rw [iharray, hopen.doubles, ihposition, hclose.doubles]
      simp [Phrase.doubles, Expr.doubles, Token.doubles]
  | noArgs | noParams | noStatements | finish => rfl
  | lastArg _ ih =>
      rw [ih]
      simp [Phrase.doubles, Expr.allDoubles]
  | moreArgs _ hcomma _ ihe ihes =>
      rw [ihe, hcomma.doubles, ihes]
      simp [Phrase.doubles, Expr.allDoubles, Token.doubles]
  | untyped hname => exact hname.doubles
  | typed hname hcolon _ ih =>
      rw [hname.doubles, hcolon.doubles, ih]
      rfl
  | lastParam _ ih =>
      rw [ih]
      rfl
  | moreParams _ hcomma _ ihp ihps =>
      rw [ihp, hcomma.doubles, ihps]
      rfl
  | declare _ hname hassign _ ihtype ihinit =>
      rw [ihtype, hname.doubles, hassign.doubles, ihinit]
      rfl
  | function hword hname hopen _ hclose harrow _ _ ihparams ihresult ihbody =>
      rw [hword.doubles, hname.doubles, hopen.doubles, ihparams, hclose.doubles, harrow.doubles,
        ihresult, ihbody]
      rfl
  | assign htarget hsign _ ih =>
      rw [htarget.doubles, hsign.doubles, ih]
      rfl
  | print hword hopen _ hclose _ ih =>
      rw [hword.doubles, hopen.doubles, ih, hclose.doubles]
      rfl
  | cond hword _ _ _ _ ihtest ihbody ihrest =>
      rw [hword.doubles, ihtest, ihbody, ihrest]
      simp [Phrase.doubles, Stmt.doubles, Token.doubles]
  | loop hword _ _ _ ihtest ihbody =>
      rw [hword.doubles, ihtest, ihbody]
      simp [Phrase.doubles, Stmt.doubles, Token.doubles]
  | each hword hiterator hwithin _ _ _ ihcollection ihbody =>
      rw [hword.doubles, hiterator.doubles, hwithin.doubles, ihcollection, ihbody]
      simp [Phrase.doubles, Stmt.doubles, Token.doubles]
  | ret hword _ _ _ ih =>
      rw [hword.doubles, ih]
      rfl
  | stop hword => exact hword.doubles
  | statements _ _ ihfirst ihothers =>
      rw [ihfirst, ihothers]
      simp [Phrase.doubles, Stmt.allDoubles]
  | otherwise hword _ ih =>
      rw [hword.doubles, ih]
      rfl
  | also hword hword' _ _ _ ihtest ihbody ihrest =>
      rw [hword.doubles, hword'.doubles, ihtest, ihbody, ihrest]
      simp [Phrase.doubles, Chain.doubles, Token.doubles]

end Surface

/-! ## In a core tree -/

namespace Core

def Expr.double? : Expr → Option Double
  | .double d => some d
  | _ => none

def Expr.doubles (e : Expr) : List Double :=
  e.parts.filterMap Expr.double?

def Expr.allDoubles (es : List Expr) : List Double :=
  es.flatMap Expr.doubles

namespace Expr

theorem filterMap_allParts (es : List Expr) :
    (allParts es).filterMap double? = allDoubles es := by
  induction es with
  | nil => rfl
  | cons e es ih => rw [allParts, List.filterMap_append, ih, allDoubles, allDoubles,
      List.flatMap_cons, doubles]

theorem mem_allDoubles {d : Double} {es : List Expr} (h : .double d ∈ allParts es) :
    d ∈ allDoubles es := by
  rw [← filterMap_allParts]
  exact List.mem_filterMap.2 ⟨.double d, h, rfl⟩

section Nodes

variable (op : BinaryOp) (sign : UnaryOp) (a b c : Expr) (es : List Expr) (f : FunId) (type : Ty)

theorem doubles_binary : (binary op a b type).doubles = a.doubles ++ b.doubles := by
  rw [doubles, parts, List.filterMap_cons_none rfl, List.filterMap_append]
  rfl

theorem doubles_unary : (unary sign a type).doubles = a.doubles := by
  rw [doubles, parts, List.filterMap_cons_none rfl]
  rfl

theorem doubles_ternary : (ternary a b c type).doubles = a.doubles ++ b.doubles ++ c.doubles := by
  rw [doubles, parts, List.filterMap_cons_none rfl, List.filterMap_append, List.filterMap_append]
  rfl

theorem doubles_call : (call f es type).doubles = allDoubles es := by
  rw [doubles, parts, List.filterMap_cons_none rfl, filterMap_allParts]

theorem doubles_index : (index a b type).doubles = a.doubles ++ b.doubles := by
  rw [doubles, parts, List.filterMap_cons_none rfl, List.filterMap_append]
  rfl

theorem doubles_array : (array es type).doubles = allDoubles es := by
  rw [doubles, parts, List.filterMap_cons_none rfl, filterMap_allParts]

end Nodes

end Expr

end Core

/-! ## Analysis -/

namespace Analysis

open Barista.Core (Expr)

mutual

theorem doubles_of_expr {env : Env} {hint : Option Ty} {c : Expr} :
    ∀ e : Surface.Expr, env.expr hint e = .ok c → c.doubles = e.doubles
  | .int _ _, h | .double _ _, h | .bool _ _, h | .string _ _, h | .ident _ _, h => by
      cases Env.accepts_of_expr h
      rfl
  | .binary op l r span, h => by
      cases Env.accepts_of_expr h with
      | arithmetic _ hleft hright | logical _ hleft hright | comparison _ _ hleft hright =>
          rw [Expr.doubles_binary, doubles_of_expr l hleft, doubles_of_expr r hright]
          rfl
  | .unary op e span, h => by
      cases Env.accepts_of_expr h with
      | not he | neg he =>
          rw [Expr.doubles_unary, doubles_of_expr e he]
          rfl
  | .ternary t y n span, h => by
      cases Env.accepts_of_expr h with
      | ternary ht _ hy hn =>
          rw [Expr.doubles_ternary, doubles_of_expr t ht, doubles_of_expr y hy,
            doubles_of_expr n hn]
          rfl
  | .call callee args openParen span, h => by
      cases Env.accepts_of_expr h with
      | call _ _ hargs =>
          rw [Expr.doubles_call, doubles_of_exprs args hargs]
          rfl
  | .index a i span, h => by
      cases Env.accepts_of_expr h with
      | index ha _ hi =>
          rw [Expr.doubles_index, doubles_of_expr a ha, doubles_of_expr i hi]
          rfl
  | .array items span, h => by
      cases Env.accepts_of_expr h with
      | array hitems =>
          rw [Expr.doubles_array, doubles_of_exprs items hitems]
          rfl

theorem doubles_of_exprs {env : Env} {hints : List (Option Ty)} {cs : List Expr} :
    ∀ es : List Surface.Expr, env.exprs hints es = .ok cs →
      Expr.allDoubles cs = Surface.Expr.allDoubles es
  | [], h => by
      rw [Env.exprs_nil_eq_ok.1 h]
      rfl
  | e :: es, h => by
      obtain ⟨first, others, hfirst, hothers, rfl⟩ := Env.exprs_cons_eq_ok.1 h
      rw [Surface.Expr.allDoubles, ← doubles_of_expr e hfirst, ← doubles_of_exprs es hothers]
      rfl

end

mutual

theorem doubles_of_stmt {result : Option Ty} {s s' : State} {c : Core.Stmt} :
    ∀ st : Surface.Stmt, stmt result st s = .ok c s' → Expr.allDoubles c.exprs = st.doubles
  | .declare type name init, h => by
      cases accepts_of_stmt h with
      | declare _ hvalue =>
          rw [Surface.Stmt.doubles, ← doubles_of_expr init hvalue]
          exact List.append_nil _
  | .function name params type body, h => by
      cases accepts_of_stmt h with
      | function _ _ _ _ _ hbody => exact doubles_of_block body hbody
  | .assign target op opSpan e, h => by
      cases accepts_of_stmt h with
      | assign _ _ hvalue =>
          rw [Surface.Stmt.doubles, ← doubles_of_expr e hvalue]
          exact List.append_nil _
  | .print e span, h => by
      cases accepts_of_stmt h with
      | print hvalue =>
          rw [Surface.Stmt.doubles, ← doubles_of_expr e hvalue]
          exact List.append_nil _
  | .cond test body rest span, h => by
      cases accepts_of_stmt h with
      | cond htest _ hbody hrest =>
          rw [Surface.Stmt.doubles, ← doubles_of_expr test htest, ← doubles_of_block body hbody,
            ← doubles_of_chain rest hrest]
          simp [Core.Stmt.exprs, Expr.allDoubles]
  | .loop test body span, h => by
      cases accepts_of_stmt h with
      | loop htest _ _ _ hbody =>
          rw [Surface.Stmt.doubles, ← doubles_of_expr test htest, ← doubles_of_block body hbody]
          rfl
  | .each iterator collection body span, h => by
      cases accepts_of_stmt h with
      | each hvalue _ _ _ hbody =>
          rw [Surface.Stmt.doubles, ← doubles_of_expr collection hvalue,
            ← doubles_of_block body hbody]
          rfl
  | .ret value span, h => by
      cases accepts_of_stmt h with
      | stop _ => rfl
      | ret _ _ hvalue =>
          rw [Surface.Stmt.doubles, ← doubles_of_expr _ hvalue]
          exact List.append_nil _
  | .call callee args openParen, h => by
      cases accepts_of_stmt h with
      | call _ _ hargs =>
          rw [Surface.Stmt.doubles, ← doubles_of_exprs args hargs]
          exact (List.append_nil _).trans (Expr.doubles_call _ _ _)

theorem doubles_of_block {result : Option Ty} {s s' : State} {b : List Core.Stmt} :
    ∀ body : List Surface.Stmt, block result body s = .ok b s' →
      Expr.allDoubles (Core.Stmt.allExprs b) = Surface.Stmt.allDoubles body
  | [], h => by
      obtain ⟨rfl, -⟩ := block_nil_eq_ok.1 h
      rfl
  | st :: rest, h => by
      obtain ⟨first, s₁, others, hfirst, hothers, rfl⟩ := block_cons_eq_ok.1 h
      rw [Surface.Stmt.allDoubles, ← doubles_of_stmt st hfirst, ← doubles_of_block rest hothers]
      exact List.flatMap_append

theorem doubles_of_chain {result : Option Ty} {s s' : State} {c : Core.Chain} :
    ∀ ch : Surface.Chain, chain result ch s = .ok c s' → Expr.allDoubles c.exprs = ch.doubles
  | .finish, h => by
      cases acceptsChain_of_chain h
      rfl
  | .otherwise body, h => by
      cases acceptsChain_of_chain h with
      | otherwise hbody => exact doubles_of_block body hbody
  | .also test body rest, h => by
      cases acceptsChain_of_chain h with
      | also htest _ hbody hrest =>
          rw [Surface.Chain.doubles, ← doubles_of_expr test htest, ← doubles_of_block body hbody,
            ← doubles_of_chain rest hrest]
          simp [Core.Chain.exprs, Expr.allDoubles]

end

end Analysis

/-! ## Programs -/

theorem isFinite_of_mem_doubles {source : String} {d : Double}
    (h : d ∈ (Cursor.ofSource source).doubles) : d.isFinite = true := by
  obtain ⟨item, hitem, hd⟩ := List.mem_flatMap.1 h
  obtain ⟨token, span, onNewLine⟩ | f := item
  · cases token with
    | double d' =>
        cases List.mem_singleton.1 hd
        exact Item.isFinite_of_mem_scan hitem
    | _ => cases hd
  · cases hd

/-- The doubles of an accepted program are finite. -/
theorem isFinite_of_analyze {source : String} {p : Core.Program} (h : analyze source = .ok p)
    {d : Double} (hd : .double d ∈ p.parts) : d.isFinite = true := by
  obtain ⟨statements, s, hparse, hblock, -⟩ := block_of_analyze h
  obtain ⟨r, hderives, -⟩ := Surface.isProgram_of_parse hparse
  have hmem := Core.Expr.mem_allDoubles hd
  rw [Analysis.doubles_of_block statements hblock] at hmem
  have hsource : d ∈ (Cursor.ofSource source).doubles := by
    rw [hderives.doubles]
    exact List.mem_append_left _ hmem
  exact isFinite_of_mem_doubles hsource

end Barista
