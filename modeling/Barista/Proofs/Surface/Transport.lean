import Barista.Proofs.Surface.Completeness
import Barista.Proofs.Token.Scan

/-!
# Phrases in other places

Spans do not matter to the grammar: they are merged along the way and never looked at.  A phrase can
be read off any other stream that has the same tokens and the same line breaks behind `return`, and
the two trees differ in their spans only.
-/

namespace Barista
namespace Surface

/-! ## Trees with other spans -/

variable (f : Span → Span)

def Name.mapSpan (n : Name) : Name := ⟨n.text, f n.span⟩

def TypeName.mapSpan (t : TypeName) : TypeName := ⟨t.type, f t.span⟩

def Param.mapSpan (p : Param) : Param := ⟨p.name.mapSpan f, p.type.map (TypeName.mapSpan f)⟩

mutual

def Expr.mapSpan : Expr → Expr
  | .int value span => .int value (f span)
  | .double value span => .double value (f span)
  | .bool value span => .bool value (f span)
  | .string value span => .string value (f span)
  | .ident name span => .ident name (f span)
  | .binary op left right span => .binary op (Expr.mapSpan left) (Expr.mapSpan right) (f span)
  | .unary op operand span => .unary op (Expr.mapSpan operand) (f span)
  | .ternary test yes no span =>
      .ternary (Expr.mapSpan test) (Expr.mapSpan yes) (Expr.mapSpan no) (f span)
  | .call callee args openParen span =>
      .call (callee.mapSpan f) (Expr.mapSpans args) (f openParen) (f span)
  | .index base position span => .index (Expr.mapSpan base) (Expr.mapSpan position) (f span)
  | .array items span => .array (Expr.mapSpans items) (f span)

def Expr.mapSpans : List Expr → List Expr
  | [] => []
  | e :: es => Expr.mapSpan e :: Expr.mapSpans es

end

mutual

def Stmt.mapSpan : Stmt → Stmt
  | .declare type name init => .declare (type.mapSpan f) (name.mapSpan f) (init.mapSpan f)
  | .function name params result body =>
      .function (name.mapSpan f) (params.map (Param.mapSpan f)) (result.mapSpan f)
        (Stmt.mapSpans body)
  | .assign target op opSpan value => .assign (target.mapSpan f) op (f opSpan) (value.mapSpan f)
  | .print argument span => .print (argument.mapSpan f) (f span)
  | .cond test body rest span =>
      .cond (test.mapSpan f) (Stmt.mapSpans body) (Chain.mapSpan rest) (f span)
  | .loop test body span => .loop (test.mapSpan f) (Stmt.mapSpans body) (f span)
  | .each iterator collection body span =>
      .each (iterator.mapSpan f) (collection.mapSpan f) (Stmt.mapSpans body) (f span)
  | .ret value span => .ret (value.map (Expr.mapSpan f)) (f span)
  | .call callee args openParen => .call (callee.mapSpan f) (Expr.mapSpans f args) (f openParen)

def Stmt.mapSpans : List Stmt → List Stmt
  | [] => []
  | t :: ts => Stmt.mapSpan t :: Stmt.mapSpans ts

def Chain.mapSpan : Chain → Chain
  | .finish => .finish
  | .otherwise body => .otherwise (Stmt.mapSpans body)
  | .also test body rest => .also (test.mapSpan f) (Stmt.mapSpans body) (Chain.mapSpan rest)

end

theorem Expr.span_mapSpan (e : Expr) : (e.mapSpan f).span = f e.span := by
  cases e <;> rfl

theorem Stmt.mapSpans_eq_map (ts : List Stmt) : Stmt.mapSpans f ts = ts.map (Stmt.mapSpan f) := by
  induction ts with
  | nil => rfl
  | cons t ts ih => rw [Stmt.mapSpans, ih, List.map_cons]

section Id

theorem Name.mapSpan_id (n : Name) : n.mapSpan id = n := rfl

theorem TypeName.mapSpan_id (t : TypeName) : t.mapSpan id = t := rfl

theorem Param.mapSpan_id (p : Param) : p.mapSpan id = p := by
  obtain ⟨name, type⟩ := p
  cases type <;> rfl

mutual

theorem Expr.mapSpan_id : (e : Expr) → e.mapSpan id = e
  | .int .. | .double .. | .bool .. | .string .. | .ident .. => rfl
  | .binary _ left right _ => by
      rw [Expr.mapSpan, Expr.mapSpan_id left, Expr.mapSpan_id right, id]
  | .unary _ operand _ => by rw [Expr.mapSpan, Expr.mapSpan_id operand, id]
  | .ternary test yes no _ => by
      rw [Expr.mapSpan, Expr.mapSpan_id test, Expr.mapSpan_id yes, Expr.mapSpan_id no, id]
  | .call callee args _ _ => by
      rw [Expr.mapSpan, Expr.mapSpans_id args, Name.mapSpan_id, id, id]
  | .index base position _ => by
      rw [Expr.mapSpan, Expr.mapSpan_id base, Expr.mapSpan_id position, id]
  | .array values _ => by rw [Expr.mapSpan, Expr.mapSpans_id values, id]

theorem Expr.mapSpans_id : (es : List Expr) → Expr.mapSpans id es = es
  | [] => rfl
  | e :: es => by rw [Expr.mapSpans, Expr.mapSpan_id e, Expr.mapSpans_id es]

end

mutual

theorem Stmt.mapSpan_id : (t : Stmt) → t.mapSpan id = t
  | .declare type name init => by
      rw [Stmt.mapSpan, Expr.mapSpan_id, TypeName.mapSpan_id, Name.mapSpan_id]
  | .function name params result body => by
      rw [Stmt.mapSpan, Stmt.mapSpans_id body, TypeName.mapSpan_id, Name.mapSpan_id,
        List.map_congr_left fun p _ ↦ Param.mapSpan_id p, List.map_id']
  | .assign target op opSpan value => by
      rw [Stmt.mapSpan, Expr.mapSpan_id, Name.mapSpan_id, id]
  | .print argument _ => by rw [Stmt.mapSpan, Expr.mapSpan_id, id]
  | .cond test body rest _ => by
      rw [Stmt.mapSpan, Expr.mapSpan_id, Stmt.mapSpans_id body, Chain.mapSpan_id rest, id]
  | .loop test body _ => by rw [Stmt.mapSpan, Expr.mapSpan_id, Stmt.mapSpans_id body, id]
  | .each iterator collection body _ => by
      rw [Stmt.mapSpan, Expr.mapSpan_id, Stmt.mapSpans_id body, Name.mapSpan_id, id]
  | .ret none _ => rfl
  | .ret (some value) _ => by rw [Stmt.mapSpan, Option.map_some, Expr.mapSpan_id, id]
  | .call callee args _ => by rw [Stmt.mapSpan, Expr.mapSpans_id, Name.mapSpan_id, id]

theorem Stmt.mapSpans_id : (ts : List Stmt) → Stmt.mapSpans id ts = ts
  | [] => rfl
  | t :: ts => by rw [Stmt.mapSpans, Stmt.mapSpan_id t, Stmt.mapSpans_id ts]

theorem Chain.mapSpan_id : (rest : Chain) → rest.mapSpan id = rest
  | .finish => rfl
  | .otherwise body => by rw [Chain.mapSpan, Stmt.mapSpans_id body]
  | .also test body rest => by
      rw [Chain.mapSpan, Expr.mapSpan_id, Stmt.mapSpans_id body, Chain.mapSpan_id rest]

end

end Id

def Phrase.mapSpan : (p : Phrase) → p.Tree → p.Tree
  | type => TypeName.mapSpan f
  | expression | level _ | operand _ | unary | suffixed => Expr.mapSpan f
  | args | someArgs => Expr.mapSpans f
  | param => Param.mapSpan f
  | params | someParams => List.map (Param.mapSpan f)
  | statement => Stmt.mapSpan f
  | statements | block => Stmt.mapSpans f
  | branches => Chain.mapSpan f

/-! ## Streams with the same tokens -/

variable {f} {g : Span → Span}

/-- Streams that are related have the same tokens.  Spans correspond when `f` makes of the one what
`g` makes of the other. -/
structure Matches (f g : Span → Span) (R : Cursor → Cursor → Prop) : Prop where
  merge {a b a' b' : Span} (ha : f a = g a') (hb : f b = g b') :
    f (a.merge b) = g (a'.merge b')
  last {c c' : Cursor} (hc : R c c') : f c.last = g c'.last
  valueAhead_iff {c c' : Cursor} (hc : R c c') : valueAhead c ↔ valueAhead c'
  passes {c c' r : Cursor} {token : Token} {s : Span} (hc : R c c') (h : c.Passes token s r) :
    ∃ s' r', c'.Passes token s' r' ∧ f s = g s' ∧ R r r'

namespace Matches

variable {R : Cursor → Cursor → Prop} {c c' r : Cursor} {e e₁ e' e₁' : Expr}

theorem passesName (hR : Matches f g R) {name : Name} (hc : R c c') (h : c.PassesName name r) :
    ∃ name' r', c'.PassesName name' r' ∧ name.mapSpan f = name'.mapSpan g ∧ R r r' := by
  obtain ⟨s', r', hpasses, hspan, hr⟩ := hR.passes hc h
  exact ⟨⟨name.text, s'⟩, r', hpasses, by rw [Name.mapSpan, Name.mapSpan, hspan], hr⟩

theorem span_eq (h : e.mapSpan f = e'.mapSpan g) : f e.span = g e'.span := by
  rw [← Expr.span_mapSpan f e, ← Expr.span_mapSpan g e', h]

theorem merge_spans (hR : Matches f g R) (h : e.mapSpan f = e'.mapSpan g)
    (h₁ : e₁.mapSpan f = e₁'.mapSpan g) :
    f (e.span.merge e₁.span) = g (e'.span.merge e₁'.span) :=
  hR.merge (span_eq h) (span_eq h₁)

end Matches

/-! ## Phrases in related streams -/

section Carried

variable {α β γ δ : Type} {R : Cursor → Cursor → Prop} {c c₁ c₂ r : Cursor} {a : α} {b : β} {d : γ}
  {same : α → α → Prop} {same₁ : β → β → Prop} {same₂ : γ → γ → Prop} {same₃ : δ → δ → Prop}
  {read : Cursor → α → Cursor → Prop} {read₁ : Cursor → β → Cursor → Prop}
  {read₂ : Cursor → γ → Cursor → Prop} {read₃ : Cursor → δ → Cursor → Prop}

/-- What is read from `c` to `r` as `a` is read in every stream related to `c`, as something that is
the same as `a`. -/
def Carried (R : Cursor → Cursor → Prop) (same : α → α → Prop) (read : Cursor → α → Cursor → Prop)
    (c : Cursor) (a : α) (r : Cursor) : Prop :=
  ∀ ⦃c'⦄, R c c' → ∃ a' r', read c' a' r' ∧ same a a' ∧ R r r'

theorem Matches.token {token : Token} {s : Span} (hR : Matches f g R) (h : c.Passes token s r) :
    Carried R (fun s s' ↦ f s = g s') (fun c s r ↦ c.Passes token s r) c s r :=
  fun _ hc ↦ hR.passes hc h

theorem Matches.name {name : Name} (hR : Matches f g R) (h : c.PassesName name r) :
    Carried R (fun n n' ↦ n.mapSpan f = n'.mapSpan g) (fun c n r ↦ c.PassesName n r) c name r :=
  fun _ hc ↦ hR.passesName hc h

namespace Carried

/-- A rule with one part. -/
theorem map (k : α → β) (ha : Carried R same read c a r)
    (hread : ∀ {c a r}, read c a r → read₁ c (k a) r)
    (hsame : ∀ {a'}, same a a' → same₁ (k a) (k a')) : Carried R same₁ read₁ c (k a) r := by
  intro c' hc
  obtain ⟨a', r', ha', hsame', hr⟩ := ha hc
  exact ⟨k a', r', hread ha', hsame hsame', hr⟩

/-- A rule with two parts, one behind the other. -/
theorem map₂ (k : α → β → γ) (ha : Carried R same read c a c₁) (hb : Carried R same₁ read₁ c₁ b r)
    (hread : ∀ {c a c₁ b r}, read c a c₁ → read₁ c₁ b r → read₂ c (k a b) r)
    (hsame : ∀ {a' b'}, same a a' → same₁ b b' → same₂ (k a b) (k a' b')) :
    Carried R same₂ read₂ c (k a b) r := by
  intro c' hc
  obtain ⟨a', c₁', ha', hsameA, hc₁⟩ := ha hc
  obtain ⟨b', r', hb', hsameB, hr⟩ := hb hc₁
  exact ⟨k a' b', r', hread ha' hb', hsame hsameA hsameB, hr⟩

theorem map₃ (k : α → β → γ → δ) (ha : Carried R same read c a c₁)
    (hb : Carried R same₁ read₁ c₁ b c₂) (hd : Carried R same₂ read₂ c₂ d r)
    (hread : ∀ {c a c₁ b c₂ d r}, read c a c₁ → read₁ c₁ b c₂ → read₂ c₂ d r →
      read₃ c (k a b d) r)
    (hsame : ∀ {a' b' d'}, same a a' → same₁ b b' → same₂ d d' → same₃ (k a b d) (k a' b' d')) :
    Carried R same₃ read₃ c (k a b d) r := by
  intro c' hc
  obtain ⟨a', c₁', ha', hsameA, hc₁⟩ := ha hc
  obtain ⟨b', c₂', hb', hsameB, hc₂⟩ := hb hc₁
  obtain ⟨d', r', hd', hsameD, hr⟩ := hd hc₂
  exact ⟨k a' b' d', r', hread ha' hb' hd', hsame hsameA hsameB hsameD, hr⟩

end Carried

end Carried

/-- A phrase that is found in every related stream, with a tree that differs in its spans only. -/
abbrev Carries (f g : Span → Span) (R : Cursor → Cursor → Prop) (p : Phrase) (c : Cursor)
    (t : p.Tree) (r : Cursor) : Prop :=
  Carried R (fun t t' ↦ p.mapSpan f t = p.mapSpan g t') (Derives p) c t r

section Rules

variable {R : Cursor → Cursor → Prop} (hR : Matches f g R) {c c₁ c₂ c₃ c₄ c₅ c₆ c₇ r : Cursor}
  {s s₁ s₂ s₃ : Span}

include hR

theorem carries_arrayType {element : TypeName} (hword : c.Passes (.keyword .array) s c₁)
    (hopen : c₁.Passes (.punct .openBracket) s₁ c₂) (helement : Carries f g R .type c₂ element c₃)
    (hclose : c₃.Passes (.punct .closeBracket) s₂ r) :
    Carries f g R .type c ⟨.array element.type, s.merge s₂⟩ r := by
  intro c' hc
  obtain ⟨s', c₁', hword', hs, hc₁⟩ := hR.passes hc hword
  obtain ⟨s₁', c₂', hopen', -, hc₂⟩ := hR.passes hc₁ hopen
  obtain ⟨element', c₃', helement', he, hc₃⟩ := helement hc₂
  obtain ⟨s₂', r', hclose', hs₂, hr⟩ := hR.passes hc₃ hclose
  have htype := congrArg (fun type ↦ Ty.array type.type) he
  exact ⟨_, r', .arrayType hword' hopen' helement' hclose' rfl,
    (TypeName.mk.injEq ..).mpr ⟨htype, hR.merge hs hs₂⟩, hr⟩

/-! ### Expressions -/

section Expressions

variable {e left right test yes no array position : Expr} {args : List Expr}

theorem carries_ternary (htest : Carries f g R (.level .or) c test c₁)
    (hquestion : c₁.Passes (.punct .question) s c₂) (hyes : Carries f g R (.level .or) c₂ yes c₃)
    (hcolon : c₃.Passes (.punct .colon) s₁ c₄) (hno : Carries f g R .expression c₄ no r) :
    Carries f g R .expression c (.ternary test yes no (test.span.merge no.span)) r := by
  intro c' hc
  obtain ⟨test', c₁', htest', htest, hc₁⟩ := htest hc
  obtain ⟨s', c₂', hquestion', -, hc₂⟩ := hR.passes hc₁ hquestion
  obtain ⟨yes', c₃', hyes', hyes, hc₃⟩ := hyes hc₂
  obtain ⟨s₁', c₄', hcolon', -, hc₄⟩ := hR.passes hc₃ hcolon
  obtain ⟨no', r', hno', hno, hr⟩ := hno hc₄
  exact ⟨_, r', .ternary htest' hquestion' hyes' hcolon' hno' rfl,
    (Expr.ternary.injEq ..).mpr ⟨htest, hyes, hno, hR.merge_spans htest hno⟩, hr⟩

/-- The operations of the levels and powers, given the rule for one of them. -/
theorem carried_binary {token : Token} {op : BinaryOp}
    {readLeft readRight read : Cursor → Expr → Cursor → Prop}
    (hleft : Carried R (fun e e' ↦ e.mapSpan f = e'.mapSpan g) readLeft c left c₁)
    (hsign : c₁.Passes token s c₂)
    (hright : Carried R (fun e e' ↦ e.mapSpan f = e'.mapSpan g) readRight c₂ right r)
    (hread : ∀ {c left c₁ s c₂ right r}, readLeft c left c₁ → c₁.Passes token s c₂ →
      readRight c₂ right r → read c (.binary op left right (left.span.merge right.span)) r) :
    Carried R (fun e e' ↦ e.mapSpan f = e'.mapSpan g) read c
      (.binary op left right (left.span.merge right.span)) r := by
  refine hleft.map₃ (fun left _ right ↦ Expr.binary op left right (left.span.merge right.span))
    (hR.token hsign) hright hread ?_
  intro left' _ right' hleft _ hright
  exact (Expr.binary.injEq ..).mpr ⟨rfl, hleft, hright, hR.merge_spans hleft hright⟩

theorem carries_unary {op : UnaryOp} (hsign : c.Passes (.symbol op.symbol) s c₁)
    (he : Carries f g R .unary c₁ e r) :
    Carries f g R .unary c (.unary op e (s.merge e.span)) r := by
  refine (hR.token hsign).map₂ (fun s e ↦ Expr.unary op e (s.merge e.span)) he
    (fun hsign he ↦ Derives.unary hsign he rfl) ?_
  intro s' e' hs he
  exact (Expr.unary.injEq ..).mpr ⟨rfl, he, hR.merge hs (Matches.span_eq he)⟩

theorem carries_call {callee : Name} (hcallee : c.PassesName callee c₁)
    (hopen : c₁.Passes (.punct .openParen) s c₂) (hargs : Carries f g R .args c₂ args c₃)
    (hclose : c₃.Passes (.punct .closeParen) s₁ r) :
    Carries f g R .suffixed c (.call callee args s (callee.span.merge s₁)) r := by
  intro c' hc
  obtain ⟨callee', c₁', hcallee', hcallee, hc₁⟩ := hR.passesName hc hcallee
  obtain ⟨s', c₂', hopen', hs, hc₂⟩ := hR.passes hc₁ hopen
  obtain ⟨args', c₃', hargs', hargs, hc₃⟩ := hargs hc₂
  obtain ⟨s₁', r', hclose', hs₁, hr⟩ := hR.passes hc₃ hclose
  have hname := congrArg Name.span hcallee
  exact ⟨_, r', .call hcallee' hopen' hargs' hclose' rfl,
    (Expr.call.injEq ..).mpr ⟨hcallee, hargs, hs, hR.merge hname hs₁⟩, hr⟩

theorem carries_paren (hopen : c.Passes (.punct .openParen) s c₁)
    (he : Carries f g R .expression c₁ e c₂) (hclose : c₂.Passes (.punct .closeParen) s₁ r) :
    Carries f g R .suffixed c e r := by
  refine (hR.token hopen).map₃ (fun _ e _ ↦ e) he (hR.token hclose) .paren ?_
  exact fun _ he _ ↦ he

theorem carries_array (hopen : c.Passes (.punct .openBracket) s c₁)
    (hargs : Carries f g R .args c₁ args c₂) (hclose : c₂.Passes (.punct .closeBracket) s₁ r) :
    Carries f g R .suffixed c (.array args (s.merge s₁)) r := by
  refine (hR.token hopen).map₃ (fun s args s₁ ↦ Expr.array args (s.merge s₁)) hargs
    (hR.token hclose) (fun hopen hargs hclose ↦ Derives.array hopen hargs hclose rfl) ?_
  intro s' args' s₁' hs hargs hs₁
  exact (Expr.array.injEq ..).mpr ⟨hargs, hR.merge hs hs₁⟩

theorem carries_index (harray : Carries f g R .suffixed c array c₁)
    (hopen : c₁.Passes (.punct .openBracket) s c₂)
    (hposition : Carries f g R .expression c₂ position c₃)
    (hclose : c₃.Passes (.punct .closeBracket) s₁ r) :
    Carries f g R .suffixed c (.index array position (array.span.merge s₁)) r := by
  intro c' hc
  obtain ⟨array', c₁', harray', harray, hc₁⟩ := harray hc
  obtain ⟨s', c₂', hopen', -, hc₂⟩ := hR.passes hc₁ hopen
  obtain ⟨position', c₃', hposition', hposition, hc₃⟩ := hposition hc₂
  obtain ⟨s₁', r', hclose', hs₁, hr⟩ := hR.passes hc₃ hclose
  exact ⟨_, r', .index harray' hopen' hposition' hclose' rfl,
    (Expr.index.injEq ..).mpr ⟨harray, hposition, hR.merge (Matches.span_eq harray) hs₁⟩, hr⟩

end Expressions

/-! ### Parameters and statements -/

section Statements

variable {name : Name} {type : TypeName} {ps : List Param} {e : Expr} {args : List Expr}
  {body : List Stmt} {rest : Chain}

theorem carries_typed (hname : c.PassesName name c₁) (hcolon : c₁.Passes (.punct .colon) s c₂)
    (htype : Carries f g R .type c₂ type r) : Carries f g R .param c ⟨name, some type⟩ r := by
  refine (hR.name hname).map₃ (fun name _ type ↦ Param.mk name (some type)) (hR.token hcolon) htype
    .typed ?_
  intro name' _ type' hname _ htype
  exact (Param.mk.injEq ..).mpr ⟨hname, congrArg some htype⟩

theorem carries_declare (htype : Carries f g R .type c type c₁) (hname : c₁.PassesName name c₂)
    (hassign : c₂.Passes (.symbol .assign) s c₃) (hinit : Carries f g R .expression c₃ e r) :
    Carries f g R .statement c (.declare type name e) r := by
  intro c' hc
  obtain ⟨type', c₁', htype', htype, hc₁⟩ := htype hc
  obtain ⟨name', c₂', hname', hname, hc₂⟩ := hR.passesName hc₁ hname
  obtain ⟨s', c₃', hassign', -, hc₃⟩ := hR.passes hc₂ hassign
  obtain ⟨init', r', hinit', hinit, hr⟩ := hinit hc₃
  exact ⟨_, r', .declare htype' hname' hassign' hinit',
    (Stmt.declare.injEq ..).mpr ⟨htype, hname, hinit⟩, hr⟩

theorem carries_function (hword : c.Passes (.keyword .func) s c₁) (hname : c₁.PassesName name c₂)
    (hopen : c₂.Passes (.punct .openParen) s₁ c₃) (hparams : Carries f g R .params c₃ ps c₄)
    (hclose : c₄.Passes (.punct .closeParen) s₂ c₅) (harrow : c₅.Passes (.punct .arrow) s₃ c₆)
    (hresult : Carries f g R .type c₆ type c₇) (hbody : Carries f g R .block c₇ body r) :
    Carries f g R .statement c (.function name ps type body) r := by
  intro c' hc
  obtain ⟨s', c₁', hword', -, hc₁⟩ := hR.passes hc hword
  obtain ⟨name', c₂', hname', hname, hc₂⟩ := hR.passesName hc₁ hname
  obtain ⟨s₁', c₃', hopen', -, hc₃⟩ := hR.passes hc₂ hopen
  obtain ⟨ps', c₄', hparams', hparams, hc₄⟩ := hparams hc₃
  obtain ⟨s₂', c₅', hclose', -, hc₅⟩ := hR.passes hc₄ hclose
  obtain ⟨s₃', c₆', harrow', -, hc₆⟩ := hR.passes hc₅ harrow
  obtain ⟨result', c₇', hresult', hresult, hc₇⟩ := hresult hc₆
  obtain ⟨body', r', hbody', hbody, hr⟩ := hbody hc₇
  exact ⟨_, r', .function hword' hname' hopen' hparams' hclose' harrow' hresult' hbody',
    (Stmt.function.injEq ..).mpr ⟨hname, hparams, hresult, hbody⟩, hr⟩

theorem carries_assign {op : AssignOp} (htarget : c.PassesName name c₁)
    (hsign : c₁.Passes (.symbol op.symbol) s c₂) (hvalue : Carries f g R .expression c₂ e r) :
    Carries f g R .statement c (.assign name op s e) r := by
  refine (hR.name htarget).map₃ (fun name s e ↦ Stmt.assign name op s e) (hR.token hsign) hvalue
    .assign ?_
  intro name' s' e' htarget hs hvalue
  exact (Stmt.assign.injEq ..).mpr ⟨htarget, rfl, hs, hvalue⟩

theorem carries_print (hword : c.Passes (.keyword .print) s c₁)
    (hopen : c₁.Passes (.punct .openParen) s₁ c₂) (hargument : Carries f g R .expression c₂ e c₃)
    (hclose : c₃.Passes (.punct .closeParen) s₂ r) :
    Carries f g R .statement c (.print e (s.merge s₂)) r := by
  intro c' hc
  obtain ⟨s', c₁', hword', hs, hc₁⟩ := hR.passes hc hword
  obtain ⟨s₁', c₂', hopen', -, hc₂⟩ := hR.passes hc₁ hopen
  obtain ⟨argument', c₃', hargument', hargument, hc₃⟩ := hargument hc₂
  obtain ⟨s₂', r', hclose', hs₂, hr⟩ := hR.passes hc₃ hclose
  exact ⟨_, r', .print hword' hopen' hargument' hclose' rfl,
    (Stmt.print.injEq ..).mpr ⟨hargument, hR.merge hs hs₂⟩, hr⟩

theorem carries_cond (hword : c.Passes (.keyword .cond) s c₁)
    (htest : Carries f g R .expression c₁ e c₂) (hbody : Carries f g R .block c₂ body c₃)
    (hrest : Carries f g R .branches c₃ rest r) :
    Carries f g R .statement c (.cond e body rest (s.merge r.last)) r := by
  intro c' hc
  obtain ⟨s', c₁', hword', hs, hc₁⟩ := hR.passes hc hword
  obtain ⟨test', c₂', htest', htest, hc₂⟩ := htest hc₁
  obtain ⟨body', c₃', hbody', hbody, hc₃⟩ := hbody hc₂
  obtain ⟨rest', r', hrest', hrest, hr⟩ := hrest hc₃
  exact ⟨_, r', .cond hword' htest' hbody' hrest' rfl,
    (Stmt.cond.injEq ..).mpr ⟨htest, hbody, hrest, hR.merge hs (hR.last hr)⟩, hr⟩

theorem carries_loop (hword : c.Passes (.keyword .loop) s c₁)
    (htest : Carries f g R .expression c₁ e c₂) (hbody : Carries f g R .block c₂ body r) :
    Carries f g R .statement c (.loop e body (s.merge r.last)) r := by
  intro c' hc
  obtain ⟨s', c₁', hword', hs, hc₁⟩ := hR.passes hc hword
  obtain ⟨test', c₂', htest', htest, hc₂⟩ := htest hc₁
  obtain ⟨body', r', hbody', hbody, hr⟩ := hbody hc₂
  exact ⟨_, r', .loop hword' htest' hbody' rfl,
    (Stmt.loop.injEq ..).mpr ⟨htest, hbody, hR.merge hs (hR.last hr)⟩, hr⟩

theorem carries_each (hword : c.Passes (.keyword .each) s c₁) (hiterator : c₁.PassesName name c₂)
    (hwithin : c₂.Passes (.keyword .within) s₁ c₃)
    (hcollection : Carries f g R .expression c₃ e c₄) (hbody : Carries f g R .block c₄ body r) :
    Carries f g R .statement c (.each name e body (s.merge r.last)) r := by
  intro c' hc
  obtain ⟨s', c₁', hword', hs, hc₁⟩ := hR.passes hc hword
  obtain ⟨iterator', c₂', hiterator', hiterator, hc₂⟩ := hR.passesName hc₁ hiterator
  obtain ⟨s₁', c₃', hwithin', -, hc₃⟩ := hR.passes hc₂ hwithin
  obtain ⟨collection', c₄', hcollection', hcollection, hc₄⟩ := hcollection hc₃
  obtain ⟨body', r', hbody', hbody, hr⟩ := hbody hc₄
  exact ⟨_, r', .each hword' hiterator' hwithin' hcollection' hbody' rfl,
    (Stmt.each.injEq ..).mpr ⟨hiterator, hcollection, hbody, hR.merge hs (hR.last hr)⟩, hr⟩

theorem carries_ret (hword : c.Passes (.keyword .ret) s c₁) (hahead : valueAhead c₁)
    (hvalue : Carries f g R .expression c₁ e r) :
    Carries f g R .statement c (.ret (some e) (s.merge r.last)) r := by
  intro c' hc
  obtain ⟨s', c₁', hword', hs, hc₁⟩ := hR.passes hc hword
  obtain ⟨value', r', hvalue', hvalue, hr⟩ := hvalue hc₁
  exact ⟨_, r', .ret hword' ((hR.valueAhead_iff hc₁).1 hahead) hvalue' rfl,
    (Stmt.ret.injEq ..).mpr ⟨congrArg some hvalue, hR.merge hs (hR.last hr)⟩, hr⟩

theorem carries_stop (hword : c.Passes (.keyword .ret) s r) (hahead : ¬ valueAhead r) :
    Carries f g R .statement c (.ret none s) r := by
  intro c' hc
  obtain ⟨s', r', hword', hs, hr⟩ := hR.passes hc hword
  exact ⟨_, r', .stop hword' (mt (hR.valueAhead_iff hr).2 hahead),
    (Stmt.ret.injEq ..).mpr ⟨rfl, hs⟩, hr⟩

theorem carries_callStatement (hcallee : c.PassesName name c₁)
    (hopen : c₁.Passes (.punct .openParen) s c₂) (hargs : Carries f g R .args c₂ args c₃)
    (hclose : c₃.Passes (.punct .closeParen) s₁ r) :
    Carries f g R .statement c (.call name args s) r := by
  intro c' hc
  obtain ⟨callee', c₁', hcallee', hcallee, hc₁⟩ := hR.passesName hc hcallee
  obtain ⟨s', c₂', hopen', hs, hc₂⟩ := hR.passes hc₁ hopen
  obtain ⟨args', c₃', hargs', hargs, hc₃⟩ := hargs hc₂
  obtain ⟨s₁', r', hclose', -, hr⟩ := hR.passes hc₃ hclose
  exact ⟨_, r', .callStatement hcallee' hopen' hargs' hclose',
    (Stmt.call.injEq ..).mpr ⟨hcallee, hargs, hs⟩, hr⟩

theorem carries_block (hopen : c.Passes (.punct .openBrace) s c₁)
    (hbody : Carries f g R .statements c₁ body c₂) (hclose : c₂.Passes (.punct .closeBrace) s₁ r) :
    Carries f g R .block c body r := by
  refine (hR.token hopen).map₃ (fun _ body _ ↦ body) hbody (hR.token hclose) .block ?_
  exact fun _ hbody _ ↦ hbody

theorem carries_otherwise (hword : c.Passes (.keyword .otherwise) s c₁)
    (hbody : Carries f g R .block c₁ body r) : Carries f g R .branches c (.otherwise body) r :=
  (hR.token hword).map₂ (fun _ body ↦ Chain.otherwise body) hbody .otherwise fun _ hbody ↦
    congrArg Chain.otherwise hbody

theorem carries_also (hword : c.Passes (.keyword .otherwise) s c₁)
    (hword₁ : c₁.Passes (.keyword .cond) s₁ c₂) (htest : Carries f g R .expression c₂ e c₃)
    (hbody : Carries f g R .block c₃ body c₄) (hrest : Carries f g R .branches c₄ rest r) :
    Carries f g R .branches c (.also e body rest) r := by
  intro c' hc
  obtain ⟨s', c₁', hword', -, hc₁⟩ := hR.passes hc hword
  obtain ⟨s₁', c₂', hword₁', -, hc₂⟩ := hR.passes hc₁ hword₁
  obtain ⟨test', c₃', htest', htest, hc₃⟩ := htest hc₂
  obtain ⟨body', c₄', hbody', hbody, hc₄⟩ := hbody hc₃
  obtain ⟨rest', r', hrest', hrest, hr⟩ := hrest hc₄
  exact ⟨_, r', .also hword' hword₁' htest' hbody' hrest',
    (Chain.also.injEq ..).mpr ⟨htest, hbody, hrest⟩, hr⟩

end Statements

/-- A phrase is the same phrase in every stream that has its tokens. -/
theorem Derives.transport {p : Phrase} {t : p.Tree} (h : Derives p c t r) :
    Carries f g R p c t r := by
  induction h with
  | @plainType c r word type hword htype =>
      exact (hR.token hword).map (TypeName.mk type.type) (.plainType · htype)
        (congrArg (TypeName.mk type.type))
  | arrayType hword hopen _ hclose hspan ih =>
      subst hspan
      exact carries_arrayType hR hword hopen ih hclose
  | plain _ ih => exact ih.map id .plain id
  | ternary _ hquestion _ hcolon _ hspan ihtest ihyes ihno =>
      subst hspan
      exact carries_ternary hR ihtest hquestion ihyes hcolon ihno
  | single _ ih => exact ih.map id .single id
  | operation hlevel _ hop hsign _ hspan ihleft ihright =>
      subst hspan
      exact carried_binary hR ihleft hsign ihright fun hleft hsign hright ↦
        .operation hlevel hleft hop hsign hright rfl
  | comparison _ hop hsign _ hspan ihleft ihright =>
      subst hspan
      exact carried_binary hR ihleft hsign ihright fun hleft hsign hright ↦
        .comparison hleft hop hsign hright rfl
  | tighter hl _ ih => exact ih.map id (.tighter hl) id
  | tightest _ ih => exact ih.map id .tightest id
  | unary hsign _ hspan ih =>
      subst hspan
      exact carries_unary hR hsign ih
  | power _ hcaret _ hspan ihbase ihexponent =>
      subst hspan
      exact carried_binary hR ihbase hcaret ihexponent fun hbase hcaret hexponent ↦
        .power hbase hcaret hexponent rfl
  | base _ ih => exact ih.map id .base id
  | int h => exact (hR.token h).map (Expr.int _) .int (congrArg (Expr.int _))
  | double h => exact (hR.token h).map (Expr.double _) .double (congrArg (Expr.double _))
  | string h => exact (hR.token h).map (Expr.string _) .string (congrArg (Expr.string _))
  | yes h => exact (hR.token h).map (Expr.bool true) .yes (congrArg (Expr.bool true))
  | no h => exact (hR.token h).map (Expr.bool false) .no (congrArg (Expr.bool false))
  | ident h => exact (hR.token h).map (Expr.ident _) .ident (congrArg (Expr.ident _))
  | call hcallee hopen _ hclose hspan ih =>
      subst hspan
      exact carries_call hR hcallee hopen ih hclose
  | paren hopen _ hclose ih => exact carries_paren hR hopen ih hclose
  | array hopen _ hclose hspan ih =>
      subst hspan
      exact carries_array hR hopen ih hclose
  | index _ hopen _ hclose hspan iharray ihposition =>
      subst hspan
      exact carries_index hR iharray hopen ihposition hclose
  | noArgs => exact fun c' hc ↦ ⟨[], c', .noArgs, rfl, hc⟩
  | args _ ih => exact ih.map id .args id
  | lastArg _ ih => exact ih.map ([·]) .lastArg fun he ↦ (List.cons.injEq ..).mpr ⟨he, rfl⟩
  | moreArgs _ hcomma _ ihe ihes =>
      exact ihe.map₃ (fun e _ es ↦ e :: es) (hR.token hcomma) ihes .moreArgs fun he _ hes ↦
        (List.cons.injEq ..).mpr ⟨he, hes⟩
  | untyped hname =>
      exact (hR.name hname).map (Param.mk · none) .untyped fun hname ↦
        (Param.mk.injEq ..).mpr ⟨hname, rfl⟩
  | typed hname hcolon _ ih => exact carries_typed hR hname hcolon ih
  | noParams => exact fun c' hc ↦ ⟨[], c', .noParams, rfl, hc⟩
  | params _ ih => exact ih.map id .params id
  | lastParam _ ih => exact ih.map ([·]) .lastParam fun hp ↦ (List.cons.injEq ..).mpr ⟨hp, rfl⟩
  | moreParams _ hcomma _ ihp ihps =>
      exact ihp.map₃ (fun p _ ps ↦ p :: ps) (hR.token hcomma) ihps .moreParams fun hp _ hps ↦
        (List.cons.injEq ..).mpr ⟨hp, hps⟩
  | declare _ hname hassign _ ihtype ihinit =>
      exact carries_declare hR ihtype hname hassign ihinit
  | function hword hname hopen _ hclose harrow _ _ ihparams ihresult ihbody =>
      exact carries_function hR hword hname hopen ihparams hclose harrow ihresult ihbody
  | assign htarget hsign _ ih => exact carries_assign hR htarget hsign ih
  | print hword hopen _ hclose hspan ih =>
      subst hspan
      exact carries_print hR hword hopen ih hclose
  | cond hword _ _ _ hspan ihtest ihbody ihrest =>
      subst hspan
      exact carries_cond hR hword ihtest ihbody ihrest
  | loop hword _ _ hspan ihtest ihbody =>
      subst hspan
      exact carries_loop hR hword ihtest ihbody
  | each hword hiterator hwithin _ _ hspan ihcollection ihbody =>
      subst hspan
      exact carries_each hR hword hiterator hwithin ihcollection ihbody
  | ret hword hahead _ hspan ih =>
      subst hspan
      exact carries_ret hR hword hahead ih
  | stop hword hahead => exact carries_stop hR hword hahead
  | callStatement hcallee hopen _ hclose ih =>
      exact carries_callStatement hR hcallee hopen ih hclose
  | noStatements => exact fun c' hc ↦ ⟨[], c', .noStatements, rfl, hc⟩
  | statements _ _ ihfirst ihothers =>
      exact ihfirst.map₂ List.cons ihothers .statements fun hfirst hothers ↦
        (List.cons.injEq ..).mpr ⟨hfirst, hothers⟩
  | block hopen _ hclose ih => exact carries_block hR hopen ih hclose
  | finish => exact fun c' hc ↦ ⟨.finish, c', .finish, rfl, hc⟩
  | otherwise hword _ ih => exact carries_otherwise hR hword ih
  | also hword hword₁ _ _ _ ihtest ihbody ihrest =>
      exact carries_also hR hword hword₁ ihtest ihbody ihrest

end Rules

/-! ## Streams that differ in their spans -/

/-- The same items ahead and the same span behind, with the spans as `f` and `g` see them. -/
def Alike (f g : Span → Span) (c c' : Cursor) : Prop :=
  c.items.map (Item.mapSpan f) = c'.items.map (Item.mapSpan g) ∧ f c.last = g c'.last

section Alike

variable {c c' : Cursor}

theorem Alike.exists_lexeme (h : Alike f g c c') {l : Lexeme} {items : List Item}
    (hitems : c.items = .lexeme l :: items) :
    ∃ l' items', c'.items = .lexeme l' :: items' ∧ l.mapSpan f = l'.mapSpan g ∧
      items.map (Item.mapSpan f) = items'.map (Item.mapSpan g) := by
  have hmap := h.1
  rw [hitems, List.map_cons] at hmap
  obtain ⟨item, items', hitems', hitem, htail⟩ := List.map_eq_cons_iff.1 hmap.symm
  cases item with
  | lexeme l' =>
      exact ⟨l', items', hitems', (Item.lexeme.inj hitem).symm, htail.symm⟩
  | fault x => cases hitem

theorem Alike.symm (h : Alike f g c c') : Alike g f c' c :=
  ⟨h.1.symm, h.2.symm⟩

theorem Alike.valueAhead (h : Alike f g c c') (hc : valueAhead c) : valueAhead c' := by
  obtain ⟨l, items, hitems, hstarts, hline⟩ := hc
  obtain ⟨l', items', hitems', hl, -⟩ := h.exists_lexeme hitems
  obtain ⟨htoken, -, honNewLine⟩ := (Lexeme.mk.injEq ..).mp hl
  rw [htoken] at hstarts
  rw [honNewLine] at hline
  exact ⟨l', items', hitems', hstarts, hline⟩

theorem matches_alike (hf : ∀ a b, f (a.merge b) = (f a).merge (f b))
    (hg : ∀ a b, g (a.merge b) = (g a).merge (g b)) : Matches f g (Alike f g) where
  merge ha hb := by rw [hf, hg, ha, hb]
  last hc := hc.2
  valueAhead_iff hc := ⟨hc.valueAhead, hc.symm.valueAhead⟩
  passes := by
    rintro c c' r token s hc ⟨⟨onNewLine, hitems⟩, hlast, -⟩
    obtain ⟨l', items', hitems', hl, htail⟩ := hc.exists_lexeme hitems
    obtain ⟨token', s', onNewLine'⟩ := l'
    obtain ⟨rfl, hs, rfl⟩ := (Lexeme.mk.injEq ..).mp hl
    refine ⟨s', ⟨items', s', c'.stop⟩, ⟨⟨onNewLine, hitems'⟩, rfl, rfl⟩, hs, htail, ?_⟩
    rw [hlast]
    exact hs

/-- Streams with the same tokens are the same programs. -/
theorem IsProgram.of_alike (hf : ∀ a b, f (a.merge b) = (f a).merge (f b))
    (hg : ∀ a b, g (a.merge b) = (g a).merge (g b)) {ts : List Stmt} (h : IsProgram c ts)
    (hc : Alike f g c c') :
    ∃ ts', IsProgram c' ts' ∧ Stmt.mapSpans f ts = Stmt.mapSpans g ts' := by
  obtain ⟨r, hderives, hnil⟩ := h
  obtain ⟨ts', r', hderives', hts, hr⟩ := hderives.transport (matches_alike hf hg) hc
  refine ⟨ts', ⟨r', hderives', ?_⟩, hts⟩
  have hmap := hr.1
  rw [hnil] at hmap
  exact List.map_eq_nil_iff.1 hmap.symm

end Alike

/-! ## Streams without spans -/

end Surface

/-- The stream of tokens alone. -/
def Cursor.bare (c : Cursor) : Cursor :=
  ⟨c.items.map (Item.mapSpan fun _ ↦ ⟨0, 0⟩), ⟨0, 0⟩, 0⟩

namespace Surface

/-- The tree of a program without its spans. -/
def bare (ts : List Stmt) : List Stmt :=
  Stmt.mapSpans (fun _ ↦ ⟨0, 0⟩) ts

theorem alike_bare (c : Cursor) : Alike (fun _ ↦ ⟨0, 0⟩) id c c.bare := by
  refine ⟨?_, rfl⟩
  rw [Item.mapSpan_id, List.map_id]
  rfl

/-- The tokens alone decide what is a program, and its tree up to spans. -/
theorem isProgram_bare_iff {c : Cursor} {u : List Stmt} :
    IsProgram c.bare u ↔ ∃ ts, IsProgram c ts ∧ bare ts = u := by
  have hzero : ∀ a b : Span, (⟨0, 0⟩ : Span) = Span.merge ⟨0, 0⟩ ⟨0, 0⟩ := fun _ _ ↦ rfl
  constructor
  · intro h
    obtain ⟨ts, hts, hu⟩ := h.of_alike (fun _ _ ↦ rfl) hzero (alike_bare c).symm
    rw [Stmt.mapSpans_id] at hu
    exact ⟨ts, hts, hu.symm⟩
  · rintro ⟨ts, hts, rfl⟩
    obtain ⟨u, hu, heq⟩ := hts.of_alike hzero (fun _ _ ↦ rfl) (alike_bare c)
    rw [Stmt.mapSpans_id] at heq
    rwa [bare, heq]

end Surface
end Barista
