import Barista.Proofs.Surface.Soundness
import Barista.Proofs.Token.Partition

/-!
# Spans nest

The spans of a program form trees: a phrase with a span, and in it the phrases it is made of.  What
a phrase is read from lies between two cursors, and its trees lie there too, one behind the other,
each from the start of a token to the end of a token.  Parentheses are passed over, so a phrase in
parentheses has a narrower place than what was read for it.
-/

namespace Barista

theorem Span.merge_eq {a b : Span} (hstart : a.start ≤ b.start) (hstop : a.stop ≤ b.stop) :
    a.merge b = ⟨a.start, b.stop⟩ := by
  rw [merge, Nat.min_eq_left hstart, Nat.max_eq_right hstop]

namespace Surface

/-! ## Trees of spans -/

/-- A phrase with its span and the phrases in it.  A phrase of one token is given with the token. -/
inductive SpanTree
  | node (token : Option Token) (span : Span) (parts : List SpanTree)

namespace SpanTree

def token : SpanTree → Option Token
  | node token _ _ => token

def span : SpanTree → Span
  | node _ span _ => span

def parts : SpanTree → List SpanTree
  | node _ _ parts => parts

mutual

/-- The tree itself and every tree in it. -/
def nodes : SpanTree → List SpanTree
  | node token span parts => node token span parts :: nodesOf parts

def nodesOf : List SpanTree → List SpanTree
  | [] => []
  | t :: ts => t.nodes ++ nodesOf ts

end

theorem nodes_eq (t : SpanTree) : t.nodes = t :: nodesOf t.parts := by
  cases t
  rfl

end SpanTree

def Name.spanTree (n : Name) : SpanTree := .node (some (.ident n.text)) n.span []

def TypeName.spanTree (t : TypeName) : SpanTree := .node none t.span []

def Param.spanTrees (p : Param) : List SpanTree :=
  p.name.spanTree :: (p.type.map TypeName.spanTree).toList

mutual

def Expr.spanTree : Expr → SpanTree
  | .int value span => .node (some (.int value)) span []
  | .double value span => .node (some (.double value)) span []
  | .bool value span => .node (some (.keyword (if value then .yes else .no))) span []
  | .string value span => .node (some (.string value)) span []
  | .ident name span => .node (some (.ident name)) span []
  | .binary _ left right span => .node none span [left.spanTree, right.spanTree]
  | .unary _ operand span => .node none span [operand.spanTree]
  | .ternary test yes no span => .node none span [test.spanTree, yes.spanTree, no.spanTree]
  | .call callee args openParen span => .node none span (callee.spanTree ::
      .node (some (.punct .openParen)) openParen [] :: Expr.spanTrees args)
  | .index values position span => .node none span [values.spanTree, position.spanTree]
  | .array items span => .node none span (Expr.spanTrees items)

def Expr.spanTrees : List Expr → List SpanTree
  | [] => []
  | e :: es => e.spanTree :: Expr.spanTrees es

end

mutual

/-- The trees of a statement: one for the statement where it carries a span, those of its parts
where it does not. -/
def Stmt.spanTrees : Stmt → List SpanTree
  | .declare type name init => [type.spanTree, name.spanTree, init.spanTree]
  | .function name params result body => name.spanTree ::
      (params.flatMap Param.spanTrees ++ result.spanTree :: Stmt.spanForest body)
  | .assign target op opSpan value =>
      [target.spanTree, .node (some (.symbol op.symbol)) opSpan [], value.spanTree]
  | .print argument span => [.node none span [argument.spanTree]]
  | .cond test body rest span =>
      [.node none span (test.spanTree :: (Stmt.spanForest body ++ rest.spanTrees))]
  | .loop test body span => [.node none span (test.spanTree :: Stmt.spanForest body)]
  | .each iterator collection body span =>
      [.node none span (iterator.spanTree :: collection.spanTree :: Stmt.spanForest body)]
  | .ret value span => [.node none span (value.map Expr.spanTree).toList]
  | .call callee args openParen =>
      callee.spanTree :: .node (some (.punct .openParen)) openParen [] :: Expr.spanTrees args

def Stmt.spanForest : List Stmt → List SpanTree
  | [] => []
  | t :: ts => t.spanTrees ++ Stmt.spanForest ts

def Chain.spanTrees : Chain → List SpanTree
  | .finish => []
  | .otherwise body => Stmt.spanForest body
  | .also test body rest => test.spanTree :: (Stmt.spanForest body ++ rest.spanTrees)

end

theorem Expr.span_spanTree (e : Expr) : e.spanTree.span = e.span := by
  cases e <;> rfl

def Phrase.spanTrees : (p : Phrase) → p.Tree → List SpanTree
  | type => fun t ↦ [t.spanTree]
  | expression | level _ | operand _ | unary | suffixed => fun e ↦ [Expr.spanTree e]
  | args | someArgs => Expr.spanTrees
  | param => Param.spanTrees
  | params | someParams => fun ps ↦ ps.flatMap Param.spanTrees
  | statement => Stmt.spanTrees
  | statements | block => Stmt.spanForest
  | branches => Chain.spanTrees

/-! ## Trees in their places -/

/-- A span begins and ends with tokens, and where a token is given it is the token there. -/
structure Anchored (items : List Item) (t : SpanTree) : Prop where
  start : ∃ l : Lexeme, .lexeme l ∈ items ∧ t.span.start = l.span.start
  stop : ∃ l : Lexeme, .lexeme l ∈ items ∧ t.span.stop = l.span.stop
  token : ∀ token ∈ t.token, ∃ l : Lexeme, .lexeme l ∈ items ∧ l.token = token ∧ l.span = t.span

/-- A phrase that is no single token. -/
theorem Anchored.phrase {items : List Item} {span : Span} {ts : List SpanTree}
    (hstart : ∃ l : Lexeme, .lexeme l ∈ items ∧ span.start = l.span.start)
    (hstop : ∃ l : Lexeme, .lexeme l ∈ items ∧ span.stop = l.span.stop) :
    Anchored items (.node none span ts) where
  start := hstart
  stop := hstop
  token := by
    intro token htoken
    cases htoken

/-- The trees lie between two offsets, one behind the other, and so do the trees in each of them
between its ends. -/
inductive Laid (items : List Item) : Nat → Nat → List SpanTree → Prop
  | nil {lo hi : Nat} (h : lo ≤ hi) : Laid items lo hi []
  | cons {lo hi : Nat} {t : SpanTree} {ts : List SpanTree} (hlo : lo ≤ t.span.start)
      (hanchored : Anchored items t) (hparts : Laid items t.span.start t.span.stop t.parts)
      (hrest : Laid items t.span.stop hi ts) : Laid items lo hi (t :: ts)

namespace Laid

variable {items : List Item} {lo hi lo' hi' : Nat} {t u : SpanTree} {ts us : List SpanTree}

theorem le (h : Laid items lo hi ts) : lo ≤ hi := by
  induction h with
  | nil h => exact h
  | cons hlo _ _ _ ihparts ihrest => exact hlo.trans (ihparts.trans ihrest)

theorem mono (h : Laid items lo hi ts) (hlo : lo' ≤ lo) (hhi : hi ≤ hi') :
    Laid items lo' hi' ts := by
  induction h generalizing lo' with
  | nil h => exact .nil (hlo.trans (h.trans hhi))
  | cons hstart hanchored hparts _ _ ihrest =>
      exact .cons (hlo.trans hstart) hanchored hparts (ihrest le_rfl hhi)

theorem append {mid : Nat} (h₁ : Laid items lo mid ts) (h₂ : Laid items mid hi us) :
    Laid items lo hi (ts ++ us) := by
  induction h₁ with
  | nil h => exact h₂.mono h le_rfl
  | cons hlo hanchored hparts _ _ ihrest => exact .cons hlo hanchored hparts (ihrest h₂)

theorem anchored (h : Laid items lo hi ts) (ht : t ∈ ts) : Anchored items t := by
  induction h with
  | nil => cases ht
  | cons _ hanchored _ _ _ ihrest =>
      rcases List.mem_cons.1 ht with rfl | ht
      · exact hanchored
      · exact ihrest ht

theorem bounds (h : Laid items lo hi ts) (ht : t ∈ ts) :
    lo ≤ t.span.start ∧ t.span.stop ≤ hi := by
  induction h with
  | nil => cases ht
  | cons hlo _ hparts hrest _ ihrest =>
      rcases List.mem_cons.1 ht with rfl | ht
      · exact ⟨hlo, hrest.le⟩
      · obtain ⟨hstart, hstop⟩ := ihrest ht
        exact ⟨hlo.trans (hparts.le.trans hstart), hstop⟩

theorem pairwise (h : Laid items lo hi ts) : ts.Pairwise fun a b ↦ a.span.stop ≤ b.span.start := by
  induction h with
  | nil => exact .nil
  | cons _ _ _ hrest _ ihrest => exact .cons (fun b hb ↦ (hrest.bounds hb).1) ihrest

/-- What holds of the place of a tree holds of every tree in it. -/
theorem of_mem_nodesOf (h : Laid items lo hi ts) (ht : t ∈ SpanTree.nodesOf ts) :
    Anchored items t ∧ Laid items t.span.start t.span.stop t.parts := by
  induction h with
  | nil => cases ht
  | @cons lo hi u us hlo hanchored hparts hrest ihparts ihrest =>
      rw [SpanTree.nodesOf, SpanTree.nodes_eq, List.mem_append, List.mem_cons] at ht
      rcases ht with (rfl | ht) | ht
      · exact ⟨hanchored, hparts⟩
      · exact ihparts ht
      · exact ihrest ht

/-- Trees reach from the start of the first to the end of the last. -/
theorem trim (h : Laid items lo hi (t :: ts)) (hlast : (t :: ts).getLast? = some u) :
    Laid items t.span.start u.span.stop (t :: ts) ∧ lo ≤ t.span.start ∧ u.span.stop ≤ hi ∧
      t.span.start ≤ u.span.start ∧ t.span.stop ≤ u.span.stop := by
  induction ts generalizing lo t with
  | nil =>
      cases hlast
      cases h with
      | cons hlo hanchored hparts hrest =>
          exact ⟨.cons le_rfl hanchored hparts (.nil le_rfl), hlo, hrest.le, le_rfl, le_rfl⟩
  | cons t' ts ih =>
      cases h with
      | cons hlo hanchored hparts hrest =>
          rw [List.getLast?_cons_cons] at hlast
          obtain ⟨hlaid, hmid, hhi, hstart, hstop⟩ := ih hrest hlast
          have hwide := hparts.le
          have hnext : t'.span.start ≤ t'.span.stop := by
            cases hrest with
            | cons _ _ hparts' _ => exact hparts'.le
          refine ⟨.cons le_rfl hanchored hparts (hlaid.mono hmid le_rfl), hlo, hhi, ?_, ?_⟩
          · omega
          · omega

end Laid

/-! ## Trees between cursors -/

/-- The items ahead of the cursor are among these, and lie one behind the other behind the lexeme
passed last. -/
def Along (items : List Item) (c : Cursor) : Prop :=
  (∀ item ∈ c.items, item ∈ items ∧ item.span.start ≤ item.span.stop) ∧
    List.IsChain (fun a b : Span ↦ a.stop ≤ b.start) (c.last :: c.items.map Item.span)

/-- One cursor is reached from the other over lexemes, and the trees lie between the two. -/
def LaidBetween (items : List Item) (c r : Cursor) (ts : List SpanTree) : Prop :=
  (∃ ls, c.Reads ls r) ∧ (Along items c → Laid items c.last.stop r.last.stop ts)

section Between

variable {items : List Item} {c c₁ r : Cursor} {ls : List Lexeme} {l : Lexeme} {token : Token}
  {s span : Span} {t : SpanTree} {ts us : List SpanTree}

theorem Along.next (h : Along items c) (hnext : c.next = (.ok (some l), r)) :
    Along items r ∧ r.last = l.span ∧ .lexeme l ∈ items ∧ c.last.stop ≤ l.span.start ∧
      l.span.start ≤ l.span.stop := by
  obtain ⟨hmem, hchain⟩ := h
  obtain ⟨_ | ⟨l' | f, rest⟩, last, stop⟩ := c <;> cases hnext
  obtain ⟨hl, hrest⟩ := List.forall_mem_cons.1 hmem
  rw [List.map_cons, List.isChain_cons_cons] at hchain
  exact ⟨⟨hrest, hchain.2⟩, rfl, hl.1, hchain.1, hl.2⟩

theorem Along.reads (h : Along items c) (hreads : c.Reads ls r) : Along items r := by
  induction hreads with
  | nil => exact h
  | cons hnext _ ih => exact ih (h.next hnext).1

/-- The lexeme passed last is the one passed before, or one behind it. -/
theorem Along.last (h : Along items c) (hreads : c.Reads ls r) :
    r.last = c.last ∨ c.last.stop ≤ r.last.start ∧ r.last.start ≤ r.last.stop ∧
      ∃ l : Lexeme, .lexeme l ∈ items ∧ l.span = r.last := by
  induction hreads with
  | nil => exact .inl rfl
  | @cons c c' r l ls hnext _ ih =>
      obtain ⟨halong, hlast, hl, hstart, hwide⟩ := h.next hnext
      rcases ih halong with hsame | ⟨hbehind, hrest⟩
      · rw [hsame, hlast]
        exact .inr ⟨hstart, hwide, l, hl, rfl⟩
      · rw [hlast] at hbehind
        exact .inr ⟨by omega, hrest⟩

theorem next_of_passes (h : c.Passes token s r) :
    ∃ l : Lexeme, c.next = (.ok (some l), r) ∧ l.token = token ∧ l.span = s := by
  obtain ⟨onNewLine, hlt, hview⟩ := h.view
  refine ⟨⟨token, s, onNewLine⟩, ?_, rfl, rfl⟩
  rw [Cursor.next, hview]

namespace LaidBetween

theorem refl (c : Cursor) : LaidBetween items c c [] :=
  ⟨⟨[], .nil c⟩, fun _ ↦ .nil le_rfl⟩

theorem trans (h₁ : LaidBetween items c c₁ ts) (h₂ : LaidBetween items c₁ r us) :
    LaidBetween items c r (ts ++ us) := by
  obtain ⟨⟨ls₁, hreads₁⟩, hlaid₁⟩ := h₁
  obtain ⟨⟨ls₂, hreads₂⟩, hlaid₂⟩ := h₂
  exact ⟨⟨ls₁ ++ ls₂, hreads₁.append hreads₂⟩,
    fun h ↦ (hlaid₁ h).append (hlaid₂ (h.reads hreads₁))⟩

/-- A token that has no place in the tree. -/
theorem skip (h : c.Passes token s r) : LaidBetween items c r [] := by
  obtain ⟨l, hnext, -, -⟩ := next_of_passes h
  refine ⟨⟨[l], .cons hnext (.nil r)⟩, fun halong ↦ .nil ?_⟩
  obtain ⟨-, hlast, -, hstart, hwide⟩ := halong.next hnext
  rw [hlast]
  omega

theorem leaf (h : c.Passes token s r) : LaidBetween items c r [.node (some token) s []] := by
  obtain ⟨l, hnext, rfl, rfl⟩ := next_of_passes h
  refine ⟨⟨[l], .cons hnext (.nil r)⟩, fun halong ↦ ?_⟩
  obtain ⟨-, hlast, hl, hstart, hwide⟩ := halong.next hnext
  rw [hlast]
  refine .cons hstart ⟨⟨l, hl, rfl⟩, ⟨l, hl, rfl⟩, ?_⟩ (.nil hwide) (.nil le_rfl)
  rintro _ ⟨⟩
  exact ⟨l, hl, rfl, rfl⟩

theorem upTo (hts : LaidBetween items c c₁ ts) (h : c₁.Passes token s r) :
    LaidBetween items c r ts := by
  have htrans := hts.trans (skip h)
  rwa [List.append_nil] at htrans

/-- Trees that are not kept. -/
theorem forget (h : LaidBetween items c r ts) : LaidBetween items c r [] :=
  ⟨h.1, fun halong ↦ .nil (h.2 halong).le⟩

/-- A phrase from a token to the token read last. -/
theorem opened (h : c.Passes token s c₁) (hts : LaidBetween items c₁ r ts)
    (hspan : span = s.merge r.last) : LaidBetween items c r [.node none span ts] := by
  obtain ⟨l, hnext, -, rfl⟩ := next_of_passes h
  obtain ⟨⟨ls, hreads⟩, hlaid⟩ := hts
  refine ⟨⟨l :: ls, .cons hnext hreads⟩, fun halong ↦ ?_⟩
  obtain ⟨halong, hlast, hl, hstart, hwide⟩ := halong.next hnext
  have hlaid := hlaid halong
  have hle := hlaid.le
  have hbehind := halong.last hreads
  rw [hlast] at hlaid hle hbehind
  have hmerge : span = ⟨l.span.start, r.last.stop⟩ := by
    refine hspan.trans (Span.merge_eq ?_ hle)
    rcases hbehind with hsame | ⟨hbehind, -⟩
    · rw [hsame]
    · omega
  subst hmerge
  have hstop : ∃ l' : Lexeme, .lexeme l' ∈ items ∧ r.last.stop = l'.span.stop := by
    rcases hbehind with hsame | ⟨-, -, l', hl', hspan⟩
    · exact ⟨l, hl, by rw [hsame]⟩
    · exact ⟨l', hl', by rw [hspan]⟩
  exact .cons hstart (.phrase ⟨l, hl, rfl⟩ hstop) (hlaid.mono hwide le_rfl) (.nil le_rfl)

/-- A phrase from a token to the end of a phrase. -/
theorem prefixed (h : c.Passes token s c₁) (ht : LaidBetween items c₁ r [t])
    (hspan : span = s.merge t.span) : LaidBetween items c r [.node none span [t]] := by
  obtain ⟨l, hnext, -, rfl⟩ := next_of_passes h
  obtain ⟨⟨ls, hreads⟩, hlaid⟩ := ht
  refine ⟨⟨l :: ls, .cons hnext hreads⟩, fun halong ↦ ?_⟩
  obtain ⟨halong, hlast, hl, hstart, hwide⟩ := halong.next hnext
  cases hlaid halong with
  | cons hbehind hanchored hparts hrest =>
      have hle := hparts.le
      rw [hlast] at hbehind
      have hmerge : span = ⟨l.span.start, t.span.stop⟩ :=
        hspan.trans (Span.merge_eq (by omega) (by omega))
      subst hmerge
      have ht : Laid items l.span.start t.span.stop [t] :=
        .cons (hwide.trans hbehind) hanchored hparts (.nil le_rfl)
      exact .cons hstart (.phrase ⟨l, hl, rfl⟩ hanchored.stop) ht (.nil hrest.le)

/-- A phrase from the start of a phrase to a token. -/
theorem closed (hts : LaidBetween items c c₁ (t :: ts)) (h : c₁.Passes token s r)
    (hspan : span = t.span.merge s) : LaidBetween items c r [.node none span (t :: ts)] := by
  obtain ⟨l, hnext, -, rfl⟩ := next_of_passes h
  obtain ⟨⟨ls, hreads⟩, hlaid⟩ := hts
  refine ⟨⟨ls ++ [l], hreads.append (.cons hnext (.nil r))⟩, fun halong ↦ ?_⟩
  obtain ⟨-, hlast, hl, hstart, hwide⟩ := (halong.reads hreads).next hnext
  cases hlaid halong with
  | cons hlo hanchored hparts hrest =>
      have hle := hparts.le
      have hend := hrest.le
      have hmerge : span = ⟨t.span.start, l.span.stop⟩ :=
        hspan.trans (Span.merge_eq (by omega) (by omega))
      subst hmerge
      have hts : Laid items t.span.start l.span.stop (t :: ts) :=
        .cons le_rfl hanchored hparts (hrest.mono le_rfl (hstart.trans hwide))
      rw [hlast]
      exact .cons hlo (.phrase hanchored.start ⟨l, hl, rfl⟩) hts (.nil le_rfl)

/-- A phrase from the start of a phrase to the end of a phrase. -/
theorem joined {u : SpanTree} (hts : LaidBetween items c r (t :: ts))
    (hlast : (t :: ts).getLast? = some u) (hspan : span = t.span.merge u.span) :
    LaidBetween items c r [.node none span (t :: ts)] := by
  obtain ⟨hreads, hlaid⟩ := hts
  refine ⟨hreads, fun halong ↦ ?_⟩
  have hlaid := hlaid halong
  obtain ⟨htrim, hlo, hhi, hstart, hstop⟩ := hlaid.trim hlast
  have hfirst := hlaid.anchored List.mem_cons_self
  have hend := hlaid.anchored (List.mem_of_getLast? hlast)
  have hmerge : span = ⟨t.span.start, u.span.stop⟩ := hspan.trans (Span.merge_eq hstart hstop)
  subst hmerge
  exact .cons hlo (.phrase hfirst.start hend.stop) htrim (.nil hhi)

end LaidBetween

end Between

/-! ## Phrases -/

open LaidBetween in
/-- The trees of a phrase lie where the phrase was read. -/
theorem Derives.laidBetween (items : List Item) {p : Phrase} {c r : Cursor} {t : p.Tree}
    (h : Derives p c t r) : LaidBetween items c r (p.spanTrees t) := by
  induction h with
  | plainType hword _ =>
      refine opened hword (.refl _) ?_
      rw [hword.2.1, Span.merge_self]
  | arrayType hword hopen _ hclose hspan ih =>
      rw [← hclose.2.1] at hspan
      exact opened hword ((skip hopen).trans (ih.trans (skip hclose))).forget hspan
  | plain _ ih | single _ ih | tighter _ _ ih | tightest _ ih | base _ ih | args _ ih
  | params _ ih => exact ih
  | ternary _ hquestion _ hcolon _ hspan ihtest ihyes ihno =>
      rw [← Expr.span_spanTree, ← Expr.span_spanTree] at hspan
      exact joined (ihtest.trans ((skip hquestion).trans (ihyes.trans ((skip hcolon).trans ihno))))
        rfl hspan
  | operation _ _ _ hsign _ hspan ihleft ihright | comparison _ _ hsign _ hspan ihleft ihright
  | power _ hsign _ hspan ihleft ihright =>
      rw [← Expr.span_spanTree, ← Expr.span_spanTree] at hspan
      exact joined (ihleft.trans ((skip hsign).trans ihright)) rfl hspan
  | unary hsign _ hspan ih =>
      rw [← Expr.span_spanTree] at hspan
      exact prefixed hsign ih hspan
  | int h | double h | string h | yes h | no h | ident h => exact leaf h
  | call hcallee hopen _ hclose hspan ih =>
      exact closed ((leaf hcallee).trans ((leaf hopen).trans ih)) hclose hspan
  | paren hopen _ hclose ih => exact (skip hopen).trans (ih.upTo hclose)
  | array hopen _ hclose hspan ih =>
      rw [← hclose.2.1] at hspan
      exact opened hopen (ih.upTo hclose) hspan
  | index _ hopen _ hclose hspan iharray ihposition =>
      rw [← Expr.span_spanTree] at hspan
      exact closed (iharray.trans ((skip hopen).trans ihposition)) hclose hspan
  | noArgs | noParams | noStatements | finish => exact .refl _
  | lastArg _ ih => exact ih
  | moreArgs _ hcomma _ ih ihs => exact ih.trans ((skip hcomma).trans ihs)
  | untyped hname => exact leaf hname
  | typed hname hcolon _ ih => exact (leaf hname).trans ((skip hcolon).trans ih)
  | lastParam _ ih =>
      simp only [Phrase.spanTrees, List.flatMap_singleton]
      exact ih
  | moreParams _ hcomma _ ih ihs => exact ih.trans ((skip hcomma).trans ihs)
  | declare _ hname hassign _ ihtype ihinit =>
      exact ihtype.trans ((leaf hname).trans ((skip hassign).trans ihinit))
  | function hword hname hopen _ hclose harrow _ _ ihparams ihresult ihbody =>
      exact (skip hword).trans ((leaf hname).trans ((skip hopen).trans ((ihparams.upTo hclose).trans
        ((skip harrow).trans (ihresult.trans ihbody)))))
  | assign htarget hsign _ ih => exact (leaf htarget).trans ((leaf hsign).trans ih)
  | print hword hopen _ hclose hspan ih =>
      rw [← hclose.2.1] at hspan
      exact opened hword ((skip hopen).trans (ih.upTo hclose)) hspan
  | cond hword _ _ _ hspan ihtest ihbody ihrest =>
      exact opened hword (ihtest.trans (ihbody.trans ihrest)) hspan
  | loop hword _ _ hspan ihtest ihbody => exact opened hword (ihtest.trans ihbody) hspan
  | each hword hiterator hwithin _ _ hspan ihcollection ihbody =>
      exact opened hword ((leaf hiterator).trans ((skip hwithin).trans (ihcollection.trans ihbody)))
        hspan
  | ret hword _ _ hspan ih => exact opened hword ih hspan
  | stop hword _ =>
      refine opened hword (.refl _) ?_
      rw [hword.2.1, Span.merge_self]
  | callStatement hcallee hopen _ hclose ih =>
      exact (leaf hcallee).trans ((leaf hopen).trans (ih.upTo hclose))
  | statements _ _ ihfirst ihothers => exact ihfirst.trans ihothers
  | block hopen _ hclose ih => exact (skip hopen).trans (ih.upTo hclose)
  | otherwise hword _ ih => exact (skip hword).trans ih
  | also hword hword' _ _ _ ihtest ihbody ihrest =>
      exact (skip hword).trans ((skip hword').trans (ihtest.trans (ihbody.trans ihrest)))

/-! ## Programs -/

section Source

variable {source : String} {ls : List Lexeme} {r : Cursor}

theorem items_of_end (h : (Cursor.ofSource source).Reads ls r) (hnil : r.items = []) :
    Item.ofSource source = ls.map .lexeme := by
  rw [Item.ofSource, Cursor.scan_of_reads h, hnil, List.append_nil]

theorem along_ofSource (h : (Cursor.ofSource source).Reads ls r) (hnil : r.items = []) :
    Along (Item.ofSource source) (Cursor.ofSource source) := by
  have hitems : (Cursor.ofSource source).items = ls.map .lexeme := items_of_end h hnil
  refine ⟨fun item hitem ↦ ⟨hitem, ?_⟩, ?_⟩
  · rw [hitems] at hitem
    obtain ⟨l, hl, rfl⟩ := List.mem_map.1 hitem
    exact (Cursor.start_lt_stop_of_reads h hl).le
  · have hchain := Cursor.separated_of_reads h
    rw [← List.cons_append] at hchain
    rw [hitems, List.map_map]
    refine hchain.left_of_append.imp ?_
    rintro a b ⟨before, gap, after, -, hstop, hstart, -⟩
    rw [hstop, hstart, Text.byteWidth_append]
    exact Nat.le_add_right _ _

/-- In a text without faults every lexeme has a text that stands for its token. -/
theorem covers_of_lexeme {l : Lexeme} (h : (Cursor.ofSource source).Reads ls r)
    (hnil : r.items = []) (hl : .lexeme l ∈ Item.ofSource source) :
    ∃ before text after, l.span.Covers source.toList before text after ∧
      Pattern.Denotes text l.token := by
  rw [items_of_end h hnil] at hl
  obtain ⟨_, hl, ⟨⟩⟩ := List.mem_map.1 hl
  refine Cursor.denotes_of_reads h ?_ hl
  intro f items hfault
  rw [hnil] at hfault
  cases hfault

theorem stop_le_of_covers {span : Span} {before text after : List Char}
    (h : span.Covers source.toList before text after) : span.stop ≤ source.utf8ByteSize := by
  obtain ⟨hsource, hspan⟩ := h
  rw [← Cursor.byteWidth_toList, hsource, hspan, Text.byteWidth_append (before ++ text)]
  exact Nat.le_add_right _ _

end Source

/-- The spans of a program nest.  Each begins with a token and ends with one, within the text; a
phrase contains the phrases in it, and these lie one behind the other; and an identifier, a literal,
an assignment sign or an opening parenthesis has the span of its token. -/
theorem parse_spans_nested {source : String} {statements : List Stmt}
    (h : parse source = .ok statements) :
    (Stmt.spanForest statements).Pairwise (fun a b ↦ a.span.stop ≤ b.span.start) ∧
    ∀ t ∈ SpanTree.nodesOf (Stmt.spanForest statements),
      t.span.start ≤ t.span.stop ∧ t.span.stop ≤ source.utf8ByteSize ∧
      (∃ l : Lexeme, .lexeme l ∈ Item.ofSource source ∧ t.span.start = l.span.start) ∧
      (∃ l : Lexeme, .lexeme l ∈ Item.ofSource source ∧ t.span.stop = l.span.stop) ∧
      (∀ part ∈ t.parts, t.span.start ≤ part.span.start ∧ part.span.stop ≤ t.span.stop) ∧
      (t.parts.Pairwise fun a b ↦ a.span.stop ≤ b.span.start) ∧
      ∀ token, t.token = some token →
        (∃ l : Lexeme, .lexeme l ∈ Item.ofSource source ∧ l.token = token ∧ l.span = t.span) ∧
        ∃ before text after, t.span.Covers source.toList before text after ∧
          Pattern.Denotes text token := by
  obtain ⟨r, hderives, hnil⟩ := isProgram_of_parse h
  obtain ⟨⟨ls, hreads⟩, hlaid⟩ := hderives.laidBetween (Item.ofSource source)
  have hlaid := hlaid (along_ofSource hreads hnil)
  refine ⟨hlaid.pairwise, fun t ht ↦ ?_⟩
  obtain ⟨hanchored, hparts⟩ := hlaid.of_mem_nodesOf ht
  refine ⟨hparts.le, ?_, hanchored.start, hanchored.stop, fun part hpart ↦ hparts.bounds hpart,
    hparts.pairwise, ?_⟩
  · obtain ⟨l, hl, hstop⟩ := hanchored.stop
    obtain ⟨before, text, after, hcovers, -⟩ := covers_of_lexeme hreads hnil hl
    rw [hstop]
    exact stop_le_of_covers hcovers
  · intro token htoken
    obtain ⟨l, hl, rfl, hspan⟩ := hanchored.token token htoken
    rw [← hspan]
    exact ⟨⟨l, hl, rfl, rfl⟩, covers_of_lexeme hreads hnil hl⟩

/-- Parentheses around an expression belong to no span, and those of a call belong to its span. -/
theorem parse_spans_nested_parentheses :
    let source := "x = (a + (1)) * f((b))"
    ∃ statements, parse source = .ok statements ∧
      (SpanTree.nodesOf (Stmt.spanForest statements)).map SpanTree.span =
        [⟨0, 1⟩, ⟨2, 3⟩, ⟨5, 22⟩, ⟨5, 11⟩, ⟨5, 6⟩, ⟨10, 11⟩, ⟨16, 22⟩, ⟨16, 17⟩, ⟨17, 18⟩,
          ⟨19, 20⟩] ∧
      ∀ t ∈ SpanTree.nodesOf (Stmt.spanForest statements),
        (∀ part ∈ t.parts, t.span.start ≤ part.span.start ∧ part.span.stop ≤ t.span.stop) ∧
        t.parts.Pairwise fun a b ↦ a.span.stop ≤ b.span.start := by
  intro source
  have hspans : (parse source).toOption.map (fun statements ↦
      (SpanTree.nodesOf (Stmt.spanForest statements)).map SpanTree.span) =
        some [⟨0, 1⟩, ⟨2, 3⟩, ⟨5, 22⟩, ⟨5, 11⟩, ⟨5, 6⟩, ⟨10, 11⟩, ⟨16, 22⟩, ⟨16, 17⟩, ⟨17, 18⟩,
          ⟨19, 20⟩] := by
    decide +kernel
  cases hparse : parse source with
  | error e =>
      rw [hparse] at hspans
      cases hspans
  | ok statements =>
      rw [hparse] at hspans
      refine ⟨statements, rfl, Option.some.inj hspans, fun t ht ↦ ?_⟩
      obtain ⟨-, -, -, -, hparts, hpairwise, -⟩ := (parse_spans_nested hparse).2 t ht
      exact ⟨hparts, hpairwise⟩

end Surface
end Barista
