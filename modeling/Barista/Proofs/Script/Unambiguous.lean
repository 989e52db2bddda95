import Barista.Token.Munch
import Barista.Script.Line
import Barista.Proofs.Core.Part
import Barista.Proofs.Double.Literal
import Barista.Proofs.Script.Form
import Barista.Proofs.Script.Naming

/-!
# Written expressions are unambiguous

The text of an expression is that of its form: the expression without its types, in which a negative
literal is the negation of its magnitude.  Where different entities have different names, words tell
what they stand for, and so the text tells the form.
-/

namespace Barista
namespace Script

open Barista.Core (Entity Entities Expr)

/-! ## Forms of expressions -/

/-- What is written as one word or as one quoted text.  Numbers have no sign. -/
inductive Atom
  | whole (n : Nat)
  | double (d : Double)
  | bool (b : Bool)
  | string (s : String)
  | entity (entity : Entity)

def signed (negative : Bool) (a : Atom) : Form Atom :=
  if negative then .unary .neg (.atom a) else .atom a

def unsigned (d : Double) : Double :=
  if d.isNegative then d.neg else d

mutual

def form : Expr → Form Atom
  | .int n => signed (n.toInt < 0) (.whole n.toInt.natAbs)
  | .double d => signed d.isNegative (.double (unsigned d))
  | .bool b => .atom (.bool b)
  | .string s => .atom (.string s)
  | .var id => .atom (.entity (.variable id))
  | .binary op l r _ => .binary op (form l) (form r)
  | .unary op e _ => .unary op (form e)
  | .ternary c y n _ => .ternary (form c) (form y) (form n)
  | .call callee args _ => .call (.entity (.function callee)) (forms args)
  | .index a i _ => .index (form a) (form i)
  | .array items _ => .array (forms items)

def forms : List Expr → List (Form Atom)
  | [] => []
  | e :: es => form e :: forms es

end

namespace Atom

def text (refer : Entity → String) : Atom → List Char
  | whole n => Nat.toDigits 10 n
  | double d => d.text.toList
  | bool b => (if b then "true" else "false").toList
  | string s => (Text.quoted s).toList
  | entity e => (refer e).toList

/-- An entity has a name, and a double is finite and without a sign. -/
def Fits (names : Names) : Atom → Prop
  | double d => d.isFinite ∧ d.isNegative = false
  | entity e => (names.name? e).isSome
  | _ => True

end Atom

/-- The expression mentions only entities that have names, and its doubles are finite. -/
structure Writable (names : Names) (e : Expr) : Prop where
  named : ∀ entity ∈ e.refs, (names.name? entity).isSome
  finite : ∀ d, .double d ∈ e.parts → d.isFinite

variable {names : Names} {entities : Entities} {refer : Entity → String}

theorem all_signed_iff {negative : Bool} {a : Atom} {p : Atom → Prop} :
    (signed negative a).All p ↔ p a := by
  unfold signed
  split <;> simp only [Form.All]

theorem fits_unsigned_iff {d : Double} :
    (Atom.double (unsigned d)).Fits names ↔ d.isFinite := by
  cases hsign : d.isNegative <;> simp [Atom.Fits, unsigned, hsign]

theorem Writable.of_subset {e part : Expr} (h : Writable names e) (hrefs : part.refs ⊆ e.refs)
    (hparts : part.parts ⊆ e.parts) : Writable names part :=
  ⟨fun entity hentity ↦ h.named entity (hrefs hentity), fun d hd ↦ h.finite d (hparts hd)⟩

theorem subset_allRefs {e : Expr} {es : List Expr} (h : e ∈ es) : e.refs ⊆ Expr.allRefs es := by
  induction es with
  | nil => cases h
  | cons e' es ih =>
      rw [Expr.allRefs]
      rcases List.mem_cons.1 h with rfl | h
      · exact List.subset_append_left _ _
      · exact List.subset_append_of_subset_right _ (ih h)

theorem subset_allParts {e : Expr} {es : List Expr} (h : e ∈ es) : e.parts ⊆ Expr.allParts es :=
  fun _ hpart ↦ Expr.mem_allParts_iff.2 ⟨e, h, hpart⟩

mutual

theorem all_form : ∀ e : Expr, Writable names e → (form e).All (Atom.Fits names)
  | .int n, _ => all_signed_iff.2 trivial
  | .double d, h =>
      all_signed_iff.2 (fits_unsigned_iff.2 (h.finite d (Expr.mem_parts_self _)))
  | .bool b, _ => by
      simp only [form, Form.All, Atom.Fits]
  | .string s, _ => by
      simp only [form, Form.All, Atom.Fits]
  | .var id, h => by
      simp only [form, Form.All]
      exact h.named _ (List.mem_singleton_self _)
  | .binary op l r type, h => by
      have hl := all_form l (h.of_subset (by simp [Expr.refs]) (by simp [Expr.parts]))
      have hr := all_form r (h.of_subset (by simp [Expr.refs]) (by simp [Expr.parts]))
      simp only [form, Form.All]
      exact ⟨hl, hr⟩
  | .unary op e type, h => by
      have he := all_form e (h.of_subset (by simp [Expr.refs]) (by simp [Expr.parts]))
      simp only [form, Form.All]
      exact he
  | .ternary c y n type, h => by
      have hc := all_form c (h.of_subset (by simp [Expr.refs]) (by simp [Expr.parts]))
      have hy := all_form y
        (h.of_subset (by simp [Expr.refs]) fun part hpart ↦ by simp [Expr.parts, hpart])
      have hn := all_form n
        (h.of_subset (by simp [Expr.refs]) fun part hpart ↦ by simp [Expr.parts, hpart])
      simp only [form, Form.All]
      exact ⟨hc, hy, hn⟩
  | .call callee args type, h => by
      have hargs := all_forms args fun arg harg ↦ h.of_subset
        (List.subset_cons_of_subset _ (subset_allRefs harg))
        (List.subset_cons_of_subset _ (subset_allParts harg))
      simp only [form, Form.All]
      exact ⟨h.named _ List.mem_cons_self, hargs⟩
  | .index a i type, h => by
      have ha := all_form a (h.of_subset (by simp [Expr.refs]) (by simp [Expr.parts]))
      have hi := all_form i (h.of_subset (by simp [Expr.refs]) (by simp [Expr.parts]))
      simp only [form, Form.All]
      exact ⟨ha, hi⟩
  | .array items type, h => by
      have hitems := all_forms items fun item hitem ↦ h.of_subset (subset_allRefs hitem)
        (List.subset_cons_of_subset _ (subset_allParts hitem))
      simp only [form, Form.All]
      exact hitems

theorem all_forms : ∀ es : List Expr, (∀ e ∈ es, Writable names e) →
    Form.AllIn (Atom.Fits names) (forms es)
  | [], _ => by
      simp only [forms, Form.AllIn]
  | e :: es, h => by
      obtain ⟨he, hes⟩ := List.forall_mem_cons.1 h
      simp only [forms, Form.AllIn]
      exact ⟨all_form e he, all_forms es hes⟩

end

/-! ## The text of a form -/

theorem toList_inParens (text : String) :
    (inParens text).toList = '(' :: (text.toList ++ [')']) := by
  simp [inParens]

theorem toList_commaList (texts : List String) :
    (commaList texts).toList = List.intercalate [',', ' '] (texts.map String.toList) :=
  String.toList_intercalate

theorem text_map_signed (negative : Bool) (a : Atom) :
    ((signed negative a).map (Atom.text refer)).text =
      if negative then '(' :: '-' :: (a.text refer ++ [')']) else a.text refer := by
  cases negative <;> simp [signed, Form.map, Form.text, UnaryOp.text, UnaryOp.symbol, Symbol.text]

theorem toList_wholeText (n : Whole) :
    (wholeText n).toList =
      ((signed (n.toInt < 0) (.whole n.toInt.natAbs)).map (Atom.text refer)).text := by
  rw [text_map_signed, wholeText, Whole.text]
  by_cases hsign : n.toInt < 0
  · rw [if_pos hsign, toList_inParens, toList_toString, if_pos hsign]
    simp [hsign, Atom.text]
  · rw [if_neg hsign, toList_toString, if_neg hsign]
    simp [hsign, Atom.text]

theorem toList_doubleText {d : Double} (h : d.isFinite) :
    (doubleText d).toList =
      ((signed d.isNegative (.double (unsigned d))).map (Atom.text refer)).text := by
  rw [text_map_signed, doubleText, unsigned]
  cases hsign : d.isNegative with
  | true =>
      simp only [if_true]
      rw [toList_inParens, Double.toList_text_of_isNegative h hsign]
      rfl
  | false => rfl

mutual

/-- An expression is written as its form is. -/
theorem toList_render : ∀ e : Expr, (form e).All (Atom.Fits names) →
    (render refer e).toList = ((form e).map (Atom.text refer)).text
  | .int n, _ => by
      rw [render, form, toList_wholeText]
  | .double d, h => by
      rw [form, all_signed_iff, fits_unsigned_iff] at h
      rw [render, form, toList_doubleText h]
  | .bool b, _ | .string s, _ | .var id, _ => by
      rw [render, form, Form.map, Form.text, Atom.text]
  | .binary op l r type, h => by
      rw [form, Form.All] at h
      rw [render, form, Form.map, Form.text, toList_inParens]
      simp [toList_render l h.1, toList_render r h.2]
  | .unary op e type, h => by
      rw [form, Form.All] at h
      rw [render, form, Form.map, Form.text, toList_inParens]
      simp [toList_render e h]
  | .ternary c y n type, h => by
      rw [form, Form.All] at h
      rw [render, form, Form.map, Form.text, toList_inParens]
      simp [toList_render c h.1, toList_render y h.2.1, toList_render n h.2.2]
  | .call callee args type, h => by
      rw [form, Form.All] at h
      rw [render, form, Form.map, Form.text, String.toList_append, toList_inParens,
        toList_commaList, toList_renderAll args h.2, Atom.text]
  | .index a i type, h => by
      rw [form, Form.All] at h
      rw [render, form, Form.map, Form.text]
      simp [toList_render a h.1, toList_render i h.2]
  | .array items type, h => by
      rw [form, Form.All] at h
      rw [render, form, Form.map, Form.text]
      simp [toList_commaList, toList_renderAll items h]

theorem toList_renderAll : ∀ es : List Expr, Form.AllIn (Atom.Fits names) (forms es) →
    (renderAll refer es).map String.toList = Form.texts (Form.mapAll (Atom.text refer) (forms es))
  | [], _ => rfl
  | e :: es, h => by
      rw [forms, Form.AllIn] at h
      rw [renderAll, List.map_cons, toList_render e h.1, toList_renderAll es h.2]
      rfl

end

/-! ## Words -/

/-- A letter or an underscore, with letters, numbers and underscores behind it. -/
def isIdentifier (name : String) : Bool :=
  match name.toList with
  | [] => false
  | c :: cs => Munch.startsName c && cs.all Munch.continuesName

theorem not_mem_marks_of_isDigit {c : Char} (h : c.isDigit) : c ∉ Reader.marks := by
  have hmarks : Reader.marks.all fun c ↦ !c.isDigit := by decide
  intro hc
  simpa [h] using List.all_eq_true.1 hmarks c hc

theorem not_mem_marks_of_continuesName {c : Char} (h : Munch.continuesName c) :
    c ∉ Reader.marks := by
  have hmarks : Reader.marks.all fun c ↦ !Munch.continuesName c := by decide
  intro hc
  simpa [h] using List.all_eq_true.1 hmarks c hc

theorem ne_quote_of_not_mem_marks {c : Char} (h : c ∉ Reader.marks) : c ≠ '"' := by
  rintro rfl
  exact h (by decide)

theorem exists_cons_of_isIdentifier {name : String} (h : isIdentifier name) :
    ∃ c cs, name.toList = c :: cs ∧ Munch.startsName c ∧
      ∀ c' ∈ c :: cs, Munch.continuesName c' := by
  unfold isIdentifier at h
  split at h
  · cases h
  · rename_i c cs hname
    obtain ⟨hstart, hrest⟩ := Bool.and_eq_true_iff.1 h
    have hcontinues : Munch.continuesName c := by
      rw [Munch.startsName, Bool.or_eq_true] at hstart
      rw [Munch.continuesName, Bool.or_eq_true, Bool.or_eq_true]
      exact hstart.imp_left .inl
    exact ⟨c, cs, hname, hstart, List.forall_mem_cons.2 ⟨hcontinues, List.all_eq_true.1 hrest⟩⟩

theorem isWord_of_digit {c : Char} {cs : List Char} (hc : c.isDigit)
    (hcs : ∀ c' ∈ c :: cs, c'.isDigit ∨ c' ∈ ['.', 'e', '-']) : Reader.IsWord (c :: cs) := by
  refine ⟨by simp, ?_, fun c' hc' ↦ ?_⟩
  · rintro c' hc'
    cases hc'
    constructor <;> rintro rfl <;> revert hc <;> decide
  · rcases hcs c' hc' with hdigit | hother
    · exact not_mem_marks_of_isDigit hdigit
    · simp only [List.mem_cons, List.not_mem_nil, or_false] at hother
      rcases hother with rfl | rfl | rfl <;> decide

theorem isWord_of_isIdentifier {name : String} (h : isIdentifier name) :
    Reader.IsWord name.toList := by
  obtain ⟨c, cs, hname, hstart, hcontinues⟩ := exists_cons_of_isIdentifier h
  rw [hname]
  refine ⟨by simp, ?_, fun c' hc' ↦ not_mem_marks_of_continuesName (hcontinues c' hc')⟩
  rintro c' hc'
  cases hc'
  constructor <;> rintro rfl <;> revert hstart <;> decide

/-- What a word or a quoted text can stand for. -/
inductive Kind
  | whole | double | bool | string | entity
deriving DecidableEq

def Atom.kind : Atom → Kind
  | whole _ => .whole
  | double _ => .double
  | bool _ => .bool
  | string _ => .string
  | entity _ => .entity

/-- The kind of an atom as its text shows it. -/
def kindOf (text : List Char) : Kind :=
  if text.head? = some '"' then .string
  else if text.head?.any Char.isDigit then if text.all Char.isDigit then .whole else .double
  else if text = "true".toList ∨ text = "false".toList then .bool
  else .entity

theorem kindOf_digit {c : Char} {cs : List Char} (hc : c.isDigit) :
    kindOf (c :: cs) = if (c :: cs).all Char.isDigit then .whole else .double := by
  have hquote := ne_quote_of_not_mem_marks (not_mem_marks_of_isDigit hc)
  simp [kindOf, hquote, hc]

section

variable (hdistinct : names.Distinct) (hidentifier : ∀ name ∈ names.used, isIdentifier name)

include hidentifier in
theorem isAtom_text (entities : Entities) {a : Atom} (h : a.Fits names) :
    Reader.IsAtom (a.text (names.refer entities)) := by
  cases a with
  | whole n =>
      obtain ⟨c, cs, htext, hdigits⟩ := exists_toDigits_eq_cons n
      rw [Atom.text, htext]
      exact .inl (isWord_of_digit (hdigits c List.mem_cons_self) fun c' hc' ↦ .inl (hdigits c' hc'))
  | double d =>
      obtain ⟨c, cs, htext, hc⟩ := (Double.numeral_text h.1 h.2).exists_cons
      have hchars := (Double.numeral_text h.1 h.2).isDigit_or_mem
      rw [htext] at hchars
      rw [Atom.text, htext]
      exact .inl (isWord_of_digit hc hchars)
  | bool b =>
      have hwords : ∀ b : Bool, isIdentifier (if b then "true" else "false") := by decide
      exact .inl (isWord_of_isIdentifier (hwords b))
  | string s => exact .inr ⟨s, rfl⟩
  | entity e =>
      obtain ⟨name, hname⟩ := Option.isSome_iff_exists.1 h
      rw [Atom.text, Names.refer_eq_of_name? hname]
      exact .inl (isWord_of_isIdentifier (hidentifier name (Names.mem_used_of_name? hname)))

include hdistinct hidentifier in
theorem kindOf_text (entities : Entities) {a : Atom} (h : a.Fits names) :
    kindOf (a.text (names.refer entities)) = a.kind := by
  cases a with
  | whole n =>
      obtain ⟨c, cs, htext, hdigits⟩ := exists_toDigits_eq_cons n
      rw [Atom.text, htext, kindOf_digit (hdigits c List.mem_cons_self),
        if_pos (List.all_eq_true.2 hdigits)]
      rfl
  | double d =>
      obtain ⟨c, cs, htext, hc⟩ := (Double.numeral_text h.1 h.2).exists_cons
      obtain ⟨c', hc', hother⟩ := (Double.numeral_text h.1 h.2).exists_not_isDigit
      rw [htext] at hc'
      have hall : ¬ (c :: cs).all Char.isDigit := by
        intro hall
        rw [List.all_eq_true.1 hall c' hc'] at hother
        cases hother
      rw [Atom.text, htext, kindOf_digit hc, if_neg hall]
      rfl
  | bool b =>
      have hwords : ∀ b : Bool, kindOf (if b then "true" else "false").toList = .bool := by decide
      exact hwords b
  | string s =>
      rw [Atom.text, Text.quoted, String.toList_ofList]
      rfl
  | entity e =>
      obtain ⟨name, hname⟩ := Option.isSome_iff_exists.1 h
      have hused := Names.mem_used_of_name? hname
      obtain ⟨c, cs, htext, hstart, hcontinues⟩ :=
        exists_cons_of_isIdentifier (hidentifier name hused)
      have hquote := ne_quote_of_not_mem_marks
        (not_mem_marks_of_continuesName (hcontinues c List.mem_cons_self))
      have hbool : ¬ (name.toList = "true".toList ∨ name.toList = "false".toList) := by
        have hreserved := hdistinct.unreserved name hused
        rintro (htrue | hfalse)
        · rw [String.toList_injective htrue] at hreserved
          exact hreserved (by decide)
        · rw [String.toList_injective hfalse] at hreserved
          exact hreserved (by decide)
      rw [Atom.text, Names.refer_eq_of_name? hname, kindOf, if_neg (by simp [htext, hquote]),
        if_neg (by simp [htext, Munch.isDigit_eq_false_of_startsName hstart]), if_neg hbool]
      rfl

include hdistinct hidentifier in
/-- Different atoms are written differently. -/
theorem atom_eq_of_text_eq {a a' : Atom} (ha : a.Fits names) (ha' : a'.Fits names)
    (h : a.text (names.refer entities) = a'.text (names.refer entities)) : a = a' := by
  have hkind : a.kind = a'.kind := by
    rw [← kindOf_text hdistinct hidentifier entities ha, h,
      kindOf_text hdistinct hidentifier entities ha']
  cases a with
  | whole n =>
      cases a' <;> simp only [Atom.kind, reduceCtorEq] at hkind
      rename_i n'
      rw [← digitsValue_toDigits n, ← digitsValue_toDigits n']
      exact congrArg (fun digits ↦ Atom.whole (digitsValue digits)) h
  | double d =>
      cases a' <;> simp only [Atom.kind, reduceCtorEq] at hkind
      rw [Double.eq_of_text_eq ha.1 ha'.1 ha.2 ha'.2 h]
  | bool b =>
      cases a' <;> simp only [Atom.kind, reduceCtorEq] at hkind
      rename_i b'
      have hwords : ∀ b b' : Bool, (if b then "true" else "false").toList =
          (if b' then "true" else "false").toList → b = b' := by decide
      rw [hwords b b' h]
  | string s =>
      cases a' <;> simp only [Atom.kind, reduceCtorEq] at hkind
      rw [Text.quoted_injective (String.toList_injective h)]
  | entity e =>
      cases a' <;> simp only [Atom.kind, reduceCtorEq] at hkind
      obtain ⟨name, hname⟩ := Option.isSome_iff_exists.1 ha
      obtain ⟨name', hname'⟩ := Option.isSome_iff_exists.1 ha'
      rw [Atom.text, Atom.text, Names.refer_eq_of_name? hname, Names.refer_eq_of_name? hname'] at h
      rw [← String.toList_injective h] at hname'
      rw [hdistinct.eq_of_name? hname hname']

end

/-! ## Expressions -/

theorem Names.read_expr (entities : Entities)
    (hidentifier : ∀ name ∈ names.used, isIdentifier name) {e : Expr}
    (h : (form e).All (Atom.Fits names)) :
    Reader.read (names.expr entities e).toList =
      some ((form e).map (Atom.text (names.refer entities))) := by
  rw [Names.expr, toList_render e h]
  exact Reader.read_text (Form.All.map (fun _ ↦ isAtom_text hidentifier entities) (form e) h)

/-- Reading the text of an expression gives its form back, and two expressions are written alike
exactly when they have the same form: they differ only in types, and in whether a negative literal
is written as such or as the negation of its magnitude. -/
theorem Names.expr_unambiguous (hdistinct : names.Distinct)
    (hidentifier : ∀ name ∈ names.used, isIdentifier name) {e e' : Expr} (h : Writable names e)
    (h' : Writable names e') :
    Reader.read (names.expr entities e).toList =
        some ((form e).map (Atom.text (names.refer entities))) ∧
      (names.expr entities e = names.expr entities e' ↔ form e = form e') := by
  have hfits := all_form e h
  have hfits' := all_form e' h'
  have hread := Names.read_expr entities hidentifier hfits
  refine ⟨hread, fun htext ↦ ?_, fun hform ↦ ?_⟩
  · rw [htext, Names.read_expr entities hidentifier hfits'] at hread
    exact Form.eq_of_map_eq
      (fun a a' ha ha' ↦ atom_eq_of_text_eq hdistinct hidentifier ha ha') _ _ hfits hfits'
      (Option.some.inj hread).symm
  · apply String.toList_injective
    rw [Names.expr, Names.expr, toList_render e hfits, toList_render e' hfits', hform]

theorem Names.expr_unambiguous_negation :
    let names : Names := ⟨[(.variable ⟨0⟩, "x"), (.function ⟨0⟩, "f")]⟩
    let item : Expr := .call ⟨0⟩ [.string "\"], [(", .var ⟨0⟩] .int
    let literal : Expr :=
      .index (.array [item, .double ⟨0x8000000000000000⟩] (.array .int)) item .int
    let negated : Expr :=
      .index (.array [item, .unary .neg (.double .zero) .double] (.array .double)) item .double
    Writable names literal ∧ Writable names negated ∧
      names.expr .empty literal = names.expr .empty negated := by
  intro names item literal negated
  have hdistinct : names.Distinct := ⟨by decide, by decide⟩
  have hliteral : Writable names literal := by
    refine ⟨by decide, ?_⟩
    simp [literal, item, Expr.parts, Expr.allParts]
    decide
  have hnegated : Writable names negated := by
    refine ⟨by decide, ?_⟩
    simp [negated, item, Expr.parts, Expr.allParts]
    decide
  have hform : form literal = form negated := by rfl
  exact ⟨hliteral, hnegated,
    (Names.expr_unambiguous hdistinct (by decide) hliteral hnegated).2.2 hform⟩

end Script
end Barista
