import Barista.Script.Expression
import Barista.Proofs.Text.Quoted

/-!
# Reading a written expression back

A form is an expression without its types.  Its text is read back by a machine that takes one
character at a time and keeps a stack of what is still open.  An operator is only looked at when it
stands between blanks behind a complete operand, and never compared with another one, so no
precedence plays a part.
-/

namespace Barista
namespace Script

/-- An expression without its types, over atoms of any kind.  A callee is an atom too. -/
inductive Form (α : Type)
  | atom (a : α)
  | unary (op : UnaryOp) (operand : Form α)
  | binary (op : BinaryOp) (left right : Form α)
  | ternary (test yes no : Form α)
  | call (callee : α) (args : List (Form α))
  | index (array position : Form α)
  | array (items : List (Form α))

namespace Form

variable {α β : Type}

mutual

def map (f : α → β) : Form α → Form β
  | .atom a => .atom (f a)
  | .unary op e => .unary op (map f e)
  | .binary op l r => .binary op (map f l) (map f r)
  | .ternary c y n => .ternary (map f c) (map f y) (map f n)
  | .call callee args => .call (f callee) (mapAll f args)
  | .index a i => .index (map f a) (map f i)
  | .array items => .array (mapAll f items)

def mapAll (f : α → β) : List (Form α) → List (Form β)
  | [] => []
  | e :: es => map f e :: mapAll f es

end

mutual

/-- All atoms have the property `p`. -/
def All (p : α → Prop) : Form α → Prop
  | .atom a => p a
  | .unary _ e => All p e
  | .binary _ l r => All p l ∧ All p r
  | .ternary c y n => All p c ∧ All p y ∧ All p n
  | .call callee args => p callee ∧ AllIn p args
  | .index a i => All p a ∧ All p i
  | .array items => AllIn p items

def AllIn (p : α → Prop) : List (Form α) → Prop
  | [] => True
  | e :: es => All p e ∧ AllIn p es

end

mutual

/-- The text of a form whose atoms are words. -/
def text : Form (List Char) → List Char
  | .atom word => word
  | .unary op e => '(' :: (op.text.toList ++ (text e ++ [')']))
  | .binary op l r => '(' :: (text l ++ ' ' :: ((operator op).toList ++ ' ' :: (text r ++ [')'])))
  | .ternary c y n =>
    '(' :: (text c ++ ' ' :: (['?'] ++ ' ' ::
      (text y ++ ' ' :: ([':'] ++ ' ' :: (text n ++ [')'])))))
  | .call callee args => callee ++ '(' :: (List.intercalate [',', ' '] (texts args) ++ [')'])
  | .index a i => text a ++ '[' :: (text i ++ [']'])
  | .array items => '[' :: (List.intercalate [',', ' '] (texts items) ++ [']'])

def texts : List (Form (List Char)) → List (List Char)
  | [] => []
  | e :: es => text e :: texts es

end

mutual

theorem All.map {p : α → Prop} {q : β → Prop} {f : α → β} (hf : ∀ a, p a → q (f a)) :
    ∀ e : Form α, e.All p → (e.map f).All q
  | .atom a, h => by
      simp only [All, Form.map] at h ⊢
      exact hf a h
  | .unary op e, h => by
      simp only [All, Form.map] at h ⊢
      exact All.map hf e h
  | .binary op l r, h => by
      simp only [All, Form.map] at h ⊢
      exact ⟨All.map hf l h.1, All.map hf r h.2⟩
  | .ternary c y n, h => by
      simp only [All, Form.map] at h ⊢
      exact ⟨All.map hf c h.1, All.map hf y h.2.1, All.map hf n h.2.2⟩
  | .call callee args, h => by
      simp only [All, Form.map] at h ⊢
      exact ⟨hf callee h.1, AllIn.map hf args h.2⟩
  | .index a i, h => by
      simp only [All, Form.map] at h ⊢
      exact ⟨All.map hf a h.1, All.map hf i h.2⟩
  | .array items, h => by
      simp only [All, Form.map] at h ⊢
      exact AllIn.map hf items h

theorem AllIn.map {p : α → Prop} {q : β → Prop} {f : α → β} (hf : ∀ a, p a → q (f a)) :
    ∀ es : List (Form α), AllIn p es → AllIn q (mapAll f es)
  | [], _ => by
      simp only [AllIn, mapAll]
  | e :: es, h => by
      simp only [AllIn, mapAll] at h ⊢
      exact ⟨All.map hf e h.1, AllIn.map hf es h.2⟩

end

mutual

/-- A map that tells the atoms apart tells the forms apart. -/
theorem eq_of_map_eq {p : α → Prop} {f : α → β} (hf : ∀ a b, p a → p b → f a = f b → a = b) :
    ∀ e e' : Form α, e.All p → e'.All p → e.map f = e'.map f → e = e'
  | .atom a, e', h, h', heq => by
      cases e' <;> simp only [Form.map, reduceCtorEq, atom.injEq] at heq
      simp only [All] at h h'
      rw [hf _ _ h h' heq]
  | .unary op e, e', h, h', heq => by
      cases e' <;> simp only [Form.map, reduceCtorEq, unary.injEq] at heq
      simp only [All] at h h'
      rw [heq.1, eq_of_map_eq hf _ _ h h' heq.2]
  | .binary op l r, e', h, h', heq => by
      cases e' <;> simp only [Form.map, reduceCtorEq, binary.injEq] at heq
      simp only [All] at h h'
      rw [heq.1, eq_of_map_eq hf _ _ h.1 h'.1 heq.2.1, eq_of_map_eq hf _ _ h.2 h'.2 heq.2.2]
  | .ternary c y n, e', h, h', heq => by
      cases e' <;> simp only [Form.map, reduceCtorEq, ternary.injEq] at heq
      simp only [All] at h h'
      rw [eq_of_map_eq hf _ _ h.1 h'.1 heq.1, eq_of_map_eq hf _ _ h.2.1 h'.2.1 heq.2.1,
        eq_of_map_eq hf _ _ h.2.2 h'.2.2 heq.2.2]
  | .call callee args, e', h, h', heq => by
      cases e' <;> simp only [Form.map, reduceCtorEq, call.injEq] at heq
      simp only [All] at h h'
      rw [hf _ _ h.1 h'.1 heq.1, eq_of_mapAll_eq hf _ _ h.2 h'.2 heq.2]
  | .index a i, e', h, h', heq => by
      cases e' <;> simp only [Form.map, reduceCtorEq, index.injEq] at heq
      simp only [All] at h h'
      rw [eq_of_map_eq hf _ _ h.1 h'.1 heq.1, eq_of_map_eq hf _ _ h.2 h'.2 heq.2]
  | .array items, e', h, h', heq => by
      cases e' <;> simp only [Form.map, reduceCtorEq, array.injEq] at heq
      simp only [All] at h h'
      rw [eq_of_mapAll_eq hf _ _ h h' heq]

theorem eq_of_mapAll_eq {p : α → Prop} {f : α → β} (hf : ∀ a b, p a → p b → f a = f b → a = b) :
    ∀ es es' : List (Form α), AllIn p es → AllIn p es' → mapAll f es = mapAll f es' → es = es'
  | [], es', _, _, heq => by
      cases es' <;> simp only [mapAll, reduceCtorEq] at heq
      rfl
  | e :: es, es', h, h', heq => by
      cases es' <;> simp only [mapAll, reduceCtorEq, List.cons.injEq] at heq
      simp only [AllIn] at h h'
      rw [eq_of_map_eq hf _ _ h.1 h'.1 heq.1, eq_of_mapAll_eq hf _ _ h.2 h'.2 heq.2]

end

end Form

/-! ## The reader -/

/-- What is open around an expression: a group whose kind is not known yet, a sign, a left operand,
the parts of a ternary, the items in front of it in a list, or the array that it is an index of. -/
inductive Frame
  | group
  | sign (op : UnaryOp)
  | operand (op : BinaryOp) (left : Form (List Char))
  | test (test : Form (List Char))
  | branch (test yes : Form (List Char))
  | items (callee : Option (List Char)) (front : List (Form (List Char)))
  | position (array : Form (List Char))

/-- What was read within the innermost frame.  Characters are kept last first. -/
inductive Focus
  | blank
  | word (back : List Char)
  | quote (escaped : Bool) (back : List Char)
  | after (form : Form (List Char))
  | between (form : Form (List Char)) (back : List Char)

def Focus.form? : Focus → Option (Form (List Char))
  | .word back => some (.atom back.reverse)
  | .after form => some form
  | _ => none

structure Reader where
  frames : List Frame
  focus : Focus

namespace Reader

def marks : List Char := ['(', ')', '[', ']', ',', ' ', '"']

def operators : List BinaryOp :=
  [.add, .sub, .mul, .div, .pow, .lt, .le, .eq, .ne, .ge, .gt, .and, .or]

def operator? (word : List Char) : Option BinaryOp :=
  operators.find? fun op ↦ (operator op).toList = word

/-- A character where an expression begins. -/
def begin? (frames : List Frame) (c : Char) : Option Reader :=
  match c, frames with
  | ' ', _ => some ⟨frames, .blank⟩
  | '(', _ => some ⟨.group :: frames, .blank⟩
  | '[', _ => some ⟨.items none [] :: frames, .blank⟩
  | '"', _ => some ⟨frames, .quote false ['"']⟩
  | '-', .group :: frames => some ⟨.sign .neg :: frames, .blank⟩
  | '!', .group :: frames => some ⟨.sign .not :: frames, .blank⟩
  | ')', .items (some callee) [] :: frames => some ⟨frames, .after (.call callee [])⟩
  | ']', .items none [] :: frames => some ⟨frames, .after (.array [])⟩
  | c, _ => some ⟨frames, .word [c]⟩

/-- A mark behind an expression. -/
def end? (frames : List Frame) (e : Form (List Char)) (c : Char) : Option Reader :=
  match c with
  | ' ' => some ⟨frames, .between e []⟩
  | '[' => some ⟨.position e :: frames, .blank⟩
  | '(' =>
    match e with
    | .atom callee => some ⟨.items (some callee) [] :: frames, .blank⟩
    | _ => none
  | ',' =>
    match frames with
    | .items callee front :: frames => some ⟨.items callee (e :: front) :: frames, .blank⟩
    | _ => none
  | ')' =>
    match frames with
    | .sign op :: frames => some ⟨frames, .after (.unary op e)⟩
    | .operand op left :: frames => some ⟨frames, .after (.binary op left e)⟩
    | .branch test yes :: frames => some ⟨frames, .after (.ternary test yes e)⟩
    | .items (some callee) front :: frames =>
      some ⟨frames, .after (.call callee (e :: front).reverse)⟩
    | _ => none
  | ']' =>
    match frames with
    | .items none front :: frames => some ⟨frames, .after (.array (e :: front).reverse)⟩
    | .position array :: frames => some ⟨frames, .after (.index array e)⟩
    | _ => none
  | _ => none

/-- The word between two blanks, behind the expression `e`. -/
def resume? (frames : List Frame) (e : Form (List Char)) (word : List Char) : Option Reader :=
  match frames with
  | .group :: frames =>
    if word = ['?'] then some ⟨.test e :: frames, .blank⟩
    else (operator? word).map fun op ↦ ⟨.operand op e :: frames, .blank⟩
  | .test test :: frames => if word = [':'] then some ⟨.branch test e :: frames, .blank⟩ else none
  | _ => none

def step (r : Reader) (c : Char) : Option Reader :=
  match r.focus with
  | .blank => begin? r.frames c
  | .word back =>
    if c ∈ marks then end? r.frames (.atom back.reverse) c
    else some ⟨r.frames, .word (c :: back)⟩
  | .quote true back => some ⟨r.frames, .quote false (c :: back)⟩
  | .quote false back =>
    if c = '"' then some ⟨r.frames, .after (.atom (c :: back).reverse)⟩
    else some ⟨r.frames, .quote (c = '\\') (c :: back)⟩
  | .after e => end? r.frames e c
  | .between e back =>
    if c = ' ' then resume? r.frames e back.reverse else some ⟨r.frames, .between e (c :: back)⟩

def run (r : Reader) (text : List Char) : Option Reader :=
  text.foldlM step r

/-- The form of a text in which nothing is left open. -/
def read (text : List Char) : Option (Form (List Char)) :=
  match run ⟨[], .blank⟩ text with
  | some ⟨[], focus⟩ => focus.form?
  | _ => none

variable {r : Reader} {frames : List Frame} {focus : Focus} {e : Form (List Char)} {c : Char}
  {word rest text : List Char}

theorem run_cons : run r (c :: rest) = (step r c).bind fun r ↦ run r rest := rfl

theorem run_append : run r (text ++ rest) = (run r text).bind fun r ↦ run r rest :=
  List.foldlM_append

/-! ## Atoms -/

/-- A word without marks that no sign begins. -/
structure IsWord (word : List Char) : Prop where
  ne_nil : word ≠ []
  unsigned : ∀ c ∈ word.head?, c ≠ '-' ∧ c ≠ '!'
  unmarked : ∀ c ∈ word, c ∉ marks

def IsAtom (word : List Char) : Prop :=
  IsWord word ∨ ∃ s : String, word = (Text.quoted s).toList

theorem begin?_word (hmark : c ∉ marks) (hsign : c ≠ '-' ∧ c ≠ '!') :
    begin? frames c = some ⟨frames, .word [c]⟩ := by
  simp only [marks, List.mem_cons, List.not_mem_nil, or_false, not_or] at hmark
  unfold begin?
  split <;> simp_all

theorem run_word (h : ∀ c ∈ word, c ∉ marks) (back : List Char) :
    run ⟨frames, .word back⟩ word = some ⟨frames, .word (word.reverse ++ back)⟩ := by
  induction word generalizing back with
  | nil => rfl
  | cons c cs ih =>
      obtain ⟨hc, hcs⟩ := List.forall_mem_cons.1 h
      simp only [run_cons, step, if_neg hc, Option.bind_some, ih hcs, List.reverse_cons,
        List.append_assoc, List.singleton_append]

theorem run_plain {plain : List Char} (h : ∀ c ∈ plain, c ≠ '"' ∧ c ≠ '\\') (back : List Char) :
    run ⟨frames, .quote false back⟩ plain =
      some ⟨frames, .quote false (plain.reverse ++ back)⟩ := by
  induction plain generalizing back with
  | nil => rfl
  | cons c cs ih =>
      obtain ⟨hc, hcs⟩ := List.forall_mem_cons.1 h
      simp only [run_cons, step, if_neg hc.1, decide_eq_false hc.2, Option.bind_some, ih hcs,
        List.reverse_cons, List.append_assoc, List.singleton_append]

theorem run_escape (c : Char) (back : List Char) :
    run ⟨frames, .quote false back⟩ (Text.escape c) =
      some ⟨frames, .quote false ((Text.escape c).reverse ++ back)⟩ := by
  rcases Text.escape_cases c with ⟨hself, hc⟩ | ⟨mark, plain, hescape, hplain⟩
  · rw [hself]
    exact run_plain (by simpa using hc) back
  · have hbackslash : ('\\' : Char) ≠ '"' := by decide
    rw [hescape]
    simp only [run_cons, step, if_neg hbackslash, decide_true, Option.bind_some,
      run_plain hplain, List.reverse_cons, List.append_assoc, List.cons_append, List.nil_append]

theorem run_escapes (cs back : List Char) :
    run ⟨frames, .quote false back⟩ (cs.flatMap Text.escape) =
      some ⟨frames, .quote false ((cs.flatMap Text.escape).reverse ++ back)⟩ := by
  induction cs generalizing back with
  | nil => rfl
  | cons c cs ih =>
      rw [List.flatMap_cons, run_append, run_escape, Option.bind_some, ih, List.reverse_append,
        List.append_assoc]

/-! ## Forms -/

/-- Reading the text where an expression may begin gives the expression, and leaves what is open
around it alone. -/
def Reads (text : List Char) (e : Form (List Char)) : Prop :=
  ∀ frames, ∃ focus : Focus, focus.form? = some e ∧
    run ⟨frames, .blank⟩ text = some ⟨frames, focus⟩

theorem reads_atom (h : IsAtom word) : Reads word (.atom word) := by
  intro frames
  rcases h with h | ⟨s, rfl⟩
  · obtain ⟨c, cs, rfl⟩ := List.exists_cons_of_ne_nil h.ne_nil
    obtain ⟨hc, hcs⟩ := List.forall_mem_cons.1 h.unmarked
    have hbegin : begin? frames c = some ⟨frames, .word [c]⟩ := begin?_word hc (h.unsigned c rfl)
    refine ⟨.word (cs.reverse ++ [c]), by simp [Focus.form?], ?_⟩
    simp only [run_cons, step, hbegin, Option.bind_some, run_word hcs]
  · have htext : (Text.quoted s).toList = '"' :: (s.toList.flatMap Text.escape ++ ['"']) := by
      rw [Text.quoted, String.toList_ofList, List.cons_append]
    refine ⟨.after (.atom (Text.quoted s).toList), rfl, ?_⟩
    rw [htext, run_cons, step, begin?, Option.bind_some, Reader.run_append, run_escapes,
      Option.bind_some, run_cons]
    simp [step, run]

/-- A mark ends the expression in front of it. -/
theorem Reads.run_mark (h : Reads text e) (hmark : c ∈ marks) :
    run ⟨frames, .blank⟩ (text ++ c :: rest) = (end? frames e c).bind fun r ↦ run r rest := by
  obtain ⟨focus, hform, hrun⟩ := h frames
  rw [run_append, hrun, Option.bind_some, run_cons]
  congr 1
  cases focus with
  | word back =>
      cases hform
      simp only [step, if_pos hmark]
  | after form =>
      cases hform
      rfl
  | blank => cases hform
  | quote escaped back => cases hform
  | between form back => cases hform

theorem run_between (h : ' ' ∉ word) (back : List Char) :
    run ⟨frames, .between e back⟩ (word ++ ' ' :: rest) =
      (resume? frames e (back.reverse ++ word)).bind fun r ↦ run r rest := by
  induction word generalizing back with
  | nil => simp only [List.nil_append, run_cons, step, if_pos, List.append_nil]
  | cons c cs ih =>
      obtain ⟨hc, hcs⟩ := not_or.1 (mt List.mem_cons.2 h)
      rw [List.cons_append, run_cons, step]
      simp only [if_neg (Ne.symm hc), Option.bind_some, ih hcs, List.reverse_cons,
        List.append_assoc, List.singleton_append]

/-- An expression with a word between blanks behind it. -/
theorem Reads.run_resume (h : Reads text e) (hword : ' ' ∉ word) :
    run ⟨frames, .blank⟩ (text ++ ' ' :: (word ++ ' ' :: rest)) =
      (resume? frames e word).bind fun r ↦ run r rest := by
  rw [h.run_mark (by decide), end?, Option.bind_some, run_between hword]
  rfl

theorem operator?_operator (op : BinaryOp) : operator? (operator op).toList = some op := by
  cases op <;> decide

theorem operator_ne (op : BinaryOp) :
    (operator op).toList ≠ ['?'] ∧ ' ' ∉ (operator op).toList := by
  cases op <;> decide

theorem begin?_sign (op : UnaryOp) (frames : List Frame) :
    run ⟨.group :: frames, .blank⟩ (op.text.toList ++ rest) =
      run ⟨.sign op :: frames, .blank⟩ rest := by
  cases op <;> rfl

/-- What closes a list of items, and what it then is. -/
def closing : Option (List Char) → Char
  | some _ => ')'
  | none => ']'

def closed : Option (List Char) → List (Form (List Char)) → Form (List Char)
  | some callee, items => .call callee items
  | none, items => .array items

theorem closing_mem_marks (callee : Option (List Char)) : closing callee ∈ marks := by
  cases callee <;> simp [closing, marks]

theorem run_items_cons (callee : Option (List Char)) (front : List (Form (List Char)))
    {es : List (Form (List Char))}
    (h : ∀ e' ∈ e :: es, Reads e'.text e') :
    run ⟨.items callee front :: frames, .blank⟩
      (List.intercalate [',', ' '] (Form.texts (e :: es)) ++ [closing callee]) =
        some ⟨frames, .after (closed callee (front.reverse ++ e :: es))⟩ := by
  induction es generalizing e front with
  | nil =>
      have he := h e List.mem_cons_self
      rw [Form.texts, Form.texts, List.intercalate_singleton,
        he.run_mark (closing_mem_marks callee)]
      cases callee <;> simp [end?, closing, closed, run]
  | cons e' es ih =>
      obtain ⟨he, hes⟩ := List.forall_mem_cons.1 h
      have hrest := ih (e :: front) hes
      rw [Form.texts] at hrest
      rw [Form.texts, Form.texts, List.intercalate_cons_cons, List.append_assoc, List.append_assoc,
        List.cons_append, he.run_mark (by decide), end?, Option.bind_some]
      rw [List.cons_append, run_cons, step, begin?, Option.bind_some, List.nil_append, hrest,
        List.reverse_cons, List.append_assoc, List.singleton_append]

theorem run_items (callee : Option (List Char)) {es : List (Form (List Char))}
    (h : ∀ e ∈ es, Reads e.text e) :
    run ⟨.items callee [] :: frames, .blank⟩
      (List.intercalate [',', ' '] (Form.texts es) ++ [closing callee]) =
        some ⟨frames, .after (closed callee es)⟩ := by
  cases es with
  | nil => cases callee <;> rfl
  | cons e es => exact run_items_cons callee [] h

mutual

theorem reads_text : ∀ e : Form (List Char), e.All IsAtom → Reads e.text e
  | .atom word, h => by
      rw [Form.All] at h
      rw [Form.text]
      exact reads_atom h
  | .unary op e, h => by
      rw [Form.All] at h
      intro frames
      refine ⟨.after (.unary op e), rfl, ?_⟩
      rw [Form.text, run_cons, step, begin?, Option.bind_some, begin?_sign,
        (reads_text e h).run_mark (by decide)]
      rfl
  | .binary op l r, h => by
      rw [Form.All] at h
      obtain ⟨hne, hblank⟩ := operator_ne op
      intro frames
      refine ⟨.after (.binary op l r), rfl, ?_⟩
      rw [Form.text, run_cons, step, begin?, Option.bind_some, (reads_text l h.1).run_resume hblank,
        resume?, if_neg hne, operator?_operator, Option.map_some, Option.bind_some,
        (reads_text r h.2).run_mark (by decide)]
      rfl
  | .ternary c y n, h => by
      rw [Form.All] at h
      intro frames
      refine ⟨.after (.ternary c y n), rfl, ?_⟩
      rw [Form.text, run_cons, step, begin?, Option.bind_some,
        (reads_text c h.1).run_resume (by decide), resume?, if_pos rfl, Option.bind_some,
        (reads_text y h.2.1).run_resume (by decide), resume?, if_pos rfl, Option.bind_some,
        (reads_text n h.2.2).run_mark (by decide)]
      rfl
  | .call callee args, h => by
      rw [Form.All] at h
      intro frames
      refine ⟨.after (.call callee args), rfl, ?_⟩
      rw [Form.text, (reads_atom h.1).run_mark (by decide), end?, Option.bind_some]
      exact run_items (some callee) (reads_texts args h.2)
  | .index a i, h => by
      rw [Form.All] at h
      intro frames
      refine ⟨.after (.index a i), rfl, ?_⟩
      rw [Form.text, (reads_text a h.1).run_mark (by decide), end?, Option.bind_some,
        (reads_text i h.2).run_mark (by decide)]
      rfl
  | .array items, h => by
      rw [Form.All] at h
      intro frames
      refine ⟨.after (.array items), rfl, ?_⟩
      rw [Form.text, run_cons, step, begin?, Option.bind_some]
      exact run_items none (reads_texts items h)

theorem reads_texts : ∀ es : List (Form (List Char)), Form.AllIn IsAtom es →
    ∀ e ∈ es, Reads e.text e
  | [], _ => fun _ he ↦ by cases he
  | e :: es, h => by
      rw [Form.AllIn] at h
      exact List.forall_mem_cons.2 ⟨reads_text e h.1, reads_texts es h.2⟩

end

/-- The text of a form gives the form back. -/
theorem read_text (h : e.All IsAtom) : read e.text = some e := by
  obtain ⟨focus, hform, hrun⟩ := reads_text e h []
  rw [read, hrun]
  exact hform

end Reader
end Script
end Barista
