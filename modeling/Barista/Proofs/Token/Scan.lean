import Barista.Token.Stream

/-!
# The stream of a text

What a scan does, one piece at a time: where its items stand, what lies between them, and that a
line break ends every piece, so that the two sides of a line break are scanned apart.
-/

namespace Barista

open Text (byteWidth)

/-! ## One piece -/

namespace Munch

theorem isFinite_of_doubleLiteral {text : List Char} {d : Double}
    (h : doubleLiteral text = .token (.double d)) : d.isFinite = true := by
  rw [doubleLiteral] at h
  split at h
  · split at h
    · cases h
      assumption
    · cases h
  · cases h

theorem wholeLiteral_ne_double {text : List Char} {d : Double} :
    wholeLiteral text ≠ .token (.double d) := by
  rw [wholeLiteral]
  cases Whole.ofInt? (digitsValue text) <;> nofun

theorem isFinite_of_number {c : Char} {cs : List Char} {d : Double}
    (h : (number c cs).1 = .token (.double d)) : d.isFinite = true := by
  rw [number] at h
  dsimp only at h
  split at h
  · exact (wholeLiteral_ne_double h).elim
  · exact isFinite_of_doubleLiteral h

theorem string_ne_double {cs : List Char} {d : Double} : (string cs).1 ≠ .token (.double d) := by
  intro h
  rw [string] at h
  split at h
  · split at h <;> cases h
  · cases h

theorem word_ne_double {text : List Char} {next : Option Char} {d : Double} :
    word text next ≠ .double d := by
  intro h
  rw [word] at h
  split at h
  · split at h <;> cases h
  · cases h

theorem pair?_ne_double {c c' : Char} {d : Double} : pair? c c' ≠ some (.double d) := by
  intro h
  unfold pair? at h
  split at h <;> cases h

theorem single?_ne_double {c : Char} {d : Double} : single? c ≠ some (.double d) := by
  intro h
  unfold single? at h
  split at h <;> cases h

theorem mark_ne_double {c : Char} {cs : List Char} {d : Double} :
    (mark c cs).1 ≠ .token (.double d) := by
  intro h
  rw [mark] at h
  split at h
  · rename_i token hpair
    cases h
    obtain ⟨c', -, hc'⟩ := Option.bind_eq_some_iff.1 hpair
    exact pair?_ne_double hc'
  · split at h
    · rename_i token hsingle
      cases h
      exact single?_ne_double hsingle
    · cases h

end Munch

open Munch in
/-- The doubles of a text are finite. -/
theorem isFinite_of_munch {c : Char} {cs : List Char} {d : Double}
    (h : (munch c cs).1 = .token (.double d)) : d.isFinite = true := by
  rw [munch] at h
  split at h
  · cases h
  split at h
  · cases h
  split at h
  · exact isFinite_of_number h
  split at h
  · exact (string_ne_double h).elim
  split at h
  · exact (word_ne_double (Piece.token.inj h)).elim
  · exact (mark_ne_double h).elim

namespace Munch

/-- The text of the piece at the front. -/
def front (c : Char) (cs : List Char) : List Char := c :: cs.take (munch c cs).2

/-- The text behind that piece. -/
def behind (c : Char) (cs : List Char) : List Char := cs.drop (munch c cs).2

theorem front_append_behind (c : Char) (cs : List Char) : front c cs ++ behind c cs = c :: cs := by
  rw [front, behind, List.cons_append, List.take_append_drop]

theorem length_behind_lt (c : Char) (cs : List Char) : (behind c cs).length < (c :: cs).length := by
  rw [behind, List.length_drop, List.length_cons]
  omega

end Munch

/-! ## One step of a scan -/

namespace Item

open Munch (front behind front_append_behind length_behind_lt)

variable {start : Nat} {onNewLine : Bool} {c : Char} {cs : List Char}

/-- What a piece adds to the stream. -/
def ofPiece (start : Nat) (onNewLine : Bool) (text : List Char) : Piece → List Item
  | .gap => []
  | .token token => [lexeme ⟨token, ⟨start, start + byteWidth text⟩, onNewLine⟩]
  | .reject => [fault ⟨.ofText text, ⟨start, start + byteWidth text⟩⟩]

/-- Whether a line break has been passed since the last item, behind a piece. -/
def lineAfter (onNewLine : Bool) (text : List Char) : Piece → Bool
  | .gap => onNewLine || text.contains '\n'
  | _ => false

theorem scan_cons : scan start onNewLine 0 (c :: cs) =
    ofPiece start onNewLine (front c cs) (munch c cs).1 ++
      scan (start + byteWidth (front c cs)) (lineAfter onNewLine (front c cs) (munch c cs).1) 0
        (behind c cs) := by
  rw [scan]
  dsimp only
  split <;> rename_i hpiece <;> rw [scan_skip, hpiece] <;> rfl

/-- A scan goes on piece by piece to the end of the text. -/
theorem scan_induction {P : Nat → Bool → List Char → Prop}
    (nil : ∀ start onNewLine, P start onNewLine [])
    (cons : ∀ start onNewLine c cs,
      P (start + byteWidth (front c cs)) (lineAfter onNewLine (front c cs) (munch c cs).1)
        (behind c cs) →
      P start onNewLine (c :: cs))
    (start : Nat) (onNewLine : Bool) : (cs : List Char) → P start onNewLine cs
  | [] => nil start onNewLine
  | c :: cs => cons start onNewLine c cs (scan_induction nil cons _ _ _)
termination_by cs => cs.length
decreasing_by exact length_behind_lt c cs

/-- Every item is the first of the scan that begins at its place. -/
theorem exists_scan_eq_cons {item : Item} {items others : List Item}
    (h : scan start onNewLine 0 cs = items ++ item :: others) :
    ∃ before d ds line, cs = before ++ d :: ds ∧ (munch d ds).1 ≠ .gap ∧
      scan (start + byteWidth before) line 0 (d :: ds) = item :: others := by
  induction start, onNewLine, cs using scan_induction generalizing items with
  | nil => simp [scan] at h
  | cons start onNewLine c cs ih =>
      by_cases hhere : items = [] ∧ (munch c cs).1 ≠ .gap
      · rw [hhere.1] at h
        exact ⟨[], c, cs, onNewLine, rfl, hhere.2, h⟩
      · have hlater : ∃ items', scan (start + byteWidth (front c cs))
            (lineAfter onNewLine (front c cs) (munch c cs).1) 0 (behind c cs) =
              items' ++ item :: others := by
          rw [scan_cons] at h
          cases hpiece : (munch c cs).1 with
          | gap =>
              rw [hpiece] at h
              exact ⟨items, h⟩
          | token token | reject =>
              rw [hpiece] at h hhere
              obtain ⟨first, items', rfl⟩ : ∃ first items', items = first :: items' := by
                apply List.exists_cons_of_ne_nil
                intro hnil
                exact hhere ⟨hnil, Piece.noConfusion⟩
              exact ⟨items', (List.cons.inj h).2⟩
        obtain ⟨items', hlater⟩ := hlater
        obtain ⟨before, d, ds, line, htext, hgap, hscan⟩ := ih hlater
        refine ⟨front c cs ++ before, d, ds, line, ?_, hgap, ?_⟩
        · rw [List.append_assoc, ← htext, front_append_behind]
        · rw [Text.byteWidth_append, ← Nat.add_assoc]
          exact hscan

theorem isFinite_of_mem_scan {d : Double} {span : Span} {line : Bool}
    (h : lexeme ⟨.double d, span, line⟩ ∈ scan start onNewLine 0 cs) : d.isFinite = true := by
  induction start, onNewLine, cs using scan_induction with
  | nil => cases h
  | cons start onNewLine c cs ih =>
      rw [scan_cons] at h
      rcases List.mem_append.1 h with h | h
      · cases hpiece : (munch c cs).1 with
        | gap =>
            rw [hpiece] at h
            cases h
        | token token =>
            rw [hpiece] at h
            cases List.mem_singleton.1 h
            exact isFinite_of_munch hpiece
        | reject =>
            rw [hpiece] at h
            cases List.mem_singleton.1 h
      · exact ih h

/-! ## What lies between two items -/

/-- The items stand next to each other, and the second is marked as standing on a new line exactly
when a line break lies between them. -/
def Adjoins (text : List Char) (a b : Item) : Prop :=
  ∃ before gap after, text = before ++ gap ++ after ∧ a.span.stop = byteWidth before ∧
    b.span.start = byteWidth (before ++ gap) ∧
    ∀ l, b = lexeme l → (l.onNewLine = true ↔ '\n' ∈ gap)

/-- Behind an item `first` that ends where `gap` begins. -/
theorem adjoins_of_scan {before gap : List Char} {first a b : Item} {items others : List Item}
    (hstart : start = byteWidth (before ++ gap)) (hline : onNewLine = true ↔ '\n' ∈ gap)
    (hfirst : first.span.stop = byteWidth before)
    (h : first :: scan start onNewLine 0 cs = items ++ a :: b :: others) :
    Adjoins (before ++ gap ++ cs) a b := by
  induction start, onNewLine, cs using scan_induction generalizing before gap first items with
  | nil =>
      have hlength := congrArg List.length h
      simp only [scan, List.length_cons, List.length_append, List.length_nil] at hlength
      omega
  | cons start onNewLine c cs ih =>
      have htext : before ++ gap ++ (c :: cs) = before ++ gap ++ front c cs ++ behind c cs := by
        rw [List.append_assoc _ (front c cs), front_append_behind]
      have hstop : start + byteWidth (front c cs) = byteWidth (before ++ gap ++ front c cs) := by
        rw [hstart, Text.byteWidth_append _ (front c cs)]
      -- An item ends the gap in front of it and is itself followed by an empty gap.
      have hitem : ∀ item : Item, item.span = ⟨start, start + byteWidth (front c cs)⟩ →
          (∀ l, item = lexeme l → l.onNewLine = onNewLine) →
          lineAfter onNewLine (front c cs) (munch c cs).1 = false →
          first :: item :: scan (start + byteWidth (front c cs))
            (lineAfter onNewLine (front c cs) (munch c cs).1) 0 (behind c cs) =
              items ++ a :: b :: others →
          Adjoins (before ++ gap ++ (c :: cs)) a b := by
        intro item hspan hitem hafter heq
        rcases List.cons_eq_append_iff.1 heq with ⟨rfl, hhere⟩ | ⟨items', rfl, hlater⟩
        · cases hhere
          refine ⟨before, gap, c :: cs, rfl, hfirst, ?_, ?_⟩
          · rw [hspan]
            exact hstart
          · intro l hl
            rw [hitem l hl, hline]
        · have hadjoins : Adjoins (before ++ gap ++ front c cs ++ [] ++ behind c cs) a b := by
            refine ih ?_ ?_ ?_ hlater
            · rw [List.append_nil]
              exact hstop
            · rw [hafter]
              exact iff_of_false Bool.false_ne_true List.not_mem_nil
            · rw [hspan]
              exact hstop
          rwa [List.append_nil, ← htext] at hadjoins
      rw [scan_cons] at h
      cases hpiece : (munch c cs).1 with
      | gap =>
          rw [hpiece] at h ih
          have hadjoins : Adjoins (before ++ (gap ++ front c cs) ++ behind c cs) a b := by
            refine ih ?_ ?_ hfirst h
            · rw [hstop, List.append_assoc]
            · simp [lineAfter, hline]
          rwa [← List.append_assoc, ← htext] at hadjoins
      | token token =>
          refine hitem (lexeme ⟨token, ⟨start, start + byteWidth (front c cs)⟩, onNewLine⟩) rfl
            ?_ ?_ ?_
          · rintro l ⟨⟩
            rfl
          · rw [hpiece]
            rfl
          · rw [hpiece] at h ⊢
            exact h
      | reject =>
          refine hitem (fault ⟨.ofText (front c cs), ⟨start, start + byteWidth (front c cs)⟩⟩) rfl
            ?_ ?_ ?_
          · intro l hl
            exact Item.noConfusion hl
          · rw [hpiece]
            rfl
          · rw [hpiece] at h ⊢
            exact h

/-- Neighbours in the stream of a text are told apart by line breaks as the text is. -/
theorem adjoins_of_ofSource {source : String} {a b : Item} {items others : List Item}
    (h : ofSource source = items ++ a :: b :: others) : Adjoins source.toList a b := by
  -- Nothing stands in front of the first item, so an empty one is put there.
  let none : Item := fault ⟨.stray "", ⟨0, 0⟩⟩
  have hscan : none :: scan 0 false 0 source.toList = (none :: items) ++ a :: b :: others :=
    congrArg (List.cons none) h
  have hadjoins : Adjoins ([] ++ [] ++ source.toList) a b :=
    adjoins_of_scan rfl (by decide) rfl hscan
  exact hadjoins

end Item

/-! ## Items in other places -/

/-- The span `n` bytes further on. -/
def Span.shift (n : Nat) (s : Span) : Span := ⟨s.start + n, s.stop + n⟩

theorem Span.shift_merge (n : Nat) (a b : Span) :
    (a.merge b).shift n = (a.shift n).merge (b.shift n) := by
  simp [shift, merge, Nat.add_min_add_right, Nat.add_max_add_right]

def Lexeme.mapSpan (f : Span → Span) (l : Lexeme) : Lexeme :=
  ⟨l.token, f l.span, l.onNewLine⟩

namespace Item

def mapSpan (f : Span → Span) : Item → Item
  | lexeme l => lexeme (l.mapSpan f)
  | fault x => fault ⟨x.cause, f x.span⟩

theorem mapSpan_id : mapSpan id = id := by
  funext item
  cases item <;> rfl

theorem scan_shift (n start : Nat) (onNewLine : Bool) (cs : List Char) :
    scan (start + n) onNewLine 0 cs = (scan start onNewLine 0 cs).map (mapSpan (Span.shift n)) := by
  induction start, onNewLine, cs using scan_induction with
  | nil => rfl
  | cons start onNewLine c cs ih =>
      rw [scan_cons, scan_cons, List.map_append, ← ih, Nat.add_right_comm]
      cases (munch c cs).1 <;>
        simp [ofPiece, mapSpan, Lexeme.mapSpan, Span.shift, Nat.add_right_comm]

end Item

end Barista
