import Barista.Proofs.Token.Scan

/-!
# Texts joined by a line break

A line break ends every piece but a gap, whatever follows it.  So the two sides of a line break are
scanned apart: the second side gives the items it gives on its own, further on in the text, and the
first of them stands on a new line.
-/

namespace Barista

open Text (byteWidth)

namespace Munch

variable {c : Char} {cs rest : List Char}

theorem run_le_length (p : Char → Bool) (cs : List Char) : run p cs ≤ cs.length :=
  (List.takeWhile_prefix p).length_le

theorem run_append_newline {p : Char → Bool} (hp : p '\n' = false) :
    run p (cs ++ '\n' :: rest) = run p cs := by
  induction cs with
  | nil => simp [run, hp]
  | cons c cs ih =>
      simp only [run] at ih
      cases hc : p c
      · simp [run, hc]
      · simp [run, hc, ih]

theorem isDigit_newline : Char.isDigit '\n' = false := by decide

theorem fractionLength_le_length (cs : List Char) : fractionLength cs ≤ cs.length := by
  unfold fractionLength
  split
  · rename_i cs
    have := run_le_length Char.isDigit cs
    rw [List.length_cons]
    split <;> omega
  · exact Nat.zero_le _

theorem fractionLength_append_newline :
    fractionLength (cs ++ '\n' :: rest) = fractionLength cs := by
  cases cs with
  | nil => rfl
  | cons c cs =>
      by_cases hc : c = '.'
      · subst hc
        simp only [List.cons_append, fractionLength, run_append_newline isDigit_newline]
      · simp [fractionLength, hc]

/-- The length of a sign, or zero. -/
def signLength : List Char → Nat
  | '+' :: _ | '-' :: _ => 1
  | _ => 0

theorem exponentLength_cons (mark : Char) (cs : List Char) :
    exponentLength (mark :: cs) =
      if (mark = 'e' ∨ mark = 'E') ∧ run Char.isDigit (cs.drop (signLength cs)) ≠ 0 then
        run Char.isDigit (cs.drop (signLength cs)) + signLength cs + 1
      else 0 := rfl

theorem signLength_le_length (cs : List Char) : signLength cs ≤ cs.length := by
  unfold signLength
  split <;> simp

theorem signLength_append_newline : signLength (cs ++ '\n' :: rest) = signLength cs := by
  cases cs with
  | nil => rfl
  | cons c cs =>
      simp only [List.cons_append]
      unfold signLength
      split <;> split <;> simp_all

theorem exponentLength_le_length (cs : List Char) : exponentLength cs ≤ cs.length := by
  cases cs with
  | nil => exact Nat.le_refl _
  | cons mark cs =>
      have hsign := signLength_le_length cs
      have hdigits := run_le_length Char.isDigit (cs.drop (signLength cs))
      rw [List.length_drop] at hdigits
      rw [exponentLength_cons, List.length_cons]
      split <;> omega

theorem exponentLength_append_newline :
    exponentLength (cs ++ '\n' :: rest) = exponentLength cs := by
  cases cs with
  | nil => simp [exponentLength]
  | cons mark cs =>
      rw [List.cons_append, exponentLength_cons, exponentLength_cons, signLength_append_newline,
        List.drop_append_of_le_length (signLength_le_length cs), run_append_newline isDigit_newline]

theorem bodyLength_le_length (cs : List Char) : bodyLength cs ≤ cs.length := by
  fun_induction bodyLength cs with
  | case1 cs => simp
  | case2 c cs hc ih => simp only [List.length_cons]; omega
  | case3 c cs hc => simp
  | case4 c cs hc ih => simp only [List.length_cons]; omega
  | case5 => simp

theorem bodyLength_cons (hc : c ≠ '\\') :
    bodyLength (c :: cs) = if c = '"' ∨ c = '\\' ∨ c = '\n' then 0 else bodyLength cs + 1 := by
  rw [bodyLength]
  intro c' cs' hbackslash
  exact absurd hbackslash hc

theorem bodyLength_append_newline : bodyLength (cs ++ '\n' :: rest) = bodyLength cs := by
  fun_induction bodyLength cs with
  | case1 cs => simp [bodyLength]
  | case2 c cs hc ih => simp [bodyLength, hc, ih]
  | case3 c cs hcs hc =>
      by_cases hbackslash : c = '\\'
      · -- A backslash at the end of the first line has no character to escape.
        cases cs with
        | nil => simp [bodyLength, hbackslash]
        | cons d ds => exact (hcs d ds hbackslash rfl).elim
      · rw [List.cons_append, bodyLength_cons hbackslash, if_pos hc]
  | case4 c cs hcs hc ih =>
      have hbackslash : c ≠ '\\' := fun h ↦ hc (.inr (.inl h))
      rw [List.cons_append, bodyLength_cons hbackslash, if_neg hc, ih]
  | case5 => simp [bodyLength]

theorem number_length_le (c : Char) (cs : List Char) : (number c cs).2 ≤ cs.length := by
  have hwhole := run_le_length Char.isDigit cs
  have hfraction := fractionLength_le_length (cs.drop (run Char.isDigit cs))
  have hexponent := exponentLength_le_length
    (cs.drop (run Char.isDigit cs + fractionLength (cs.drop (run Char.isDigit cs))))
  simp only [List.length_drop] at hfraction hexponent
  simp only [number]
  omega

theorem number_append_newline : number c (cs ++ '\n' :: rest) = number c cs := by
  have hwhole := run_le_length Char.isDigit cs
  have hfraction := fractionLength_le_length (cs.drop (run Char.isDigit cs))
  have hlength := number_length_le c cs
  rw [List.length_drop] at hfraction
  simp only [number] at hlength ⊢
  rw [run_append_newline isDigit_newline, List.drop_append_of_le_length hwhole,
    fractionLength_append_newline, List.drop_append_of_le_length (by omega),
    exponentLength_append_newline, List.take_append_of_le_length hlength]

theorem string_append_newline : string (cs ++ '\n' :: rest) = string cs := by
  have hlength := bodyLength_le_length cs
  simp only [string]
  rw [bodyLength_append_newline, List.drop_append_of_le_length hlength,
    List.take_append_of_le_length hlength]
  cases cs.drop (bodyLength cs) with
  | nil => rfl
  | cons d ds =>
      by_cases hd : d = '"'
      · subst hd
        rfl
      · simp [hd]

theorem word_newline (text : List Char) : word text (some '\n') = word text none := by
  have hnewline : Text.startsLikeLetter '\n' = false := by rw [Text.startsLikeLetter]; rfl
  simp [word, hnewline]

theorem word_append_newline {text : List Char} {n : Nat} (hn : n ≤ cs.length) :
    word text ((cs ++ '\n' :: rest).drop n).head? = word text (cs.drop n).head? := by
  rw [List.drop_append_of_le_length hn]
  cases cs.drop n with
  | nil => exact word_newline text
  | cons d ds => rfl

theorem pair?_newline (c : Char) : pair? c '\n' = none := by
  unfold pair?
  split <;> first | rfl | contradiction

theorem mark_append_newline : mark c (cs ++ '\n' :: rest) = mark c cs := by
  cases cs with
  | nil => simp [mark, pair?_newline]
  | cons d ds => rfl

end Munch

section Scan

open Munch

variable {c : Char} {cs rest : List Char} {start : Nat} {onNewLine : Bool}

/-- No piece but a gap reaches beyond a line break. -/
theorem munch_append_newline (hc : isGap c = false) :
    munch c (cs ++ '\n' :: rest) = munch c cs := by
  have hhash : (cs ++ '\n' :: rest).head? = some '#' ↔ cs.head? = some '#' := by
    cases cs <;> simp
  have hcomment : run (· ≠ '\n') (cs ++ '\n' :: rest) = run (· ≠ '\n') cs :=
    run_append_newline (by decide)
  have hname : run continuesName (cs ++ '\n' :: rest) = run continuesName cs :=
    run_append_newline (by decide)
  have hlength := run_le_length continuesName cs
  simp only [munch, hc, hhash, hcomment, hname, number_append_newline, string_append_newline,
    mark_append_newline, word_append_newline hlength, List.take_append_of_le_length hlength,
    Bool.false_eq_true, if_false]

theorem munch_length_le (c : Char) (cs : List Char) : (munch c cs).2 ≤ cs.length := by
  have hstring : (string cs).2 ≤ cs.length := by
    have hbody := bodyLength_le_length cs
    simp only [string]
    split
    · rename_i hdrop
      have hlength := congrArg List.length hdrop
      rw [List.length_drop, List.length_cons] at hlength
      split <;> simp only <;> omega
    · exact hbody
  have hmark : (mark c cs).2 ≤ cs.length := by
    cases cs with
    | nil =>
        simp only [mark, List.head?_nil, Option.bind_none]
        split <;> exact Nat.le_refl _
    | cons d ds =>
        simp only [mark, List.length_cons]
        split
        · simp
        · split <;> simp
  simp only [munch]
  split
  · exact run_le_length _ _
  split
  · exact run_le_length _ _
  split
  · exact number_length_le c cs
  split
  · exact hstring
  split
  · exact run_le_length _ _
  · exact hmark

theorem front_append_newline (hc : isGap c = false) :
    front c (cs ++ '\n' :: rest) = front c cs := by
  rw [front, front, munch_append_newline hc, List.take_append_of_le_length (munch_length_le c cs)]

theorem behind_append_newline (hc : isGap c = false) :
    behind c (cs ++ '\n' :: rest) = behind c cs ++ '\n' :: rest := by
  rw [behind, behind, munch_append_newline hc, List.drop_append_of_le_length (munch_length_le c cs)]

namespace Item

/-- A gap is passed one character at a time as well as in one piece. -/
theorem scan_gap (hc : isGap c = true) :
    scan start onNewLine 0 (c :: cs) =
      scan (start + c.utf8Size) (onNewLine || c = '\n') 0 cs := by
  have hmunch : ∀ d ds, isGap d = true → munch d ds = (.gap, run isGap ds) := by
    intro d ds hd
    rw [munch, if_pos hd]
  rw [scan_cons, front, behind, hmunch c cs hc]
  cases cs with
  | nil => rfl
  | cons d ds =>
      cases hd : isGap d with
      | false =>
          have hrun : run isGap (d :: ds) = 0 := by simp [run, hd]
          rw [hrun]
          simp [ofPiece, lineAfter, byteWidth, eq_comm]
      | true =>
          have hrun : run isGap (d :: ds) = run isGap ds + 1 := by simp [run, hd]
          rw [hrun, scan_cons, front, behind, hmunch d ds hd]
          simp [ofPiece, lineAfter, byteWidth, eq_comm, Nat.add_assoc, Bool.or_assoc]

/-- The two sides of a line break are scanned apart. -/
theorem scan_append_newline (start : Nat) (onNewLine : Bool) (rest : List Char) :
    (cs : List Char) → scan start onNewLine 0 (cs ++ '\n' :: rest) =
      scan start onNewLine 0 cs ++ scan (start + byteWidth cs + 1) true 0 rest
  | [] => by
      rw [List.nil_append, scan_gap rfl, scan, List.nil_append, byteWidth]
      simp only [decide_true, Bool.or_true]
      rfl
  | c :: cs => by
      cases hc : isGap c with
      | true =>
          rw [List.cons_append, scan_gap hc, scan_gap hc, scan_append_newline _ _ rest cs,
            byteWidth, Nat.add_assoc start]
      | false =>
          have hwidth : byteWidth (front c cs) + byteWidth (behind c cs) = byteWidth (c :: cs) := by
            rw [← Text.byteWidth_append, front_append_behind]
          rw [List.cons_append, scan_cons, scan_cons, front_append_newline hc,
            behind_append_newline hc, munch_append_newline hc,
            scan_append_newline _ _ rest (behind c cs), List.append_assoc, Nat.add_assoc start,
            hwidth]
termination_by cs => cs.length
decreasing_by
  · exact length_behind_lt c cs
  · exact Nat.lt_succ_self _

/-! ## The second side -/

/-- The item with a line break in front of it. -/
def breakBefore : Item → Item
  | lexeme l => lexeme ⟨l.token, l.span, true⟩
  | fault x => fault x

theorem scan_line (start : Nat) (onNewLine : Bool) (cs : List Char) :
    scan start true 0 cs = (scan start onNewLine 0 cs).modifyHead breakBefore := by
  induction start, onNewLine, cs using scan_induction with
  | nil => rfl
  | cons start onNewLine c cs ih =>
      rw [scan_cons, scan_cons]
      cases hpiece : (munch c cs).1 with
      | gap =>
          rw [hpiece] at ih
          exact ih
      | token token => rfl
      | reject => rfl

/-- The stream of two texts with a line break between them. -/
theorem ofSource_append_newline (s₁ s₂ : String) :
    ofSource (s₁ ++ "\n" ++ s₂) = ofSource s₁ ++
      ((ofSource s₂).map (mapSpan (Span.shift (byteWidth s₁.toList + 1)))).modifyHead
        breakBefore := by
  have htext : (s₁ ++ "\n" ++ s₂).toList = s₁.toList ++ '\n' :: s₂.toList := by
    simp
  rw [ofSource, htext, scan_append_newline, scan_line _ false, Nat.add_assoc, scan_shift]
  rfl

end Item

end Scan

end Barista
