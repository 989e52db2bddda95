import Barista.Proofs.Token.LineBreak
import Barista.Proofs.Token.Pattern

/-!
# Reading one kind of token

For each kind of token, the length that is read at the front of a text is that of a text with the
pattern, no text with the pattern there is longer, and what is read from it is the token that it
stands for.
-/

namespace Barista

open Computability

namespace Munch

open Pattern

variable {p : Char → Bool} {text rest cs : List Char} {c d : Char} {t : Token}

/-! ## Runs -/

theorem run_append (htext : ∀ c ∈ text, p c = true) (hrest : run p rest = 0) :
    run p (text ++ rest) = text.length := by
  simp only [run] at hrest ⊢
  rw [List.takeWhile_append_of_pos htext, List.length_append, hrest, Nat.add_zero]

theorem length_le_run (htext : ∀ c ∈ text, p c = true) : text.length ≤ run p (text ++ rest) := by
  rw [run, List.takeWhile_append_of_pos htext, List.length_append]
  exact Nat.le_add_right _ _

theorem forall_mem_take_run : ∀ c ∈ cs.take (run p cs), p c = true := by
  rw [run, ← List.prefix_iff_eq_take.1 (List.takeWhile_prefix p)]
  exact List.all_eq_true.1 List.all_takeWhile

theorem of_drop_run (h : cs.drop (run p cs) = d :: rest) : p d = false := by
  induction cs with
  | nil => cases h
  | cons c cs ih =>
      cases hc : p c with
      | true =>
          rw [run, List.takeWhile_cons_of_pos hc, List.length_cons, List.drop_succ_cons] at h
          exact ih h
      | false =>
          rw [run, List.takeWhile_cons_of_neg (by simp [hc])] at h
          cases h
          exact hc

theorem run_cons_of_neg (hc : p c = false) : run p (c :: cs) = 0 := by
  simp [run, hc]

theorem run_cons_of_pos (hc : p c = true) : run p (c :: cs) = run p cs + 1 := by
  simp [run, hc]

theorem take_run_mem_digits (h : run Char.isDigit cs ≠ 0) :
    cs.take (run Char.isDigit cs) ∈ digits := by
  refine mem_digits.2 ⟨?_, forall_mem_take_run⟩
  rintro hnil
  have hlength := congrArg List.length hnil
  rw [List.length_take, Nat.min_eq_left (run_le_length _ _)] at hlength
  exact h hlength

theorem length_pos_of_mem_digits (h : text ∈ digits) : 0 < text.length :=
  List.length_pos_iff.2 (mem_digits.1 h).1

/-! ## Numbers -/

theorem signLength_append {sign number : List Char}
    (hsign : sign = [] ∨ sign = ['+'] ∨ sign = ['-']) (hnumber : number ∈ digits) :
    signLength (sign ++ (number ++ rest)) = sign.length := by
  obtain ⟨hne, hall⟩ := mem_digits.1 hnumber
  obtain ⟨d, ds, rfl⟩ := List.exists_cons_of_ne_nil hne
  have hd := hall d List.mem_cons_self
  rcases hsign with rfl | rfl | rfl
  · simp only [List.nil_append, List.cons_append, List.length_nil]
    unfold signLength
    split
    · rename_i heq
      cases heq
      exact absurd hd (by decide)
    · rename_i heq
      cases heq
      exact absurd hd (by decide)
    · rfl
  · rfl
  · rfl

theorem take_signLength : cs.take (signLength cs) = [] ∨ cs.take (signLength cs) = ['+'] ∨
    cs.take (signLength cs) = ['-'] := by
  unfold signLength
  split <;> simp

theorem length_le_exponentLength (h : text ∈ exponent) (rest : List Char) :
    text.length ≤ exponentLength (text ++ rest) := by
  obtain ⟨mark, sign, number, rfl, hmark, hsign, hnumber⟩ := mem_exponent.1 h
  have hrun : number.length ≤ run Char.isDigit (number ++ rest) :=
    length_le_run (mem_digits.1 hnumber).2
  have hpos := length_pos_of_mem_digits hnumber
  rw [List.cons_append, List.append_assoc, exponentLength_cons, signLength_append hsign hnumber,
    List.drop_left, if_pos ⟨hmark, by omega⟩, List.length_cons, List.length_append]
  omega

theorem take_exponentLength_mem (h : exponentLength cs ≠ 0) :
    cs.take (exponentLength cs) ∈ exponent := by
  cases cs with
  | nil => exact absurd rfl h
  | cons mark cs =>
      rw [exponentLength_cons] at h ⊢
      split at h
      · rename_i hcond
        obtain ⟨hmark, hdigits⟩ := hcond
        refine mem_exponent.2 ⟨mark, cs.take (signLength cs), _, ?_, hmark, take_signLength,
          take_run_mem_digits hdigits⟩
        rw [if_pos ⟨hmark, hdigits⟩, List.take_succ_cons, Nat.add_comm, List.take_add]
      · exact absurd rfl h

/-- The length of a point with digits and of an exponent, where there is one. -/
def endingLength (cs : List Char) : Nat :=
  fractionLength cs + exponentLength (cs.drop (fractionLength cs))

theorem fractionLength_point : fractionLength ('.' :: cs) =
    if run Char.isDigit cs = 0 then 0 else run Char.isDigit cs + 1 := rfl

theorem take_fractionLength (h : fractionLength cs ≠ 0) :
    ∃ fraction ∈ digits, cs.take (fractionLength cs) = '.' :: fraction := by
  unfold fractionLength at h ⊢
  split at h
  · rename_i ds
    split at h
    · exact absurd rfl h
    · rename_i hrun
      refine ⟨ds.take (run Char.isDigit ds), take_run_mem_digits hrun, ?_⟩
      rw [if_neg hrun, List.take_succ_cons]
  · exact absurd rfl h

theorem run_append_of_mem_exponent (h : text ∈ exponent) (rest : List Char) :
    run Char.isDigit (text ++ rest) = 0 := by
  obtain ⟨c, cs, rfl, hc⟩ := exists_cons_of_mem_ending (mem_ending.2 (.inr h))
  exact run_cons_of_neg hc

theorem length_le_endingLength (h : text ∈ ending) (rest : List Char) :
    text.length ≤ endingLength (text ++ rest) := by
  rw [endingLength]
  rcases mem_ending.1 h with ⟨fraction, hfraction, e, he, rfl⟩ | he
  · have hpos := length_pos_of_mem_digits hfraction
    have hdigits := (mem_digits.1 hfraction).2
    rw [List.cons_append, List.append_assoc, fractionLength_point]
    rcases he with rfl | he
    · have hrun : fraction.length ≤ run Char.isDigit (fraction ++ ([] ++ rest)) :=
        length_le_run hdigits
      rw [if_neg (by omega), List.append_nil, List.length_cons]
      omega
    · have hrun := run_append hdigits (run_append_of_mem_exponent he rest)
      have hexponent := length_le_exponentLength he rest
      rw [hrun, if_neg (by omega), List.drop_succ_cons, List.drop_left, List.length_cons,
        List.length_append]
      omega
  · have hfraction : fractionLength (text ++ rest) = 0 := by
      obtain ⟨mark, sign, number, rfl, rfl | rfl, -⟩ := mem_exponent.1 he <;> rfl
    rw [hfraction, List.drop_zero, Nat.zero_add]
    exact length_le_exponentLength he rest

theorem take_endingLength_mem (h : endingLength cs ≠ 0) : cs.take (endingLength cs) ∈ ending := by
  rw [endingLength] at h ⊢
  rw [List.take_add]
  by_cases hfraction : fractionLength cs = 0
  · rw [hfraction] at h ⊢
    rw [Nat.zero_add] at h
    exact mem_ending.2 (.inr (take_exponentLength_mem h))
  · obtain ⟨fraction, hdigits, htake⟩ := take_fractionLength hfraction
    rw [htake, List.cons_append]
    refine mem_ending.2 (.inl ⟨fraction, hdigits, _, ?_, rfl⟩)
    · by_cases hexponent : exponentLength (cs.drop (fractionLength cs)) = 0
      · rw [hexponent]
        exact .inl rfl
      · exact .inr (take_exponentLength_mem hexponent)

/-- The number of characters of the number at the front of a text. -/
def numberLength (cs : List Char) : Nat :=
  run Char.isDigit cs + endingLength (cs.drop (run Char.isDigit cs))

theorem number_cons (hc : c.isDigit = true) : (number c cs).2 + 1 = numberLength (c :: cs) := by
  simp only [number, numberLength, endingLength, run_cons_of_pos hc, List.drop_succ_cons,
    List.drop_drop]
  omega

theorem length_le_numberLength (htext : text ∈ digits ∨ text ∈ double) (rest : List Char) :
    text.length ≤ numberLength (text ++ rest) := by
  rw [numberLength]
  rcases htext with htext | htext
  · have hrun : text.length ≤ run Char.isDigit (text ++ rest) :=
      length_le_run (mem_digits.1 htext).2
    omega
  · obtain ⟨whole, hwhole, ending, hending, rfl⟩ := mem_double.1 htext
    have hstop : run Char.isDigit (ending ++ rest) = 0 := by
      obtain ⟨d, ds, rfl, hd⟩ := exists_cons_of_mem_ending hending
      exact run_cons_of_neg hd
    have hrun := run_append (mem_digits.1 hwhole).2 hstop
    have hlength := length_le_endingLength hending rest
    rw [List.append_assoc, hrun, List.drop_left, List.length_append]
    omega

/-- The number at the front of a text is a whole number exactly when nothing follows its digits. -/
theorem take_numberLength_mem (hrun : run Char.isDigit cs ≠ 0) :
    if endingLength (cs.drop (run Char.isDigit cs)) = 0 then cs.take (numberLength cs) ∈ digits
    else cs.take (numberLength cs) ∈ double := by
  have hdigits := take_run_mem_digits hrun
  rw [numberLength]
  split
  · rename_i hending
    rwa [hending]
  · rename_i hending
    rw [List.take_add]
    exact mem_double.2 ⟨_, hdigits, _, take_endingLength_mem hending, rfl⟩

/-! ## Strings -/

theorem bodyLength_append_quote {body : List Char} (h : body ∈ stringUnit∗) :
    bodyLength (body ++ '"' :: rest) = body.length := by
  obtain ⟨units, rfl, hunits⟩ := Language.mem_kstar.1 h
  clear h
  induction units with
  | nil => rfl
  | cons unit units ih =>
      have ih := ih fun u hu ↦ hunits u (List.mem_cons_of_mem _ hu)
      rw [List.flatten_cons, List.append_assoc]
      rcases mem_stringUnit.1 (hunits unit List.mem_cons_self) with
        ⟨c, ⟨hquote, hbackslash, hnewline⟩, rfl⟩ | ⟨c, hnewline, rfl⟩
      · rw [List.cons_append, List.nil_append, bodyLength_cons hbackslash, if_neg (by tauto), ih]
        rfl
      · rw [List.cons_append, List.cons_append, List.nil_append, bodyLength, if_neg hnewline, ih]
        rfl

theorem take_bodyLength_mem (cs : List Char) : cs.take (bodyLength cs) ∈ stringUnit∗ := by
  have hcons : ∀ unit ∈ stringUnit, ∀ body ∈ stringUnit∗, unit ++ body ∈ stringUnit∗ := by
    intro unit hunit body hbody
    rw [← Language.one_add_self_mul_kstar_eq_kstar]
    exact .inr (Language.mem_mul.2 ⟨unit, hunit, body, hbody, rfl⟩)
  fun_induction bodyLength cs with
  | case1 => exact Language.nil_mem_kstar _
  | case2 c cs hc ih =>
      rw [List.take_succ_cons, List.take_succ_cons]
      exact hcons ['\\', c] (mem_stringUnit.2 (.inr ⟨c, hc, rfl⟩)) _ ih
  | case3 => exact Language.nil_mem_kstar _
  | case4 c cs _ hc ih =>
      rw [List.take_succ_cons]
      exact hcons [c] (mem_stringUnit.2 (.inl ⟨c, by tauto, rfl⟩)) _ ih
  | case5 => exact Language.nil_mem_kstar _

theorem spells_iff {body value : List Char} :
    Spells body value ↔ unescapeAll? body = some value := by
  constructor
  · intro h
    induction h with
    | nil => rfl
    | @plain c body value hc h ih =>
        rw [unescapeAll?, if_neg hc, ih]
        · rfl
        · intro d ds hbackslash
          exact absurd hbackslash hc
    | escape hc h ih => simp [unescapeAll?, hc, ih]
  · intro h
    fun_induction unescapeAll? body generalizing value with
    | case1 c cs ih =>
        simp only [Option.bind_eq_bind, Option.bind_eq_some_iff, Option.pure_def,
          Option.some.injEq] at h
        obtain ⟨d, hc, rest, hrest, rfl⟩ := h
        exact .escape hc (ih hrest)
    | case2 => cases h
    | case3 c cs _ hc ih =>
        obtain ⟨rest, hrest, rfl⟩ := Option.map_eq_some_iff.1 h
        exact .plain hc (ih hrest)
    | case4 =>
        cases h
        exact .nil

/-! ## Marks -/

/-- The mark with a text, as a token. -/
def IsMark (text : List Char) (t : Token) : Prop :=
  (∃ s, t = .symbol s ∧ text = s.text.toList) ∨ ∃ p, t = .punct p ∧ text = p.text.toList

theorem mem_mark : text ∈ Pattern.mark ↔ ∃ t, IsMark text t := by
  constructor
  · rintro (⟨s, hs⟩ | ⟨p, hp⟩)
    · exact ⟨.symbol s, .inl ⟨s, rfl, hs⟩⟩
    · exact ⟨.punct p, .inr ⟨p, rfl, hp⟩⟩
  · rintro ⟨t, ⟨s, -, hs⟩ | ⟨p, -, hp⟩⟩
    · exact .inl ⟨s, hs⟩
    · exact .inr ⟨p, hp⟩

theorem pair?_eq_some_iff : pair? c d = some t ↔ IsMark [c, d] t := by
  constructor
  · intro h
    unfold pair? at h
    split at h <;> cases h
    · exact .inr ⟨_, rfl, rfl⟩
    all_goals exact .inl ⟨_, rfl, rfl⟩
  · rintro (⟨s, rfl, hs⟩ | ⟨p, rfl, hp⟩)
    · cases s <;> cases hs <;> rfl
    · cases p <;> cases hp
      rfl

theorem single?_eq_some_iff : single? c = some t ↔ IsMark [c] t := by
  constructor
  · intro h
    unfold single? at h
    split at h <;> cases h
    all_goals first | exact .inl ⟨_, rfl, rfl⟩ | exact .inr ⟨_, rfl, rfl⟩
  · rintro (⟨s, rfl, hs⟩ | ⟨p, rfl, hp⟩)
    · cases s <;> cases hs <;> rfl
    · cases p <;> cases hp <;> rfl

/-- No mark has more than two characters. -/
theorem length_le_two_of_mem_mark (h : text ∈ Pattern.mark) : text.length ≤ 2 := by
  rcases h with ⟨s, rfl⟩ | ⟨p, rfl⟩
  · cases s <;> decide
  · cases p <;> decide

/-! ## What the texts of each kind stand for -/

theorem wholeLiteral_eq_token_iff :
    wholeLiteral text = .token t ↔ ∃ n, t = .int n ∧ n.toInt = digitsValue text := by
  rw [wholeLiteral]
  cases h : Whole.ofInt? (digitsValue text) with
  | none =>
      refine iff_of_false Piece.noConfusion ?_
      rintro ⟨n, -, hn⟩
      rw [Whole.ofInt?_eq_some_iff.2 hn] at h
      cases h
  | some n =>
      have hn := Whole.ofInt?_eq_some_iff.1 h
      constructor
      · rintro ⟨⟩
        exact ⟨n, rfl, hn⟩
      · rintro ⟨m, rfl, hm⟩
        rw [Whole.ext (hm.trans hn.symm)]
        rfl

theorem doubleLiteral_eq_token_iff : doubleLiteral text = .token t ↔
    ∃ d, t = .double d ∧ Double.read? (String.ofList text) = some d ∧ d.isFinite = true := by
  rw [doubleLiteral]
  cases Double.read? (String.ofList text) with
  | none =>
      refine iff_of_false Piece.noConfusion ?_
      rintro ⟨d, -, hd, -⟩
      cases hd
  | some d =>
      dsimp only
      split
      · rename_i hd
        constructor
        · rintro ⟨⟩
          exact ⟨d, rfl, rfl, hd⟩
        · rintro ⟨_, rfl, ⟨⟩, -⟩
          rfl
      · rename_i hd
        refine iff_of_false Piece.noConfusion ?_
        rintro ⟨_, -, ⟨⟩, hfinite⟩
        exact hd hfinite

theorem denotes_digits_iff (h : text ∈ digits) : Denotes text t ↔ wholeLiteral text = .token t := by
  rw [wholeLiteral_eq_token_iff]
  constructor
  · intro ht
    obtain ⟨c, cs, rfl⟩ := List.exists_cons_of_ne_nil (mem_digits.1 h).1
    have hlead := (lead_of_mem_digits h).symm.trans (lead_of_denotes ht)
    cases t with
    | int n => exact ⟨n, rfl, ht.2⟩
    | double d => exact (notMem_digits_of_mem_double ht.1 h).elim
    | _ => cases hlead
  · rintro ⟨n, rfl, hn⟩
    exact ⟨h, hn⟩

theorem denotes_double_iff (h : text ∈ double) :
    Denotes text t ↔ doubleLiteral text = .token t := by
  rw [doubleLiteral_eq_token_iff]
  constructor
  · intro ht
    obtain ⟨c, cs, rfl⟩ := List.exists_cons_of_ne_nil (ne_nil_of_mem_double h)
    have hlead := (lead_of_mem_double h).symm.trans (lead_of_denotes ht)
    cases t with
    | int n => exact (notMem_digits_of_mem_double h ht.1).elim
    | double d => exact ⟨d, rfl, ht.2⟩
    | _ => cases hlead
  · rintro ⟨d, rfl, hd⟩
    exact ⟨h, hd⟩

theorem denotes_string_iff {body : List Char} (h : body ∈ stringUnit∗) :
    Denotes ('"' :: (body ++ ['"'])) t ↔
      ∃ value, unescapeAll? body = some value ∧ t = .string (String.ofList value) := by
  constructor
  · intro ht
    have hlead := lead_of_denotes ht
    cases t with
    | string value =>
        obtain ⟨body', -, htext, hspells⟩ := ht
        have hbody : body = body' := by simpa using htext
        subst hbody
        exact ⟨value.toList, spells_iff.1 hspells, by rw [String.ofList_toList]⟩
    | _ => cases hlead
  · rintro ⟨value, hvalue, rfl⟩
    exact ⟨body, h, rfl, by rw [String.toList_ofList]; exact spells_iff.2 hvalue⟩

theorem denotes_name_iff (h : text ∈ name) : Denotes text t ↔ word text none = t := by
  have hword : ∀ k, Keyword.ofText? (String.ofList text) = some k → text = k.text.toList := by
    intro k hk
    rw [Keyword.text_of_ofText? hk, String.toList_ofList]
  have hnone : Keyword.ofText? (String.ofList text) = none ↔ text ∉ Pattern.keyword := by
    simp [mem_keyword_iff]
  constructor
  · intro ht
    obtain ⟨c, cs, htext, -⟩ := mem_name.1 h
    subst htext
    have hlead := (lead_of_mem_name h).symm.trans (lead_of_denotes ht)
    cases t with
    | ident x =>
        rw [word, hnone.2 ht.2.1, ← ht.2.2, String.ofList_toList]
    | keyword k =>
        rw [word, show (c :: cs) = k.text.toList from ht, String.ofList_toList,
          Keyword.ofText?_text]
        rfl
    | _ => cases hlead
  · rintro rfl
    rw [word]
    cases hk : Keyword.ofText? (String.ofList text) with
    | none => exact ⟨h, hnone.1 hk, String.toList_ofList⟩
    | some k => exact hword k hk

theorem denotes_mark_iff (h : lead c = .other) : Denotes (c :: cs) t ↔ IsMark (c :: cs) t := by
  constructor
  · intro ht
    have hlead := h.symm.trans (lead_of_denotes ht)
    cases t with
    | symbol s => exact .inl ⟨s, rfl, ht⟩
    | punct p => exact .inr ⟨p, rfl, ht⟩
    | _ => cases hlead
  · rintro (⟨s, rfl, hs⟩ | ⟨p, rfl, hp⟩)
    · exact hs
    · exact hp

end Munch
end Barista
