import Barista.Proofs.Double.Literal
import Barista.Proofs.Token.Partition

/-!
# Why a text is no token

A fault is named from its text alone: by the first character, and by whether a quote ends what a
quote began.  For numbers the guess is right.  A string is told from one that was never closed by
its last character only, so an open string whose last character is an escaped quote is named as if
it were a closed one with an unknown escape.
-/

namespace Barista

open Computability

namespace Pattern

open Munch (unescape? unescapeAll? wholeLiteral doubleLiteral)

variable {text after : List Char} {units : List (List Char)} {c : Char}

/-- A number that is no whole number of the language, or no finite double. -/
def OutOfRange (text : List Char) : Prop :=
  text ∈ digits ∧ 0x8000000000000000 ≤ digitsValue text ∨
    text ∈ double ∧ ∃ d, Double.read? (String.ofList text) = some d ∧ d.isFinite = false

/-- A string with a backslash in front of a character that it cannot stand before. -/
def BadEscape (text : List Char) : Prop :=
  ∃ units : List (List Char), (∀ unit ∈ units, unit ∈ stringUnit) ∧
    text = '"' :: (units.flatten ++ ['"']) ∧ ∃ c, unescape? c = none ∧ ['\\', c] ∈ units

/-- A quote that begins no string, up to an escaped quote. -/
def OpenEscape (text after : List Char) : Prop :=
  Unmatched (text ++ after) ∧ ∃ units : List (List Char), (∀ unit ∈ units, unit ∈ stringUnit) ∧
    text = '"' :: (units.flatten ++ ['\\', '"'])

/-! ## Numbers -/

theorem readExponent?_ne_none {e : List Char} (h : e ∈ exponent) :
    Double.readExponent? e ≠ none := by
  obtain ⟨mark, sign, number, rfl, hmark, hsign, hnumber⟩ := mem_exponent.1 h
  obtain ⟨hne, hdigits⟩ := mem_digits.1 hnumber
  have hall : number.all Char.isDigit = true := List.all_eq_true.2 hdigits
  obtain ⟨d, ds, rfl⟩ := List.exists_cons_of_ne_nil hne
  have hd := hdigits d List.mem_cons_self
  have hplus : d ≠ '+' := by
    rintro rfl
    exact absurd hd (by decide)
  have hminus : d ≠ '-' := by
    rintro rfl
    exact absurd hd (by decide)
  rcases hsign with rfl | rfl | rfl
  · simp [Double.readExponent?, hmark, hplus, hminus, hall]
  · simp [Double.readExponent?, hmark, hall]
  · simp [Double.readExponent?, hmark, hall]

theorem takeWhile_isDigit_of_mem_exponent {e : List Char} (h : e ∈ exponent) :
    e.takeWhile Char.isDigit = [] := by
  obtain ⟨c, cs, rfl, hc⟩ := exists_cons_of_mem_ending (mem_ending.2 (.inr h))
  simp [hc]

theorem readDecimal?_ne_none (h : text ∈ double) : Double.readDecimal? text ≠ none := by
  obtain ⟨whole, hwhole, rest, hrest, rfl⟩ := mem_double.1 h
  obtain ⟨hne, hdigits⟩ := mem_digits.1 hwhole
  rcases mem_ending.1 hrest with ⟨fraction, hfraction, e, he, rfl⟩ | he
  · have hstop : e.takeWhile Char.isDigit = [] ∧ Double.readExponent? e ≠ none := by
      rcases he with rfl | he
      · exact ⟨rfl, by simp [Double.readExponent?]⟩
      · exact ⟨takeWhile_isDigit_of_mem_exponent he, readExponent?_ne_none he⟩
    have hpoint : ('.' :: (fraction ++ e)).takeWhile Char.isDigit = [] := rfl
    have houter := Double.span_isDigit_append hdigits hpoint
    have hinner := Double.span_isDigit_append (mem_digits.1 hfraction).2 hstop.1
    simp [Double.readDecimal?, houter, hinner, hne, hstop.2]
  · have houter := Double.span_isDigit_append hdigits (takeWhile_isDigit_of_mem_exponent he)
    have hread := readExponent?_ne_none he
    obtain ⟨mark, sign, number, rfl, rfl | rfl, -⟩ := mem_exponent.1 he
    · simp [Double.readDecimal?, houter, hne, hread]
    · simp [Double.readDecimal?, houter, hne, hread]

/-- Every text with the pattern of a double has a value, finite or not. -/
theorem exists_read? (h : text ∈ double) : ∃ d, Double.read? (String.ofList text) = some d := by
  obtain ⟨c, cs, rfl⟩ := List.exists_cons_of_ne_nil (ne_nil_of_mem_double h)
  obtain ⟨x, hx⟩ := Option.ne_none_iff_exists'.1 (readDecimal?_ne_none h)
  have hmagnitude : ∃ d, Double.readMagnitude? (c :: cs) = some d := by
    rw [Double.readMagnitude?, hx]
    split
    · exact ⟨_, rfl⟩
    split
    · exact ⟨_, rfl⟩
    · exact ⟨_, rfl⟩
  have hlead := lead_of_mem_double h
  rw [Double.read?, String.toList_ofList]
  split
  · rename_i heq
    cases heq
    cases hlead
  · rename_i heq
    cases heq
    cases hlead
  · exact hmagnitude

/-! ## Strings -/

/-- The units of a string spell something exactly when each of them does. -/
theorem unescapeAll?_flatten_eq_none_iff (h : ∀ unit ∈ units, unit ∈ stringUnit) :
    unescapeAll? units.flatten = none ↔ ∃ c, unescape? c = none ∧ ['\\', c] ∈ units := by
  induction units with
  | nil => simp [unescapeAll?]
  | cons unit units ih =>
      obtain ⟨hunit, hunits⟩ := List.forall_mem_cons.1 h
      rcases mem_stringUnit.1 hunit with ⟨c, ⟨-, hbackslash, -⟩, rfl⟩ | ⟨c, -, rfl⟩
      · have hread : unescapeAll? (c :: units.flatten) =
            (unescapeAll? units.flatten).map (c :: ·) := by
          rw [unescapeAll?, if_neg hbackslash]
          intro d ds heq
          exact absurd heq hbackslash
        simp [hread, ih hunits]
      · cases hc : unescape? c with
        | none =>
            have hnone : unescapeAll? (['\\', c] :: units).flatten = none := by
              simp [unescapeAll?, hc]
            exact iff_of_true hnone ⟨c, hc, List.mem_cons_self⟩
        | some d =>
            have hread : unescapeAll? (['\\', c] :: units).flatten =
                (unescapeAll? units.flatten).map (d :: ·) := by
              simp [unescapeAll?, hc, Option.map_eq_bind]
            rw [hread, Option.map_eq_none_iff, ih hunits]
            refine exists_congr fun x ↦ and_congr_right fun hx ↦ ?_
            have hne : ['\\', x] ≠ ['\\', c] := by
              intro heq
              cases heq
              rw [hc] at hx
              cases hx
            simp [hne]

/-- A unit that ends in a quote is an escaped quote. -/
theorem eq_of_getLast?_stringUnit {unit : List Char} (h : unit ∈ stringUnit)
    (hlast : unit.getLast? = some '"') : unit = ['\\', '"'] := by
  rcases mem_stringUnit.1 h with ⟨c, ⟨hquote, -⟩, rfl⟩ | ⟨c, -, rfl⟩
  · exact absurd (Option.some.inj hlast) hquote
  · cases hlast
    rfl

/-- The body of a string ends in a quote exactly when its last unit is an escaped quote. -/
theorem getLast?_flatten_eq_quote_iff (h : ∀ unit ∈ units, unit ∈ stringUnit) :
    units.flatten.getLast? = some '"' ↔ ∃ front, units = front ++ [['\\', '"']] := by
  constructor
  · intro hlast
    rcases List.eq_nil_or_concat units with rfl | ⟨front, unit, rfl⟩
    · cases hlast
    · have hunit := h unit (by simp)
      have hne : unit ≠ [] := by
        rintro rfl
        simp [mem_stringUnit] at hunit
      have hend : unit.getLast? = some '"' := by
        simpa [List.getLast?_append, List.getLast?_eq_some_getLast hne] using hlast
      rw [eq_of_getLast?_stringUnit hunit hend, List.concat_eq_append]
      exact ⟨front, rfl⟩
  · rintro ⟨front, rfl⟩
    simp

/-! ## Patterns without a meaning -/

theorem forall_not_denotes_digits_iff (h : text ∈ digits) :
    (∀ t, ¬ Denotes text t) ↔ 0x8000000000000000 ≤ digitsValue text := by
  have hnone : (∀ t, ¬ Denotes text t) ↔ Whole.ofInt? (digitsValue text) = none := by
    rw [Option.eq_none_iff_forall_ne_some]
    simp only [Munch.denotes_digits_iff h, Munch.wholeLiteral_eq_token_iff, ne_eq,
      Whole.ofInt?_eq_some_iff]
    constructor
    · intro hall n hn
      exact hall (.int n) ⟨n, rfl, hn⟩
    · rintro hall t ⟨n, -, hn⟩
      exact hall n hn
  rw [hnone, Whole.ofInt?_eq_none_iff]
  omega

theorem forall_not_denotes_double_iff (h : text ∈ double) :
    (∀ t, ¬ Denotes text t) ↔
      ∃ d, Double.read? (String.ofList text) = some d ∧ d.isFinite = false := by
  obtain ⟨d, hd⟩ := exists_read? h
  simp only [Munch.denotes_double_iff h, Munch.doubleLiteral_eq_token_iff, hd, Option.some.injEq]
  constructor
  · intro hall
    refine ⟨d, rfl, ?_⟩
    rw [Bool.eq_false_iff]
    intro hfinite
    exact hall (.double d) ⟨d, rfl, rfl, hfinite⟩
  · rintro ⟨_, rfl, hinfinite⟩ t ⟨_, -, rfl, hfinite⟩
    rw [hinfinite] at hfinite
    cases hfinite

theorem forall_not_denotes_string_iff (h : text ∈ string) :
    (∀ t, ¬ Denotes text t) ↔ BadEscape text := by
  obtain ⟨body, hbody, rfl⟩ := mem_string.1 h
  have hdenotes : (∀ t, ¬ Denotes ('"' :: (body ++ ['"'])) t) ↔ unescapeAll? body = none := by
    rw [Option.eq_none_iff_forall_ne_some]
    simp only [Munch.denotes_string_iff hbody]
    constructor
    · intro hall value hvalue
      exact hall (.string (String.ofList value)) ⟨value, hvalue, rfl⟩
    · rintro hall t ⟨value, hvalue, -⟩
      exact hall value hvalue
  obtain ⟨units, rfl, hunits⟩ := Language.mem_kstar.1 hbody
  rw [hdenotes, unescapeAll?_flatten_eq_none_iff hunits]
  constructor
  · intro hescape
    exact ⟨units, hunits, rfl, hescape⟩
  · rintro ⟨units', hunits', htext, hescape⟩
    have hflatten : units.flatten = units'.flatten := by simpa using htext
    rw [← unescapeAll?_flatten_eq_none_iff hunits, hflatten,
      unescapeAll?_flatten_eq_none_iff hunits']
    exact hescape

theorem BadEscape.mem_string (h : BadEscape text) : text ∈ string := by
  obtain ⟨units, hunits, rfl, -⟩ := h
  exact Pattern.mem_string.2 ⟨_, Language.mem_kstar.2 ⟨units, rfl, hunits⟩, rfl⟩

theorem OutOfRange.mem_digits_or (h : OutOfRange text) : text ∈ digits ∨ text ∈ double :=
  h.imp And.left And.left

/-- A text with the pattern of a token stands for none exactly when it is a number out of range or a
string with a bad escape. -/
theorem forall_not_denotes_iff (h : text ∈ token) :
    (∀ t, ¬ Denotes text t) ↔ OutOfRange text ∨ BadEscape text := by
  obtain ⟨c, cs, rfl⟩ := List.exists_cons_of_ne_nil (ne_nil_of_mem_token h)
  have hnumber : OutOfRange (c :: cs) → lead c = .digit := by
    intro hrange
    rcases hrange.mem_digits_or with hdigits | hdouble
    · exact lead_of_mem_digits hdigits
    · exact lead_of_mem_double hdouble
  have hstring : BadEscape (c :: cs) → lead c = .quote := by
    intro hbad
    exact lead_of_mem_string hbad.mem_string
  rw [cons_mem_token_iff] at h
  cases hlead : lead c with
  | digit =>
      rw [hlead] at h hstring
      have hplain : ¬ BadEscape (c :: cs) := fun hbad ↦ Lead.noConfusion (hstring hbad)
      rw [or_iff_left hplain]
      rcases h with hdigits | hdouble
      · rw [forall_not_denotes_digits_iff hdigits, OutOfRange, or_iff_left, and_iff_right hdigits]
        rintro ⟨hdouble, -⟩
        exact notMem_digits_of_mem_double hdouble hdigits
      · rw [forall_not_denotes_double_iff hdouble, OutOfRange, or_iff_right,
          and_iff_right hdouble]
        rintro ⟨hdigits, -⟩
        exact notMem_digits_of_mem_double hdouble hdigits
  | quote =>
      rw [hlead] at h hnumber
      have hplain : ¬ OutOfRange (c :: cs) := fun hrange ↦ Lead.noConfusion (hnumber hrange)
      rw [or_iff_right hplain, forall_not_denotes_string_iff h]
  | letter =>
      rw [hlead] at h hnumber hstring
      refine iff_of_false ?_ ?_
      · intro hall
        exact hall _ ((Munch.denotes_name_iff h).2 rfl)
      · rintro (hrange | hbad)
        · exact Lead.noConfusion (hnumber hrange)
        · exact Lead.noConfusion (hstring hbad)
  | other =>
      rw [hlead] at h hnumber hstring
      refine iff_of_false ?_ ?_
      · intro hall
        obtain ⟨t, ht⟩ := Munch.mem_mark.1 h
        exact hall t ((Munch.denotes_mark_iff hlead).2 ht)
      · rintro (hrange | hbad)
        · exact Lead.noConfusion (hnumber hrange)
        · exact Lead.noConfusion (hstring hbad)

end Pattern

/-! ## Rejected text -/

namespace Munch

open Pattern

variable {c : Char} {cs : List Char}

/-- Where no pattern fits, a single character is rejected, or a quote with all that could be the
body of a string. -/
theorem front_of_unmatched (h : (munch c cs).1 = .reject) (hunmatched : Unmatched (c :: cs)) :
    (lead c = .other ∧ front c cs = [c]) ∨
      ∃ units : List (List Char), (∀ unit ∈ units, unit ∈ stringUnit) ∧
        front c cs = '"' :: units.flatten := by
  have hgap : (munch c cs).1 ≠ .gap := by
    rw [h]
    exact Piece.noConfusion
  rcases munch_of_ne_gap hgap with ⟨hc, -⟩ | ⟨rfl, heq⟩ | ⟨-, heq⟩ | ⟨hc, heq⟩
  · have hdigit : [c] ∈ token := by
      rw [cons_mem_token_iff, show lead c = .digit from if_pos hc]
      exact .inl (mem_digits.2 ⟨List.cons_ne_nil c [], by simpa using hc⟩)
    exact absurd ⟨cs, rfl⟩ (hunmatched [c] hdigit)
  · have hbody := take_bodyLength_mem cs
    have hopen : ∀ rest, cs.drop (bodyLength cs) ≠ '"' :: rest := by
      intro rest hrest
      have htoken : '"' :: (cs.take (bodyLength cs) ++ ['"']) ∈ token := by
        rw [cons_mem_token_iff, show lead '"' = .quote from rfl]
        exact mem_string.2 ⟨_, hbody, rfl⟩
      refine hunmatched _ htoken ⟨rest, ?_⟩
      rw [List.cons_append, List.append_assoc, List.singleton_append, ← hrest,
        List.take_append_drop]
    have hlength : (Munch.string cs).2 = bodyLength cs := by
      rw [Munch.string]
      split
      · rename_i rest hrest
        exact absurd hrest (hopen rest)
      · rfl
    obtain ⟨units, hflatten, hunits⟩ := Language.mem_kstar.1 hbody
    exact .inr ⟨units, hunits, by rw [front, heq, hlength, hflatten]⟩
  · rw [heq] at h
    cases h
  · refine .inl ⟨hc, ?_⟩
    rw [heq, Munch.mark] at h
    rw [front, heq, Munch.mark]
    cases hpair : cs.head?.bind (pair? c) with
    | some u =>
        rw [hpair] at h
        cases h
    | none =>
        rw [hpair] at h
        cases hsingle : single? c with
        | some u =>
            rw [hsingle] at h
            cases h
        | none => rfl

/-- The text of a token stands for some token, even where it is a keyword that is read as a name. -/
theorem exists_denotes_of_token {t : Token} (h : (munch c cs).1 = .token t) :
    Longest (front c cs) (behind c cs) ∧ ∃ u, Denotes (front c cs) u := by
  obtain ⟨hlongest, hplain, -⟩ := @Item.accords_of_token 0 false c cs t h
  refine ⟨hlongest, ?_⟩
  by_cases hmasked : Masked (front c cs) (behind c cs)
  · exact ⟨_, (denotes_name_iff (mem_name_of_mem_keyword hmasked.1)).2 rfl⟩
  · exact ⟨t, (hplain hmasked t).2 rfl⟩

end Munch

namespace FaultCause

open Pattern

variable {text after : List Char} {c : Char} {cs : List Char}

theorem ofText_cons_quote (cs : List Char) : ofText ('"' :: cs) =
    if cs.getLast? = some '"' then badEscape (String.ofList ('"' :: cs))
    else stray (String.ofList ('"' :: cs)) := by
  cases cs with
  | nil => rfl
  | cons d ds =>
      have hquote : Char.isDigit '"' = false := by decide
      simp [ofText, hquote]

theorem ofText_of_outOfRange (h : OutOfRange text) :
    ofText text = numberOutOfRange (String.ofList text) := by
  have hdigit : ∃ c cs, text = c :: cs ∧ c.isDigit = true := by
    rcases h.mem_digits_or with hdigits | hdouble
    · obtain ⟨c, cs, rfl⟩ := List.exists_cons_of_ne_nil (mem_digits.1 hdigits).1
      exact ⟨c, cs, rfl, (mem_digits.1 hdigits).2 c List.mem_cons_self⟩
    · obtain ⟨whole, hwhole, rest, -, rfl⟩ := mem_double.1 hdouble
      obtain ⟨c, cs, rfl⟩ := List.exists_cons_of_ne_nil (mem_digits.1 hwhole).1
      exact ⟨c, cs ++ rest, rfl, (mem_digits.1 hwhole).2 c List.mem_cons_self⟩
  obtain ⟨c, cs, rfl, hc⟩ := hdigit
  simp [ofText, hc]

theorem ofText_of_badEscape (h : BadEscape text) :
    ofText text = badEscape (String.ofList text) := by
  obtain ⟨units, -, rfl, -⟩ := h
  rw [ofText_cons_quote, if_pos List.getLast?_concat]

theorem ofText_of_openEscape (h : OpenEscape text after) :
    ofText text = badEscape (String.ofList text) := by
  obtain ⟨-, units, -, rfl⟩ := h
  rw [ofText_cons_quote, if_pos (by simp)]

theorem ofText_of_unmatched (h : (munch c cs).1 = .reject) (hunmatched : Unmatched (c :: cs))
    (hclosed : ¬ OpenEscape (Munch.front c cs) (Munch.behind c cs)) :
    ofText (Munch.front c cs) = stray (String.ofList (Munch.front c cs)) := by
  rcases Munch.front_of_unmatched h hunmatched with ⟨hlead, heq⟩ | ⟨units, hunits, heq⟩
  · have hdigit : c.isDigit = false := by
      rw [Bool.eq_false_iff]
      intro hdigit
      rw [lead, if_pos hdigit] at hlead
      cases hlead
    rw [heq]
    simp [ofText, hdigit]
  · rw [heq, ofText_cons_quote, if_neg]
    intro hlast
    obtain ⟨units, rfl⟩ := (getLast?_flatten_eq_quote_iff hunits).1 hlast
    refine hclosed ⟨?_, units, ?_, ?_⟩
    · rwa [Munch.front_append_behind]
    · intro unit hunit
      exact hunits unit (List.mem_append_left _ hunit)
    · simpa using heq

/-- The text `text` in front of `after` deserves the name.  An open string is stray but for one that
goes up to an escaped quote. -/
def Fits (text after : List Char) : FaultCause → Prop
  | numberOutOfRange s => s = String.ofList text ∧ OutOfRange text
  | badEscape s => s = String.ofList text ∧ (BadEscape text ∨ OpenEscape text after)
  | stray s => s = String.ofList text ∧ Unmatched (text ++ after) ∧ ¬ OpenEscape text after

variable {cause : FaultCause}

theorem not_fits_of_denotes {t : Token} (hlongest : Longest text after) (ht : Denotes text t) :
    ¬ cause.Fits text after := by
  have hmeant : ¬ (OutOfRange text ∨ BadEscape text) :=
    fun hnone ↦ (forall_not_denotes_iff hlongest.1).2 hnone t ht
  have hmatched : ¬ Unmatched (text ++ after) :=
    fun hunmatched ↦ hunmatched text hlongest.1 ⟨after, rfl⟩
  intro hfits
  cases cause with
  | numberOutOfRange s => exact hmeant (.inl hfits.2)
  | badEscape s =>
      rcases hfits.2 with hescape | hopen
      · exact hmeant (.inr hescape)
      · exact hmatched hopen.1
  | stray s => exact hmatched hfits.2.1

theorem fits_ofText (h : (munch c cs).1 = .reject) :
    (ofText (Munch.front c cs)).Fits (Munch.front c cs) (Munch.behind c cs) := by
  rcases @Item.accords_of_reject c cs ⟨.ofText [], ⟨0, 0⟩⟩ [] h with ⟨hlongest, hnone⟩ | hunmatched
  · rcases (forall_not_denotes_iff hlongest.1).1 hnone with hrange | hescape
    · rw [ofText_of_outOfRange hrange]
      exact ⟨rfl, hrange⟩
    · rw [ofText_of_badEscape hescape]
      exact ⟨rfl, .inl hescape⟩
  · by_cases hopen : OpenEscape (Munch.front c cs) (Munch.behind c cs)
    · rw [ofText_of_openEscape hopen]
      exact ⟨rfl, .inr hopen⟩
    · have hall := hunmatched
      rw [Munch.front_append_behind] at hall
      rw [ofText_of_unmatched h hall hopen]
      exact ⟨rfl, hunmatched, hopen⟩

theorem ofText_eq_iff_fits (h : (munch c cs).1 = .reject) :
    ofText (Munch.front c cs) = cause ↔ cause.Fits (Munch.front c cs) (Munch.behind c cs) := by
  constructor
  · rintro rfl
    exact fits_ofText h
  · intro hfits
    cases cause with
    | numberOutOfRange s =>
        rw [hfits.1]
        exact ofText_of_outOfRange hfits.2
    | badEscape s =>
        rw [hfits.1]
        exact hfits.2.elim ofText_of_badEscape ofText_of_openEscape
    | stray s =>
        obtain ⟨rfl, hunmatched, hclosed⟩ := hfits
        rw [Munch.front_append_behind] at hunmatched
        exact ofText_of_unmatched h hunmatched hclosed

end FaultCause

namespace Item

open Munch Pattern

/-- Why an item is no lexeme. -/
def cause? : Item → Option FaultCause
  | lexeme _ => none
  | fault f => some f.cause

variable {source : String} {item : Item}

/-- Every item is a lexeme exactly when the longest text at its place stands for a token, and has
otherwise the one name that its text deserves. -/
theorem cause_iff_fits (h : item ∈ ofSource source) :
    ∃ before text after, item.span.Covers source.toList before text after ∧
      (item.cause? = none ↔ Longest text after ∧ ∃ t, Denotes text t) ∧
      ∀ cause, item.cause? = some cause ↔ cause.Fits text after := by
  obtain ⟨items, others, hitems⟩ := List.append_of_mem h
  obtain ⟨before, c, cs, line, htext, hgap, hscan⟩ := exists_scan_eq_cons hitems
  rw [Nat.zero_add] at hscan
  refine ⟨before, front c cs, behind c cs, ?_, ?_⟩
  · rw [htext]
    exact covers_of_scan_eq_cons hgap hscan
  cases hpiece : (munch c cs).1 with
  | gap => exact absurd hpiece hgap
  | token t =>
      rw [scan_of_token hpiece] at hscan
      cases hscan
      obtain ⟨hlongest, u, hu⟩ := exists_denotes_of_token hpiece
      refine ⟨iff_of_true rfl ⟨hlongest, u, hu⟩, ?_⟩
      intro cause
      exact iff_of_false (Option.some_ne_none cause).symm
        (FaultCause.not_fits_of_denotes hlongest hu)
  | reject =>
      rw [scan_of_reject hpiece] at hscan
      cases hscan
      refine ⟨iff_of_false (Option.some_ne_none _) ?_, ?_⟩
      · rintro ⟨hlongest, t, ht⟩
        exact FaultCause.not_fits_of_denotes hlongest ht (FaultCause.fits_ofText hpiece)
      · intro cause
        rw [cause?, Option.some.injEq]
        exact FaultCause.ofText_eq_iff_fits hpiece

/-- An unknown escape is found behind a known one, and the escaped quote does not end the string. -/
theorem cause_iff_fits_escapes :
    (fault ⟨.badEscape "\"\\\"\\q\"", ⟨0, 6⟩⟩) ∈ ofSource "\"\\\"\\q\"" ∧
      ∃ before text after, (⟨0, 6⟩ : Span).Covers "\"\\\"\\q\"".toList before text after ∧
        (FaultCause.badEscape "\"\\\"\\q\"").Fits text after := by
  have hmem : (fault ⟨.badEscape "\"\\\"\\q\"", ⟨0, 6⟩⟩) ∈ ofSource "\"\\\"\\q\"" := by
    decide +kernel
  obtain ⟨before, text, after, hcovers, -, hname⟩ := cause_iff_fits hmem
  exact ⟨hmem, before, text, after, hcovers, (hname _).1 rfl⟩

/-- An open string that ends in an escaped quote is named as a string with an unknown escape. -/
theorem open_string_named_bad_escape :
    ofSource "\"abc\\\"" = [fault ⟨.badEscape "\"abc\\\"", ⟨0, 6⟩⟩] ∧
      "\"abc\\\"".toList ∉ Pattern.string ∧ ¬ BadEscape "\"abc\\\"".toList := by
  have hopen : "\"abc\\\"".toList ∉ Pattern.string := by
    intro hmem
    have htoken : '"' :: ['a', 'b', 'c', '\\', '"'] ∈ token := by
      rw [cons_mem_token_iff, show lead '"' = .quote from rfl]
      exact hmem
    obtain ⟨rest, hrest, -⟩ := drop_bodyLength_of_front htoken List.prefix_rfl
    exact absurd hrest (by simp [bodyLength])
  exact ⟨by decide +kernel, hopen, fun hbad ↦ hopen hbad.mem_string⟩

end Item
end Barista
