import Barista.Proofs.Token.Partition
import Barista.Proofs.Double.Literal

/-!
# Tokens written and read back

A text that stands for a token is read as that token wherever a blank or the end of the text follows
it: of all texts with a pattern only strings hold blanks, and a string ends with its own quote.  So
any row of such texts with a blank or a line break in front of each can be read back, and so can the
tokens of a program once each is written in its source form.
-/

namespace Barista

open Computability

/-! ## The characters of tokens -/

namespace Pattern

open Munch (isGap continuesName)

variable {text rest : List Char} {c : Char}

/-- The characters of numbers. -/
def isNumeral (c : Char) : Bool :=
  c.isDigit || c = '.' || c = 'e' || c = 'E' || c = '+' || c = '-'

theorem isNumeral_of_mem_digits (h : text ∈ digits) : ∀ c ∈ text, isNumeral c = true := by
  intro c hc
  simp [isNumeral, (mem_digits.1 h).2 c hc]

theorem isNumeral_of_mem_exponent (h : text ∈ exponent) : ∀ c ∈ text, isNumeral c = true := by
  obtain ⟨mark, sign, number, rfl, hmark, hsign, hnumber⟩ := mem_exponent.1 h
  intro c hc
  rcases List.mem_cons.1 hc with rfl | hc
  · rcases hmark with rfl | rfl <;> decide
  rcases List.mem_append.1 hc with hc | hc
  · rcases hsign with rfl | rfl | rfl
    · cases hc
    · rw [List.mem_singleton.1 hc]
      decide
    · rw [List.mem_singleton.1 hc]
      decide
  · exact isNumeral_of_mem_digits hnumber c hc

theorem isNumeral_of_mem_double (h : text ∈ double) : ∀ c ∈ text, isNumeral c = true := by
  obtain ⟨whole, hwhole, ending, hending, rfl⟩ := mem_double.1 h
  intro c hc
  rcases List.mem_append.1 hc with hc | hc
  · exact isNumeral_of_mem_digits hwhole c hc
  rcases mem_ending.1 hending with ⟨fraction, hfraction, e, he, rfl⟩ | he
  · rcases List.mem_cons.1 hc with rfl | hc
    · decide
    rcases List.mem_append.1 hc with hc | hc
    · exact isNumeral_of_mem_digits hfraction c hc
    rcases he with rfl | he
    · cases hc
    · exact isNumeral_of_mem_exponent he c hc
  · exact isNumeral_of_mem_exponent he c hc

theorem continuesName_of_mem_name (h : text ∈ name) : ∀ c ∈ text, continuesName c = true := by
  obtain ⟨d, rest, rfl, hd, hrest⟩ := mem_name.1 h
  intro c hc
  rcases List.mem_cons.1 hc with rfl | hc
  · have hletter : (Text.isLetter c || c = '_') = true := hd
    rw [continuesName, Bool.or_right_comm, hletter, Bool.true_or]
  · exact hrest c hc

/-- What holds of every character of every mark. -/
theorem of_mem_mark {p : Char → Bool} (hsymbol : ∀ s : Symbol, s.text.toList.all p = true)
    (hpunct : ∀ m : Punct, m.text.toList.all p = true) (h : text ∈ mark) :
    ∀ c ∈ text, p c = true := by
  rcases h with ⟨s, rfl⟩ | ⟨m, rfl⟩
  · exact List.all_eq_true.1 (hsymbol s)
  · exact List.all_eq_true.1 (hpunct m)

theorem isGap_cases (h : isGap c = true) : c = ' ' ∨ c = '\t' ∨ c = '\n' ∨ c = '\r' := by
  simpa only [isGap, Bool.or_eq_true, decide_eq_true_eq, or_assoc] using h

theorem isGap_eq_false_of {p : Char → Bool}
    (hp : p ' ' = false ∧ p '\t' = false ∧ p '\n' = false ∧ p '\r' = false) (h : p c = true) :
    isGap c = false := by
  obtain ⟨hspace, htab, hline, hreturn⟩ := hp
  rw [Bool.eq_false_iff]
  intro hgap
  rcases isGap_cases hgap with rfl | rfl | rfl | rfl
  · exact Bool.eq_false_iff.1 hspace h
  · exact Bool.eq_false_iff.1 htab h
  · exact Bool.eq_false_iff.1 hline h
  · exact Bool.eq_false_iff.1 hreturn h

/-- Only strings hold blanks. -/
theorem isGap_eq_false_of_mem_token (htext : c :: text ∈ token) (hquote : lead c ≠ .quote) :
    ∀ d ∈ c :: text, isGap d = false := by
  intro d hd
  rw [cons_mem_token_iff] at htext
  cases hlead : lead c with
  | digit =>
      rw [hlead] at htext
      have hnumeral : isNumeral d = true := by
        rcases htext with htext | htext
        · exact isNumeral_of_mem_digits htext d hd
        · exact isNumeral_of_mem_double htext d hd
      exact isGap_eq_false_of (by decide) hnumeral
  | quote => exact absurd hlead hquote
  | letter =>
      rw [hlead] at htext
      exact isGap_eq_false_of (by decide) (continuesName_of_mem_name htext d hd)
  | other =>
      rw [hlead] at htext
      have hmark : (!isGap d) = true := by
        refine of_mem_mark (p := fun d ↦ !isGap d) ?_ ?_ htext d hd
        · intro s
          cases s <;> decide
        · intro m
          cases m <;> decide
      rwa [Bool.not_eq_true'] at hmark

end Pattern

/-! ## A token in front of a blank -/

open Munch Pattern
open Text (byteWidth)

/-- A blank or the end of the text. -/
def Break (rest : List Char) : Prop := ∀ c, rest.head? = some c → isGap c = true

section Break

variable {c : Char} {cs text rest : List Char} {t : Token}

theorem break_nil : Break [] := fun _ h ↦ nomatch h

theorem break_cons (hc : isGap c = true) : Break (c :: rest) := by
  rintro _ ⟨⟩
  exact hc

theorem mem_token_of_denotes (h : Denotes text t) : text ∈ Pattern.token := by
  simp only [Pattern.token, Language.mem_add]
  cases t with
  | int n => exact .inl (.inl (.inl (.inl (.inl h.1))))
  | double d => exact .inl (.inl (.inl (.inl (.inr h.1))))
  | string value =>
      obtain ⟨body, hbody, htext, -⟩ := h
      exact .inl (.inl (.inl (.inr (mem_string.2 ⟨body, hbody, htext⟩))))
  | ident x => exact .inl (.inl (.inr h.1))
  | keyword k => exact .inl (.inr ⟨k, h⟩)
  | symbol s => exact .inr (.inl ⟨s, h⟩)
  | punct p => exact .inr (.inr ⟨p, h⟩)

theorem munch_ne_gap_of_mem_token (h : c :: cs ∈ Pattern.token) :
    (munch c (cs ++ rest)).1 ≠ .gap := by
  intro hgap
  have hfirst : isGap c = true ∨ c = '#' := by
    rcases munch_of_gap hgap with ⟨hc, -⟩ | ⟨hc, -⟩
    · exact .inl hc
    · exact .inr hc
  -- A character that begins a gap could only begin a mark, and it begins none.
  have hlead : lead c = .other := by
    rcases hfirst with hc | rfl
    · rcases isGap_cases hc with rfl | rfl | rfl | rfl <;> decide
    · decide
  rw [cons_mem_token_iff, hlead] at h
  have hmark : (!isGap c && c ≠ '#') = true := by
    refine of_cons_mem_mark (p := fun c ↦ !isGap c && c ≠ '#') ?_ ?_ h
    · intro s
      cases s <;> decide
    · intro m
      cases m <;> decide
  simp only [ne_eq, decide_not, Bool.and_eq_true, Bool.not_eq_true', decide_eq_false_iff_not]
    at hmark
  rcases hfirst with hc | hc
  · rw [hmark.1] at hc
    cases hc
  · exact hmark.2 hc

/-- Of the texts at the front with a pattern, none goes on behind a token that a blank follows. -/
theorem length_le_of_break {other : List Char} (hother : other ∈ Pattern.token)
    (hfront : other <+: c :: cs ++ rest) (htext : c :: cs ∈ Pattern.token) (hrest : Break rest) :
    other.length ≤ (c :: cs).length := by
  obtain ⟨ds, rfl⟩ := exists_cons_of_front hother hfront
  by_cases hquote : lead c = .quote
  · obtain rfl : c = '"' := by
      have hc := cons_mem_token_iff.1 htext
      rw [hquote] at hc
      obtain ⟨body, -, hbody⟩ := mem_string.1 hc
      exact (List.cons.inj hbody).1
    obtain ⟨-, -, hlength⟩ := drop_bodyLength_of_front hother hfront
    obtain ⟨-, -, hlength'⟩ := drop_bodyLength_of_front htext (List.prefix_append _ rest)
    exact (congrArg Nat.succ (hlength.trans hlength'.symm)).le
  · refine Nat.le_of_not_lt fun hlt ↦ ?_
    obtain ⟨more, hmore⟩ :=
      List.prefix_of_prefix_length_le (List.prefix_append _ rest) hfront hlt.le
    cases more with
    | nil =>
        rw [List.append_nil] at hmore
        rw [hmore] at hlt
        exact Nat.lt_irrefl _ hlt
    | cons b more =>
        have hblank : isGap b = true := by
          rw [← hmore] at hfront
          obtain ⟨others, rfl⟩ := (List.prefix_append_right_inj _).1 hfront
          exact hrest b rfl
        have hb : b ∈ c :: ds := by
          rw [← hmore]
          simp
        rw [isGap_eq_false_of_mem_token hother hquote b hb] at hblank
        cases hblank

/-- A text that stands for a token is read as that token in front of a blank. -/
theorem munch_of_denotes (h : Denotes (c :: cs) t) (hrest : Break rest) :
    munch c (cs ++ rest) = (.token t, cs.length) := by
  have htext := mem_token_of_denotes h
  have hgap : (munch c (cs ++ rest)).1 ≠ .gap := munch_ne_gap_of_mem_token htext
  have hmasked : ¬ Masked (front c (cs ++ rest)) (behind c (cs ++ rest)) := by
    intro hmasked
    have hc := startsName_of_masked hmasked
    have hname : c :: cs ∈ name := by
      rwa [cons_mem_token_iff, lead_of_startsName hc] at htext
    have hrun : run continuesName (cs ++ rest) = cs.length := by
      refine run_append (List.forall_mem_cons.1 (continuesName_of_mem_name hname)).2 ?_
      cases rest with
      | nil => rfl
      | cons b others =>
          refine run_cons_of_neg ?_
          rcases isGap_cases (hrest b rfl) with rfl | rfl | rfl | rfl <;> decide
    have hlike := hmasked.2
    rw [behind, munch_of_startsName hc, hrun, List.drop_left] at hlike
    obtain ⟨b, hb, hlike⟩ := (Option.any_eq_true _ _).1 hlike
    have hascii : 0x80 ≤ b.toNat := of_decide_eq_true (Bool.and_eq_true_iff.1 hlike).1
    rcases isGap_cases (hrest b hb) with rfl | rfl | rfl | rfl <;> exact absurd hascii (by decide)
  rcases munch_settles hgap hmasked with ⟨hlongest, hdenotes⟩ | ⟨hunmatched, -⟩
  · -- The piece is at least as long as the text, and no longer.
    have hwhole : front c (cs ++ rest) ++ behind c (cs ++ rest) = c :: cs ++ rest :=
      front_append_behind c (cs ++ rest)
    have hfront : front c (cs ++ rest) <+: c :: cs ++ rest := ⟨_, hwhole⟩
    have hge : (c :: cs).length ≤ (front c (cs ++ rest)).length := by
      refine hlongest.2 _ htext ?_
      rw [hwhole]
      exact List.prefix_append _ _
    have hle := length_le_of_break hlongest.1 hfront htext hrest
    have heq : front c (cs ++ rest) = c :: cs :=
      ((List.prefix_of_prefix_length_le (List.prefix_append _ rest) hfront hge).eq_of_length
        (Nat.le_antisymm hge hle)).symm
    refine Prod.ext ?_ ?_
    · exact (hdenotes t).1 (heq ▸ h)
    · have hlength := congrArg List.length heq
      rw [front, List.length_cons, List.length_cons, List.length_take,
        Nat.min_eq_left (munch_length_le c _)] at hlength
      exact Nat.succ.inj hlength
  · rw [front_append_behind] at hunmatched
    exact absurd (List.prefix_append (c :: cs) rest) (hunmatched _ htext)

theorem scan_of_denotes {start : Nat} {onNewLine : Bool} (h : Denotes text t) (hrest : Break rest) :
    Item.scan start onNewLine 0 (text ++ rest) =
      .lexeme ⟨t, ⟨start, start + byteWidth text⟩, onNewLine⟩ ::
        Item.scan (start + byteWidth text) false 0 rest := by
  obtain ⟨c, cs, rfl⟩ := List.exists_cons_of_ne_nil (ne_nil_of_mem_token (mem_token_of_denotes h))
  have hmunch := munch_of_denotes h hrest
  have hfront : front c (cs ++ rest) = c :: cs := by
    rw [front, hmunch, List.take_left]
  have hbehind : behind c (cs ++ rest) = rest := by
    rw [behind, hmunch, List.drop_left]
  rw [List.cons_append, Item.scan_of_token (congrArg Prod.fst hmunch), hfront, hbehind]

end Break

/-! ## Rows of texts -/

/-- Texts with a line break or a blank in front of each. -/
def spaced : List (Bool × List Char) → List Char
  | [] => []
  | (onNewLine, text) :: words => (if onNewLine then '\n' else ' ') :: (text ++ spaced words)

theorem break_spaced (words : List (Bool × List Char)) : Break (spaced words) := by
  cases words with
  | nil => exact break_nil
  | cons word words =>
      refine break_cons ?_
      split <;> rfl

/-- A row of texts that stand for tokens is read as these tokens, on the lines where they stand. -/
theorem scan_spaced {words : List (Bool × List Char)} {tokens : List Token}
    (h : List.Forall₂ (fun word token ↦ Denotes word.2 token) words tokens) (start : Nat) :
    ∃ ls : List Lexeme, Item.scan start false 0 (spaced words) = ls.map .lexeme ∧
      ls.map Lexeme.token = tokens ∧ ls.map Lexeme.onNewLine = words.map Prod.fst := by
  induction h generalizing start with
  | nil => exact ⟨[], rfl, rfl, rfl⟩
  | @cons word token words tokens hdenotes _ ih =>
      obtain ⟨onNewLine, text⟩ := word
      obtain ⟨ls, hscan, htokens, hlines⟩ := ih (start + 1 + byteWidth text)
      have hfirst : Item.scan start false 0 (spaced ((onNewLine, text) :: words)) =
          Item.scan (start + 1) onNewLine 0 (text ++ spaced words) := by
        cases onNewLine
        · exact Item.scan_gap rfl
        · exact Item.scan_gap rfl
      refine ⟨⟨token, ⟨start + 1, start + 1 + byteWidth text⟩, onNewLine⟩ :: ls, ?_, ?_, ?_⟩
      · rw [hfirst, scan_of_denotes hdenotes (break_spaced words), hscan, List.map_cons]
      · rw [List.map_cons, htokens]
      · rw [List.map_cons, hlines, List.map_cons]

/-! ## The source form of tokens -/

/-- What a character of a string is written as. -/
def escape (c : Char) : List Char :=
  match c with
  | '\n' => ['\\', 'n']
  | '\t' => ['\\', 't']
  | '\r' => ['\\', 'r']
  | '\\' => ['\\', '\\']
  | '"' => ['\\', '"']
  | '\x00' => ['\\', '0']
  | c => [c]

/-- An escaped character is one unit of a string. -/
theorem escape_cases (c : Char) :
    (∃ d, unescape? d = some c ∧ d ≠ '\n' ∧ escape c = ['\\', d]) ∨
      (c ≠ '"' ∧ c ≠ '\\' ∧ c ≠ '\n') ∧ escape c = [c] := by
  unfold escape
  split
  · exact .inl ⟨'n', rfl, by decide, rfl⟩
  · exact .inl ⟨'t', rfl, by decide, rfl⟩
  · exact .inl ⟨'r', rfl, by decide, rfl⟩
  · exact .inl ⟨'\\', rfl, by decide, rfl⟩
  · exact .inl ⟨'"', rfl, by decide, rfl⟩
  · exact .inl ⟨'0', rfl, by decide, rfl⟩
  · exact .inr ⟨by simp_all, rfl⟩

theorem escape_mem_stringUnit (c : Char) : escape c ∈ stringUnit := by
  rw [mem_stringUnit]
  rcases escape_cases c with ⟨d, -, hd, heq⟩ | ⟨hc, heq⟩
  · exact .inr ⟨d, hd, heq⟩
  · exact .inl ⟨c, hc, heq⟩

theorem flatMap_escape_mem (value : List Char) : value.flatMap escape ∈ stringUnit∗ := by
  refine Language.mem_kstar.2 ⟨value.map escape, List.flatMap_def, ?_⟩
  intro unit hunit
  obtain ⟨c, -, rfl⟩ := List.mem_map.1 hunit
  exact escape_mem_stringUnit c

theorem spells_flatMap_escape (value : List Char) : Spells (value.flatMap escape) value := by
  induction value with
  | nil => exact .nil
  | cons c value ih =>
      rw [List.flatMap_cons]
      rcases escape_cases c with ⟨d, hd, -, heq⟩ | ⟨hc, heq⟩
      · rw [heq]
        exact .escape hd ih
      · rw [heq]
        exact .plain hc.2.1 ih

namespace Token

/-- A token as it is written in a program. -/
def written : Token → List Char
  | int n => n.text.toList
  | double d => d.text.toList
  | string value => '"' :: (value.toList.flatMap escape ++ ['"'])
  | ident x => x.toList
  | keyword k => k.text.toList
  | symbol s => s.text.toList
  | punct p => p.text.toList

/-- The tokens that programs are written with, doubles apart: numbers have no sign, and a name has
the pattern of a name and is no keyword. -/
def Writable : Token → Prop
  | int n => 0 ≤ n.toInt
  | double _ => False
  | ident x => x.toList ∈ name ∧ x.toList ∉ Pattern.keyword
  | string _ | keyword _ | symbol _ | punct _ => True

theorem denotes_written {t : Token} (h : t.Writable) : Denotes t.written t := by
  cases t with
  | int n =>
      have hn : 0 ≤ n.toInt := h
      have htext : n.text.toList = Nat.toDigits 10 n.toInt.toNat := by
        rw [Whole.text, ← Int.toNat_of_nonneg hn, Int.toNat_natCast]
        exact String.toList_ofList
      refine ⟨?_, ?_⟩
      · rw [written, htext, mem_digits]
        exact ⟨Nat.toDigits_ne_nil, isDigit_of_mem_toDigits⟩
      · rw [written, htext, digitsValue_toDigits, Int.toNat_of_nonneg hn]
  | double d => exact h.elim
  | string value => exact ⟨_, flatMap_escape_mem _, rfl, spells_flatMap_escape _⟩
  | ident x => exact ⟨h.1, h.2, rfl⟩
  | keyword k => rfl
  | symbol s => rfl
  | punct p => rfl

end Token

/-- Tokens in their source form with a blank between them. -/
def written (ts : List Token) : String :=
  String.ofList ([' '].intercalate (ts.map Token.written))

theorem intercalate_written (t : Token) (ts : List Token) :
    [' '].intercalate ((t :: ts).map Token.written) =
      t.written ++ spaced (ts.map fun t ↦ (false, t.written)) := by
  induction ts generalizing t with
  | nil => simp [spaced]
  | cons u ts ih =>
      have hcons := ih u
      rw [List.map_cons] at hcons
      rw [List.map_cons, List.map_cons, List.intercalate_cons_cons, hcons, List.append_assoc]
      rfl

theorem scan_written {ts : List Token} (h : ∀ t ∈ ts, t.Writable) :
    ∃ ls : List Lexeme, Item.ofSource (written ts) = ls.map .lexeme ∧ ls.map Lexeme.token = ts := by
  cases ts with
  | nil => exact ⟨[], rfl, rfl⟩
  | cons t ts =>
      obtain ⟨ht, hts⟩ := List.forall_mem_cons.1 h
      have hwords : List.Forall₂ (fun word token ↦ Denotes word.2 token)
          (ts.map fun t ↦ (false, t.written)) ts := by
        rw [List.forall₂_map_left_iff, List.forall₂_same]
        exact fun u hu ↦ Token.denotes_written (hts u hu)
      obtain ⟨ls, hscan, htokens, -⟩ := scan_spaced hwords (0 + byteWidth t.written)
      refine ⟨⟨t, ⟨0, 0 + byteWidth t.written⟩, false⟩ :: ls, ?_, ?_⟩
      · rw [Item.ofSource, written, String.toList_ofList, intercalate_written,
          scan_of_denotes (Token.denotes_written ht) (break_spaced _), hscan, List.map_cons]
      · rw [List.map_cons, htokens]

namespace Cursor

/-- Lexemes at the front of a stream are read one after the other. -/
theorem reads_of_items {c : Cursor} {ls : List Lexeme} {others : List Item}
    (h : c.items = ls.map .lexeme ++ others) : ∃ c', c.Reads ls c' ∧ c'.items = others := by
  induction ls generalizing c with
  | nil => exact ⟨c, .nil c, h⟩
  | cons l ls ih =>
      obtain ⟨items, last, stop⟩ := c
      cases h
      obtain ⟨c', hreads, hothers⟩ := @ih ⟨ls.map .lexeme ++ others, l.span, stop⟩ rfl
      exact ⟨c', .cons rfl hreads, hothers⟩

/-- Tokens that are written down with a blank between them are read back, and then the text is at
its end. -/
theorem reads_written (ts : List Token) (h : ∀ t ∈ ts, t.Writable) :
    ∃ ls c, (ofSource (written ts)).Reads ls c ∧ ls.map Lexeme.token = ts ∧
      c.next = (.ok none, c) := by
  obtain ⟨ls, hitems, htokens⟩ := scan_written h
  have hfront : (ofSource (written ts)).items = ls.map .lexeme ++ [] := by
    rw [List.append_nil]
    exact hitems
  obtain ⟨c, hreads, hnil⟩ := reads_of_items hfront
  refine ⟨ls, c, hreads, htokens, ?_⟩
  obtain ⟨items, last, stop⟩ := c
  cases hnil
  rfl

/-- The greatest number, a name beyond ASCII that begins like a keyword, and a string that holds
everything that has to be escaped and what looks like a comment. -/
theorem reads_written_marks :
    let ts : List Token := [.int ⟨0x7fffffffffffffff, by decide, by decide⟩, .ident "intä_1",
      .string "a\n\t\r\\\"\x00 ## \x7b", .keyword .within, .symbol .minus, .punct .arrow]
    written ts = "9223372036854775807 intä_1 \"a\\n\\t\\r\\\\\\\"\\0 ## \x7b\" in - ->" ∧
      ∃ ls c, (ofSource (written ts)).Reads ls c ∧ ls.map Lexeme.token = ts ∧
        c.next = (.ok none, c) := by
  intro ts
  have hname : "intä_1".toList ∈ name :=
    mem_name.2 ⟨'i', _, rfl, by decide, List.all_eq_true.1 (by decide +kernel)⟩
  have hkeyword : "intä_1".toList ∉ Pattern.keyword := by
    rw [mem_keyword_iff]
    decide
  refine ⟨by decide, reads_written ts ?_⟩
  simp only [ts, List.forall_mem_cons, List.not_mem_nil, false_imp_iff, implies_true, and_true,
    Token.Writable]
  exact ⟨by decide, hname, hkeyword⟩

end Cursor
end Barista
