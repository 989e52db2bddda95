import Barista.Shell
import Barista.Proofs.Token.Writing

/-!
# Braces of a text and braces among its tokens

The shell counts braces character by character and knows only strings and comments; the stream of
lexemes knows all tokens.  Piece by piece the two agree: a gap and a token without braces leave the
count as it is, whatever their text holds, and the scan is back in code behind each of them.
-/

namespace Barista

open Computability Munch Pattern

namespace Shell

/-! ## Characters -/

/-- The characters at which the count of braces stays in code and does not change. -/
def isPlain (c : Char) : Bool := c ≠ '"' && c ≠ '#' && c ≠ '{' && c ≠ '}'

variable {c : Char} {cs text rest : List Char}

theorem braceBalance_quote : braceBalance .code ('"' :: cs) = braceBalance .string cs := rfl

theorem braceBalance_hashes : braceBalance .code ('#' :: '#' :: cs) = braceBalance .comment cs :=
  rfl

theorem braceBalance_comment_end :
    braceBalance .comment ('\n' :: cs) = braceBalance .code cs := rfl

theorem braceBalance_string_end : braceBalance .string ('"' :: cs) = braceBalance .code cs := rfl

theorem braceBalance_string_escape : braceBalance .string ('\\' :: c :: cs) =
    braceBalance .string cs := by
  rw [braceBalance, braceBalance]

theorem braceBalance_cons_of_isPlain (hc : isPlain c = true) :
    braceBalance .code (c :: cs) = braceBalance .code cs := by
  simp only [isPlain, ne_eq, decide_not, Bool.and_eq_true, Bool.not_eq_true',
    decide_eq_false_iff_not, and_assoc] at hc
  obtain ⟨hquote, hhash, hopen, hclose⟩ := hc
  rw [braceBalance]
  · exact fun h ↦ absurd h hquote
  · exact fun _ h ↦ absurd h hhash
  · exact fun h ↦ absurd h hopen
  · exact fun h ↦ absurd h hclose

theorem braceBalance_append_of_isPlain (h : ∀ c ∈ text, isPlain c = true) :
    braceBalance .code (text ++ rest) = braceBalance .code rest := by
  induction text with
  | nil => rfl
  | cons c text ih =>
      obtain ⟨hc, htext⟩ := List.forall_mem_cons.1 h
      rw [List.cons_append, braceBalance_cons_of_isPlain hc, ih htext]

theorem braceBalance_comment_cons (hc : c ≠ '\n') :
    braceBalance .comment (c :: cs) = braceBalance .comment cs := by
  rw [braceBalance]
  exact fun h ↦ absurd h hc

/-- A comment ends where its line does. -/
theorem braceBalance_comment (hline : '\n' ∉ text)
    (hend : ∀ c, rest.head? = some c → c = '\n') :
    braceBalance .comment (text ++ rest) = braceBalance .code rest := by
  induction text with
  | nil =>
      cases rest with
      | nil => rfl
      | cons c rest =>
          rw [hend c rfl, List.nil_append, braceBalance_cons_of_isPlain (by decide),
            braceBalance_comment_end]
  | cons c text ih =>
      obtain ⟨hc, htext⟩ := List.ne_and_not_mem_of_not_mem_cons hline
      rw [List.cons_append, braceBalance_comment_cons hc.symm, ih htext]

theorem braceBalance_string_cons (hquote : c ≠ '"') (hbackslash : c ≠ '\\') :
    braceBalance .string (c :: cs) = braceBalance .string cs := by
  rw [braceBalance]
  · exact fun h ↦ absurd h hbackslash
  · exact fun h ↦ absurd h hquote

/-- A string ends with the quote that ends its pattern. -/
theorem braceBalance_string {body : List Char} (h : body ∈ stringUnit∗) :
    braceBalance .string (body ++ '"' :: rest) = braceBalance .code rest := by
  obtain ⟨units, rfl, hunits⟩ := Language.mem_kstar.1 h
  clear h
  induction units with
  | nil => rw [List.flatten_nil, List.nil_append, braceBalance_string_end]
  | cons unit units ih =>
      have ih := ih fun u hu ↦ hunits u (List.mem_cons_of_mem _ hu)
      rw [List.flatten_cons, List.append_assoc]
      rcases mem_stringUnit.1 (hunits unit List.mem_cons_self) with
        ⟨c, ⟨hquote, hbackslash, -⟩, rfl⟩ | ⟨c, -, rfl⟩
      · rw [List.singleton_append, braceBalance_string_cons hquote hbackslash, ih]
      · rw [List.cons_append, List.singleton_append, braceBalance_string_escape, ih]

/-! ## Pieces -/

/-- What a token adds to the count. -/
def weight : Token → Int
  | .punct .openBrace => 1
  | .punct .closeBrace => -1
  | _ => 0

theorem isPlain_of {p : Char → Bool}
    (hp : p '"' = false ∧ p '#' = false ∧ p '{' = false ∧ p '}' = false) (h : p c = true) :
    isPlain c = true := by
  obtain ⟨hquote, hhash, hopen, hclose⟩ := hp
  simp only [isPlain, ne_eq, decide_not, Bool.and_eq_true, Bool.not_eq_true',
    decide_eq_false_iff_not]
  refine ⟨⟨⟨?_, ?_⟩, ?_⟩, ?_⟩ <;> rintro rfl
  · exact Bool.eq_false_iff.1 hquote h
  · exact Bool.eq_false_iff.1 hhash h
  · exact Bool.eq_false_iff.1 hopen h
  · exact Bool.eq_false_iff.1 hclose h

theorem isPlain_of_isNumeral (h : isNumeral c = true) : isPlain c = true :=
  isPlain_of (by decide) h

theorem isPlain_of_continuesName (h : continuesName c = true) : isPlain c = true :=
  isPlain_of (by decide) h

/-- A gap does not count, whatever its comments hold. -/
theorem braceBalance_gap (h : Gap rest text) :
    braceBalance .code (text ++ rest) = braceBalance .code rest := by
  induction h with
  | nil => rfl
  | blank hc _ ih =>
      refine (braceBalance_cons_of_isPlain ?_).trans ih
      rcases hc with rfl | rfl | rfl | rfl <;> decide
  | comment hline hend _ ih =>
      rw [List.cons_append, List.cons_append, List.append_assoc, braceBalance_hashes,
        braceBalance_comment hline hend, ih]

theorem braceBalance_of_weight_eq_zero {t : Token} (htext : ∀ c ∈ text, isPlain c = true)
    (ht : weight t = 0) :
    braceBalance .code (text ++ rest) = weight t + braceBalance .code rest := by
  rw [braceBalance_append_of_isPlain htext, ht, Int.zero_add]

theorem braceBalance_of_mem_name {t : Token} (h : text ∈ name) (ht : weight t = 0) :
    braceBalance .code (text ++ rest) = weight t + braceBalance .code rest :=
  braceBalance_of_weight_eq_zero
    (fun c hc ↦ isPlain_of_continuesName (continuesName_of_mem_name h c hc)) ht

/-- A token counts for its weight, whatever its text holds. -/
theorem braceBalance_of_denotes {t : Token} (h : Denotes text t) :
    braceBalance .code (text ++ rest) = weight t + braceBalance .code rest := by
  cases t with
  | int n =>
      have hplain := fun c hc ↦ isPlain_of_isNumeral (isNumeral_of_mem_digits h.1 c hc)
      exact braceBalance_of_weight_eq_zero hplain rfl
  | double d =>
      have hplain := fun c hc ↦ isPlain_of_isNumeral (isNumeral_of_mem_double h.1 c hc)
      exact braceBalance_of_weight_eq_zero hplain rfl
  | string value =>
      obtain ⟨body, hbody, rfl, -⟩ := h
      rw [List.cons_append, List.append_assoc, List.singleton_append, braceBalance_quote,
        braceBalance_string hbody]
      exact (Int.zero_add _).symm
  | ident x => exact braceBalance_of_mem_name h.1 rfl
  | keyword k => exact braceBalance_of_mem_name (mem_name_of_mem_keyword ⟨k, h⟩) rfl
  | symbol s =>
      obtain rfl : text = s.text.toList := h
      refine braceBalance_of_weight_eq_zero (List.all_eq_true.1 ?_) rfl
      cases s <;> decide
  | punct p =>
      obtain rfl : text = p.text.toList := h
      cases p with
      | openBrace => exact Int.add_comm _ _
      | closeBrace => exact (Int.sub_eq_add_neg).trans (Int.add_comm _ _)
      | _ => exact braceBalance_of_weight_eq_zero (List.all_eq_true.1 (by decide)) rfl

theorem braceBalance_of_token {t : Token} (h : (munch c cs).1 = .token t) :
    braceBalance .code (c :: cs) = weight t + braceBalance .code (behind c cs) := by
  rw [← front_append_behind c cs]
  obtain ⟨-, hdenotes, hident⟩ := @Item.accords_of_token 0 false c cs t h
  by_cases hmasked : Masked (front c cs) (behind c cs)
  · -- A keyword that is taken for a name has the pattern of a name all the same.
    have ht : t = .ident (String.ofList (front c cs)) := (hident hmasked).1
    rw [ht]
    exact braceBalance_of_mem_name (mem_name_of_mem_keyword hmasked.1) rfl
  · exact braceBalance_of_denotes ((hdenotes hmasked t).2 rfl)

/-! ## Texts -/

theorem braceBalance_of_scan {start : Nat} {onNewLine : Bool} {ls : List Lexeme}
    (h : Item.scan start onNewLine 0 cs = ls.map .lexeme) :
    braceBalance .code cs = (ls.map fun l ↦ weight l.token).sum := by
  induction start, onNewLine, cs using Item.scan_induction generalizing ls with
  | nil =>
      rw [Item.scan, eq_comm, List.map_eq_nil_iff] at h
      rw [h]
      rfl
  | cons start onNewLine c cs ih =>
      cases hpiece : (munch c cs).1 with
      | gap =>
          rw [Item.scan_cons, hpiece] at h
          rw [hpiece] at ih
          rw [← front_append_behind c cs, braceBalance_gap (gap_front hpiece)]
          exact ih h
      | token t =>
          rw [hpiece] at ih
          rw [Item.scan_of_token hpiece] at h
          obtain ⟨l, ls, rfl, hl, hls⟩ := List.map_eq_cons_iff.1 h.symm
          cases hl
          rw [braceBalance_of_token hpiece, ih hls.symm, List.map_cons, List.sum_cons]
      | reject =>
          rw [Item.scan_of_reject hpiece] at h
          obtain ⟨l, _, _, hl, _⟩ := List.map_eq_cons_iff.1 h.symm
          cases hl

theorem sum_weight (ls : List Lexeme) :
    (ls.map fun l ↦ weight l.token).sum =
      (ls.countP (·.token = .punct .openBrace) : Int) -
        ls.countP (·.token = .punct .closeBrace) := by
  induction ls with
  | nil => rfl
  | cons l ls ih =>
      rw [List.map_cons, List.sum_cons, ih, List.countP_cons, List.countP_cons]
      unfold weight
      split <;> simp_all <;> omega

/-- Where a text has no fault, the braces that are counted are those among its tokens, and the shell
waits for another line as long as more of them open a block than close one. -/
theorem openBraces_eq_tokens {text : String} {ls : List Lexeme} {c : Cursor}
    (h : (Cursor.ofSource text).Reads ls c) (hend : c.next = (.ok none, c)) :
    openBraces text =
      (ls.countP (·.token = .punct .openBrace) : Int) -
        ls.countP (·.token = .punct .closeBrace) ∧
    ∀ (shell : Shell) (line : String), shell.buffer ++ line ++ "\n" = text →
      (shell.collect line).shell.buffer =
        if ls.countP (·.token = .punct .closeBrace) < ls.countP (·.token = .punct .openBrace)
        then text else "" := by
  have hitems : c.items = [] := by
    obtain ⟨_ | ⟨_ | _, items⟩, last, stop⟩ := c
    · rfl
    · cases hend
    · cases hend
  have hscan : Item.scan 0 false 0 text.toList = ls.map .lexeme := by
    rw [Cursor.scan_of_reads h, hitems, List.append_nil]
  have hbraces : openBraces text = (ls.countP (·.token = .punct .openBrace) : Int) -
      ls.countP (·.token = .punct .closeBrace) :=
    (braceBalance_of_scan hscan).trans (sum_weight ls)
  refine ⟨hbraces, ?_⟩
  rintro shell line rfl
  rw [collect]
  dsimp only
  rw [hbraces]
  split
  · rw [if_pos (by omega)]
  · rw [if_neg (by omega)]

/-- A brace and a comment sign in a string behind an escaped quote, and a quote and a brace in a
comment: the block that the text opens stays open. -/
theorem openBraces_eq_tokens_hidden :
    let line := "if a \x7b b = \"\\\"## \x7d\" ## \" \x7d"
    let shell := Shell.start .standard
    openBraces (shell.buffer ++ line ++ "\n") = 1 ∧
      (shell.collect line).shell.buffer = line ++ "\n" := by
  intro line shell
  have hcursor : Cursor.ofSource (shell.buffer ++ line ++ "\n") =
      ⟨[.lexeme ⟨.keyword .cond, ⟨0, 2⟩, false⟩, .lexeme ⟨.ident "a", ⟨3, 4⟩, false⟩,
        .lexeme ⟨.punct .openBrace, ⟨5, 6⟩, false⟩, .lexeme ⟨.ident "b", ⟨7, 8⟩, false⟩,
        .lexeme ⟨.symbol .assign, ⟨9, 10⟩, false⟩,
        .lexeme ⟨.string "\"## \x7d", ⟨11, 19⟩, false⟩], ⟨0, 0⟩, 27⟩ := by
    decide +kernel
  have hreads : (Cursor.ofSource (shell.buffer ++ line ++ "\n")).Reads
      [⟨.keyword .cond, ⟨0, 2⟩, false⟩, ⟨.ident "a", ⟨3, 4⟩, false⟩,
        ⟨.punct .openBrace, ⟨5, 6⟩, false⟩, ⟨.ident "b", ⟨7, 8⟩, false⟩,
        ⟨.symbol .assign, ⟨9, 10⟩, false⟩, ⟨.string "\"## \x7d", ⟨11, 19⟩, false⟩]
      ⟨[], ⟨11, 19⟩, 27⟩ := by
    rw [hcursor]
    exact .cons rfl (.cons rfl (.cons rfl (.cons rfl (.cons rfl (.cons rfl (.nil _))))))
  obtain ⟨hbraces, hwaits⟩ := openBraces_eq_tokens hreads rfl
  exact ⟨hbraces, hwaits shell line rfl⟩

end Shell
end Barista
