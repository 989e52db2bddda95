import Barista.Proofs.Surface.Descent

/-!
# Errors at the earliest token

The words in front of a syntax error can be continued to a program, and no program begins with these
words and the one at which the error is reported.  The continuation is written down as a text: each
word that was read has a text that stands for it, and so has each word of a completion.
-/

namespace Barista

open Pattern Munch

namespace Surface

open Item (words)

/-- The tokens of the text begin like these lexemes, with the same line breaks between them. -/
def BeginsLike (source : String) (ls : List Lexeme) : Prop :=
  ∃ (ls' : List Lexeme) (others : List Item), Item.ofSource source = ls'.map .lexeme ++ others ∧
    ls'.map Lexeme.token = ls.map Lexeme.token ∧
    ls'.tail.map Lexeme.onNewLine = ls.tail.map Lexeme.onNewLine

/-! ## Texts for words -/

/-- Every lexeme in front of something that is no fault has a text that stands for its token. -/
theorem exists_denotes {source : String} {ls : List Lexeme} {rest : List Item} {l : Lexeme}
    (hitems : Item.ofSource source = ls.map .lexeme ++ rest)
    (hrest : ∀ f items, rest ≠ .fault f :: items) (hl : l ∈ ls) : ∃ text, Denotes text l.token := by
  have hcursor : (Cursor.ofSource source).items = ls.map .lexeme ++ rest := hitems
  obtain ⟨c, hreads, rfl⟩ := Cursor.reads_of_items hcursor
  obtain ⟨-, text, -, -, hdenotes⟩ := Cursor.denotes_of_reads hreads hrest hl
  exact ⟨text, hdenotes⟩

theorem exists_texts {ws : List Word} (h : ∀ w ∈ ws, ∃ text, Denotes text w.1) :
    ∃ texts : List (Bool × List Char),
      List.Forall₂ (fun text token ↦ Denotes text.2 token) texts (ws.map Prod.fst) ∧
        texts.map Prod.fst = ws.map Prod.snd := by
  induction ws with
  | nil => exact ⟨[], .nil, rfl⟩
  | cons w ws ih =>
      obtain ⟨⟨text, htext⟩, hws⟩ := List.forall_mem_cons.1 h
      obtain ⟨texts, htexts, hlines⟩ := ih hws
      exact ⟨(w.2, text) :: texts, .cons htext htexts, congrArg (List.cons w.2) hlines⟩

/-- Words that texts stand for are the words of a text. -/
theorem exists_source {ws : List Word} (h : ∀ w ∈ ws, ∃ text, Denotes text w.1) :
    ∃ (source : String) (ls : List Lexeme), Item.ofSource source = ls.map .lexeme ∧
      ls.map Lexeme.word = ws := by
  obtain ⟨texts, htexts, hlines⟩ := exists_texts h
  obtain ⟨ls, hscan, htokens, hbreaks⟩ := scan_spaced htexts 0
  refine ⟨String.ofList (spaced texts), ls, ?_, ?_⟩
  · rw [Item.ofSource, String.toList_ofList, hscan]
  · rw [Lexeme.map_word, htokens, hbreaks, hlines, List.zip_map']
    exact List.map_id ws

/-! ## Programs and runs -/

theorem items_of_program (c : Cursor) {statements : List Stmt} {r : Cursor}
    (h : (program c).Reads statements r) : r.items = [] := by
  rw [program] at h
  split at h
  · exact (Outcome.not_reads_fail h).elim
  · rename_i hview
    obtain ⟨-, rfl⟩ := Outcome.reads_done.1 h
    exact Cursor.items_of_view_finish hview
  · rw [Outcome.reads_relax] at h
    obtain ⟨first, c₁, hlt₁, -, h⟩ := Outcome.reads_andThen.1 h
    obtain ⟨others, hothers, -⟩ := Outcome.reads_map.1 h
    exact items_of_program c₁ hothers
termination_by c.length

/-- The words of a program lead a run to its end. -/
theorem runs_of_parse {source : String} {statements : List Stmt}
    (h : parse source = .ok statements) :
    ∃ ls : List Lexeme, Item.ofSource source = ls.map .lexeme ∧
      Runs [.program] (ls.map Lexeme.word) [] [] := by
  have hmirrors := mirrors_program (Cursor.ofSource source)
  rw [parse] at h
  cases hprogram : program (Cursor.ofSource source) with
  | ok value r hlt =>
      rw [hprogram] at hmirrors
      obtain ⟨⟨ls, hitems, hruns⟩, -⟩ := hmirrors
      have hnil : r.items = [] := items_of_program _ ⟨hlt, hprogram⟩
      rw [hnil] at hitems hruns
      rw [List.append_nil] at hitems
      exact ⟨ls, hitems, hruns⟩
  | fail error r =>
      rw [hprogram] at h
      cases h

/-- Words that lead a run to its end are those of a program. -/
theorem parse_of_runs {source : String} {ls : List Lexeme}
    (hitems : Item.ofSource source = ls.map .lexeme)
    (hruns : Runs [.program] (ls.map Lexeme.word) [] []) :
    ∃ statements, parse source = .ok statements := by
  have hmirrors := mirrors_program (Cursor.ofSource source)
  rw [parse]
  cases hprogram : program (Cursor.ofSource source) with
  | ok value r hlt => exact ⟨value, rfl⟩
  | fail error r =>
      rw [hprogram] at hmirrors
      exfalso
      have hstuck : ∀ rest, ¬ StuckAt [.program] (Cursor.ofSource source) rest := by
        rintro rest ⟨g, more, ⟨front, hfront, hrun⟩, hmove⟩
        have hwords : ls.map Lexeme.word = front.map Lexeme.word ++ words rest := by
          rw [← Item.words_append, ← Item.words_map]
          exact congrArg words (hitems.symm.trans hfront)
        rw [hwords] at hruns
        exact hrun.not_of_stuck hmove rfl hruns
      cases error with
      | lexical f =>
          have hfault : Item.fault f ∈ Item.ofSource source := hmirrors
          rw [hitems] at hfault
          simp at hfault
      | unexpectedToken expected t s =>
          obtain ⟨l, others, -, -, h⟩ := hmirrors
          exact hstuck _ h
      | unexpectedEnd expected s => exact hstuck _ hmirrors.2

/-- What stands in front of the place where a run is stuck begins a program. -/
theorem exists_program {source : String} {ls : List Lexeme} {rest : List Item} {goals : List Goal}
    (hitems : Item.ofSource source = ls.map .lexeme ++ rest)
    (hrest : ∀ f items, rest ≠ .fault f :: items)
    (hruns : Runs [.program] (ls.map Lexeme.word) (words rest) goals) :
    ∃ source' statements, parse source' = .ok statements ∧ BeginsLike source' ls := by
  obtain ⟨vs, hvs, hends⟩ := hruns.exists_completion ⟨rfl, trivial⟩
  have htexts : ∀ w ∈ ls.map Lexeme.word ++ vs, ∃ text, Denotes text w.1 := by
    intro w hw
    rcases List.mem_append.1 hw with hw | hw
    · obtain ⟨l, hl, rfl⟩ := List.mem_map.1 hw
      exact exists_denotes hitems hrest hl
    · exact ⟨_, Token.denotes_written (hvs w hw)⟩
  obtain ⟨source', ls', hitems', hwords⟩ := exists_source htexts
  rw [← hwords] at hends
  obtain ⟨statements, hparse⟩ := parse_of_runs hitems' hends
  refine ⟨source', statements, hparse, ?_⟩
  -- The lexemes that were read are the first of the new text, as far as their words go.
  obtain ⟨front, back, rfl, hfront, -⟩ := List.map_eq_append_iff.1 hwords
  refine ⟨front, back.map .lexeme, ?_, ?_, ?_⟩
  · rw [hitems', List.map_append]
  · have htokens := congrArg (List.map Prod.fst) hfront
    rwa [List.map_map, List.map_map] at htokens
  · have hbreaks := congrArg (fun ws ↦ (List.map Prod.snd ws).tail) hfront
    rwa [List.map_map, List.map_map, ← List.map_tail, ← List.map_tail] at hbreaks

/-- The run over a program also comes to an end over lexemes that begin it. -/
theorem runs_of_beginsLike {source : String} {statements : List Stmt} {ls : List Lexeme}
    (hparse : parse source = .ok statements) (hbegins : BeginsLike source ls) :
    ∃ zs, Runs [.program] (ls.map Lexeme.word ++ zs) [] [] := by
  obtain ⟨all, hall, hends⟩ := runs_of_parse hparse
  obtain ⟨front, rest, hfront, htokens, hbreaks⟩ := hbegins
  obtain ⟨front', back, rfl, hsame, -⟩ := List.map_eq_append_iff.1 (hall.symm.trans hfront)
  obtain rfl : front' = front := List.map_injective_iff.2 (fun _ _ h ↦ Item.lexeme.inj h) hsame
  refine ⟨back.map Lexeme.word, ?_⟩
  rw [List.map_append] at hends
  cases front' with
  | nil =>
      rw [List.map_nil, eq_comm, List.map_eq_nil_iff] at htokens
      rwa [htokens]
  | cons a front' =>
      obtain ⟨b, ls, rfl, hfirst, htokens⟩ := List.map_eq_cons_iff.1 htokens.symm
      have hwords : front'.map Lexeme.word = ls.map Lexeme.word := by
        rw [Lexeme.map_word, Lexeme.map_word, ← htokens]
        exact congrArg _ hbreaks
      rw [List.map_cons, List.cons_append, hwords] at hends
      rw [List.map_cons, List.cons_append, Lexeme.word, hfirst]
      -- Nothing is known about the line break in front of the first token.
      exact hends.onNewLine_irrelevant (by decide) b.onNewLine

/-- A syntax error is reported at the earliest token. -/
theorem parse_error_earliest (source : String) :
    (∀ expected t s, parse source = .error (.unexpectedToken expected t s) →
      ∃ (ls : List Lexeme) (l : Lexeme) (others : List Item),
        Item.ofSource source = ls.map .lexeme ++ .lexeme l :: others ∧ l.token = t ∧ l.span = s ∧
        (∃ source' statements, parse source' = .ok statements ∧ BeginsLike source' ls) ∧
        ∀ source' statements, BeginsLike source' (ls ++ [l]) → parse source' ≠ .ok statements) ∧
    ∀ expected s, parse source = .error (.unexpectedEnd expected s) →
      s = ⟨source.utf8ByteSize, source.utf8ByteSize⟩ ∧
      ∃ ls : List Lexeme, Item.ofSource source = ls.map .lexeme ∧
        ∃ source' statements, parse source' = .ok statements ∧ BeginsLike source' ls := by
  have hmirrors := mirrors_program (Cursor.ofSource source)
  have hfails : ∀ error, parse source = .error error →
      FailsAt [.program] (Cursor.ofSource source) error := by
    intro error h
    rw [parse] at h
    cases hprogram : program (Cursor.ofSource source) with
    | ok value r hlt =>
        rw [hprogram] at h
        cases h
    | fail error' r =>
        rw [hprogram] at h hmirrors
        cases h
        exact hmirrors
  constructor
  · intro expected t s h
    obtain ⟨l, others, ht, hs, g, more, ⟨ls, hitems, hruns⟩, hstuck⟩ := hfails _ h
    refine ⟨ls, l, others, hitems, ht, hs, ?_, ?_⟩
    · refine exists_program hitems ?_ hruns
      intro f items hfault
      cases hfault
    · intro source' statements hbegins hparse
      obtain ⟨zs, hends⟩ := runs_of_beginsLike hparse hbegins
      rw [List.map_append, List.append_assoc] at hends
      refine hruns.not_of_stuck hstuck ?_ hends
      rfl
  · intro expected s h
    obtain ⟨hs, g, more, ⟨ls, hitems, hruns⟩, -⟩ := hfails _ h
    refine ⟨hs, ls, ?_, ?_⟩
    · rwa [List.append_nil] at hitems
    · refine exists_program hitems ?_ hruns
      intro f items hfault
      cases hfault

/-- Behind a line break a number is no value of `return`: the error is at the number, and what
stands in front of it, up to the open block, begins a program. -/
theorem parse_error_earliest_line_break :
    let source := "func f() -> int \x7b return\n1"
    parse source = .error (.unexpectedToken .statement (.int .one) ⟨25, 26⟩) ∧
      ∃ (ls : List Lexeme) (l : Lexeme) (others : List Item),
        Item.ofSource source = ls.map .lexeme ++ .lexeme l :: others ∧
        l.token = .int .one ∧ l.span = ⟨25, 26⟩ ∧
        (∃ source' statements, parse source' = .ok statements ∧ BeginsLike source' ls) ∧
        ∀ source' statements, BeginsLike source' (ls ++ [l]) → parse source' ≠ .ok statements := by
  intro source
  have herror : parse source = .error (.unexpectedToken .statement (.int .one) ⟨25, 26⟩) := by
    have hfound : (match parse source with | .ok _ => none | .error error => some error) =
        some (.unexpectedToken .statement (.int .one) ⟨25, 26⟩) := by
      decide +kernel
    cases hparse : parse source with
    | ok statements =>
        rw [hparse] at hfound
        cases hfound
    | error error =>
        rw [hparse] at hfound
        rw [Option.some.inj hfound]
  exact ⟨herror, (parse_error_earliest source).1 _ _ _ herror⟩

end Surface
end Barista
