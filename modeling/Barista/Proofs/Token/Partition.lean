import Mathlib.Data.List.Chain
import Barista.Proofs.Token.Longest

/-!
# A text is divided into its tokens

The items of a text lie in it one behind the other, each where longest match puts it, with only
blanks and comments between them and behind the last.  So a reader who asks a cursor for one lexeme
after the other sees the whole text up to the place where the answers end.
-/

namespace Barista

open Munch Pattern
open Text (byteWidth)

/-! ## Between the tokens -/

/-- `Gap rest text`: in front of `rest`, `text` is made of blanks and comments.  A comment goes on
to the end of its line. -/
inductive Gap (rest : List Char) : List Char → Prop
  | nil : Gap rest []
  | blank {c : Char} {text : List Char} (hc : c = ' ' ∨ c = '\t' ∨ c = '\n' ∨ c = '\r')
      (h : Gap rest text) : Gap rest (c :: text)
  | comment {line text : List Char} (hline : '\n' ∉ line)
      (hend : ∀ c, (text ++ rest).head? = some c → c = '\n') (h : Gap rest text) :
      Gap rest ('#' :: '#' :: (line ++ text))

theorem Gap.append {gap text rest : List Char} (hgap : Gap (text ++ rest) gap)
    (htext : Gap rest text) : Gap rest (gap ++ text) := by
  induction hgap with
  | nil => exact htext
  | blank hc h ih => exact .blank hc ih
  | @comment line gap hline hend h ih =>
      rw [List.cons_append, List.cons_append, List.append_assoc]
      refine .comment hline ?_ ih
      rwa [List.append_assoc]

theorem gap_of_forall_isGap {text rest : List Char} (h : ∀ c ∈ text, isGap c = true) :
    Gap rest text := by
  induction text with
  | nil => exact .nil
  | cons c text ih =>
      obtain ⟨hc, htext⟩ := List.forall_mem_cons.1 h
      simp only [isGap, Bool.or_eq_true, decide_eq_true_eq, or_assoc] at hc
      exact .blank hc (ih htext)

theorem gap_front {c : Char} {cs : List Char} (h : (munch c cs).1 = .gap) :
    Gap (behind c cs) (front c cs) := by
  rw [front, behind]
  rcases munch_of_gap h with ⟨hc, heq⟩ | ⟨rfl, hhash, heq⟩
  · rw [heq]
    exact gap_of_forall_isGap (List.forall_mem_cons.2 ⟨hc, forall_mem_take_run⟩)
  · obtain ⟨ds, rfl⟩ := List.head?_eq_some_iff.1 hhash
    have hrun : run (· ≠ '\n') ('#' :: ds) = run (· ≠ '\n') ds + 1 := run_cons_of_pos (by decide)
    rw [heq, hrun, List.take_succ_cons, List.drop_succ_cons]
    have hline : '\n' ∉ ds.take (run (· ≠ '\n') ds) := by
      intro hmem
      simpa using forall_mem_take_run _ hmem
    have hend : ∀ c, ([] ++ ds.drop (run (· ≠ '\n') ds)).head? = some c → c = '\n' := by
      intro c hc
      obtain ⟨rest, hrest⟩ := List.head?_eq_some_iff.1 hc
      simpa using of_drop_run hrest
    simpa using Gap.comment hline hend .nil

/-! ## The places of the items -/

/-- The span covers `text`, which stands between `before` and `after` in `source`. -/
def Span.Covers (source before text after : List Char) (span : Span) : Prop :=
  source = before ++ text ++ after ∧ span = ⟨byteWidth before, byteWidth (before ++ text)⟩

/-- Only blanks and comments lie between two spans. -/
def Span.Separated (source : List Char) (a b : Span) : Prop :=
  ∃ before gap after, source = before ++ gap ++ after ∧ a.stop = byteWidth before ∧
    b.start = byteWidth (before ++ gap) ∧ Gap after gap

namespace Item

/-- What longest match says about an item with the text `text`, when `after` is the text and
`others` are the items behind it.  A masked keyword is the last lexeme in front of a fault. -/
def Accords (text after : List Char) (others : List Item) : Item → Prop
  | lexeme l => Longest text after ∧
      (¬ Masked text after → ∀ t, Denotes text t ↔ l.token = t) ∧
      (Masked text after → l.token = .ident (String.ofList text) ∧
        ∃ f rest, others = fault f :: rest ∧ f.span.start = l.span.stop)
  | fault _ => (Longest text after ∧ ∀ t, ¬ Denotes text t) ∨ Unmatched (text ++ after)

variable {start : Nat} {onNewLine : Bool} {c : Char} {cs : List Char}

theorem scan_of_reject (h : (munch c cs).1 = .reject) : scan start onNewLine 0 (c :: cs) =
    fault ⟨.ofText (front c cs), ⟨start, start + byteWidth (front c cs)⟩⟩ ::
      scan (start + byteWidth (front c cs)) false 0 (behind c cs) := by
  rw [scan_cons, h]
  rfl

theorem scan_of_token {t : Token} (h : (munch c cs).1 = .token t) :
    scan start onNewLine 0 (c :: cs) =
      lexeme ⟨t, ⟨start, start + byteWidth (front c cs)⟩, onNewLine⟩ ::
        scan (start + byteWidth (front c cs)) false 0 (behind c cs) := by
  rw [scan_cons, h]
  rfl

theorem accords_of_token {t : Token} (h : (munch c cs).1 = .token t) :
    Accords (front c cs) (behind c cs)
      (scan (start + byteWidth (front c cs)) false 0 (behind c cs))
      (lexeme ⟨t, ⟨start, start + byteWidth (front c cs)⟩, onNewLine⟩) := by
  have hgap : (munch c cs).1 ≠ .gap := by
    rw [h]
    exact Piece.noConfusion
  by_cases hmasked : Masked (front c cs) (behind c cs)
  · obtain ⟨hlongest, hident⟩ := munch_of_masked hmasked
    rw [h, Piece.token.injEq] at hident
    refine ⟨hlongest, fun hnot ↦ absurd hmasked hnot, fun _ ↦ ⟨hident, ?_⟩⟩
    obtain ⟨d, hd, -⟩ := (Option.any_eq_true _ _).1 hmasked.2
    obtain ⟨ds, hds⟩ := List.head?_eq_some_iff.1 hd
    rw [hds, scan_of_reject (munch_behind_masked hmasked hds)]
    exact ⟨_, _, rfl, rfl⟩
  · rcases munch_settles hgap hmasked with ⟨hlongest, hdenotes⟩ | ⟨-, hreject⟩
    · refine ⟨hlongest, fun _ u ↦ ?_, fun hyes ↦ absurd hyes hmasked⟩
      rw [hdenotes, h, Piece.token.injEq]
    · rw [h] at hreject
      cases hreject

theorem accords_of_reject {f : Fault} {others : List Item} (h : (munch c cs).1 = .reject) :
    Accords (front c cs) (behind c cs) others (fault f) := by
  have hgap : (munch c cs).1 ≠ .gap := by
    rw [h]
    exact Piece.noConfusion
  have hmasked : ¬ Masked (front c cs) (behind c cs) := by
    intro hmasked
    rw [(munch_of_masked hmasked).2] at h
    cases h
  rcases munch_settles hgap hmasked with ⟨hlongest, hdenotes⟩ | ⟨hunmatched, -⟩
  · refine .inl ⟨hlongest, fun t ht ↦ ?_⟩
    rw [(hdenotes t).1 ht] at h
    cases h
  · exact .inr hunmatched

/-- The first item of a scan has the first piece of the text. -/
theorem covers_of_scan_eq_cons {before : List Char} {item : Item} {others : List Item}
    (hgap : (munch c cs).1 ≠ .gap)
    (h : scan (byteWidth before) onNewLine 0 (c :: cs) = item :: others) :
    item.span.Covers (before ++ c :: cs) before (front c cs) (behind c cs) := by
  refine ⟨by rw [List.append_assoc, front_append_behind], ?_⟩
  rw [Text.byteWidth_append]
  cases hpiece : (munch c cs).1 with
  | gap => exact absurd hpiece hgap
  | token t =>
      rw [scan_of_token hpiece] at h
      cases h
      rfl
  | reject =>
      rw [scan_of_reject hpiece] at h
      cases h
      rfl

theorem accords_of_scan (before : List Char) {item : Item} {items others : List Item}
    (hstart : start = byteWidth before)
    (h : scan start onNewLine 0 cs = items ++ item :: others) :
    ∃ before' text after, item.span.Covers (before ++ cs) before' text after ∧
      item.Accords text after others := by
  obtain ⟨skipped, d, ds, line, rfl, hgap, hscan⟩ := exists_scan_eq_cons h
  rw [hstart, ← Text.byteWidth_append] at hscan
  refine ⟨before ++ skipped, front d ds, behind d ds, ?_, ?_⟩
  · rw [← List.append_assoc]
    exact covers_of_scan_eq_cons hgap hscan
  · cases hpiece : (munch d ds).1 with
    | gap => exact absurd hpiece hgap
    | token t =>
        rw [scan_of_token hpiece] at hscan
        cases hscan
        exact accords_of_token hpiece
    | reject =>
        rw [scan_of_reject hpiece] at hscan
        cases hscan
        exact accords_of_reject hpiece

/-- From the span `first` in front of a gap to the end of the text, spans follow each other with
gaps between them. -/
theorem separated_scan (before gap : List Char) (first : Span) {last : Span} (hgap : Gap cs gap)
    (hstart : start = byteWidth (before ++ gap)) (hfirst : first.stop = byteWidth before)
    (hlast : last.start = byteWidth (before ++ gap ++ cs)) :
    List.IsChain (Span.Separated (before ++ gap ++ cs))
      (first :: ((scan start onNewLine 0 cs).map span ++ [last])) := by
  induction start, onNewLine, cs using scan_induction generalizing before gap first with
  | nil => exact List.isChain_pair.2 ⟨before, gap, [], rfl, hfirst, by simpa using hlast, hgap⟩
  | cons start onNewLine c cs ih =>
      have htext : before ++ gap ++ c :: cs = before ++ gap ++ front c cs ++ behind c cs := by
        rw [List.append_assoc _ (front c cs), front_append_behind]
      have hstop : start + byteWidth (front c cs) = byteWidth (before ++ gap ++ front c cs) := by
        rw [hstart, Text.byteWidth_append _ (front c cs)]
      have hitem : ∀ item : Item, item.span = ⟨start, start + byteWidth (front c cs)⟩ →
          List.IsChain (Span.Separated (before ++ gap ++ c :: cs))
            (first :: item.span :: ((scan (start + byteWidth (front c cs))
              (lineAfter onNewLine (front c cs) (munch c cs).1) 0 (behind c cs)).map span ++
                [last])) := by
        intro item hspan
        refine List.isChain_cons_cons.2 ⟨⟨before, gap, c :: cs, rfl, hfirst, ?_, hgap⟩, ?_⟩
        · rw [hspan, hstart]
        · have hchain := ih (before ++ gap ++ front c cs) [] item.span .nil
          rw [List.append_nil, ← htext] at hchain
          refine hchain hstop ?_ hlast
          rw [hspan, hstop]
      cases hpiece : (munch c cs).1 with
      | gap =>
          have hfront := gap_front hpiece
          rw [← front_append_behind c cs] at hgap
          have hchain := ih before (gap ++ front c cs) first (hgap.append hfront)
          rw [← List.append_assoc, ← htext] at hchain
          rw [scan_cons, hpiece]
          rw [hpiece] at hchain
          exact hchain hstop hfirst hlast
      | token t =>
          rw [hpiece] at hitem
          rw [scan_of_token hpiece]
          exact hitem (lexeme ⟨t, ⟨start, _⟩, onNewLine⟩) rfl
      | reject =>
          rw [hpiece] at hitem
          rw [scan_of_reject hpiece]
          exact hitem (fault ⟨_, ⟨start, _⟩⟩) rfl

end Item

theorem pairwise_of_separated {source : List Char} {spans : List Span}
    (h : spans.IsChain (Span.Separated source)) (hspans : ∀ s ∈ spans, s.start ≤ s.stop) :
    spans.Pairwise fun a b ↦ a.stop ≤ b.start := by
  induction spans with
  | nil => exact .nil
  | cons a spans ih =>
      have hrest := ih h.tail fun s hs ↦ hspans s (List.mem_cons_of_mem a hs)
      refine List.pairwise_cons.2 ⟨?_, hrest⟩
      cases spans with
      | nil => exact fun s hs ↦ absurd hs List.not_mem_nil
      | cons b spans =>
          obtain ⟨before, gap, -, -, hstop, hstart, -⟩ := (List.isChain_cons_cons.1 h).1
          have hab : a.stop ≤ b.start := by
            rw [hstop, hstart, Text.byteWidth_append]
            exact Nat.le_add_right _ _
          intro s hs
          rcases List.mem_cons.1 hs with rfl | hs
          · exact hab
          · have hb := hspans b (List.mem_cons_of_mem a List.mem_cons_self)
            have hbs := (List.pairwise_cons.1 hrest).1 s hs
            omega

/-! ## Reading -/

namespace Cursor

/-- `Reads c ls c'`: asked for one lexeme after the other, the cursor `c` gives `ls` and is then
`c'`. -/
inductive Reads : Cursor → List Lexeme → Cursor → Prop
  | nil (c : Cursor) : Reads c [] c
  | cons {c c' c'' : Cursor} {l : Lexeme} {ls : List Lexeme}
      (hnext : c.next = (.ok (some l), c')) (h : Reads c' ls c'') : Reads c (l :: ls) c''

theorem Reads.append {c c₁ r : Cursor} {ls₁ ls₂ : List Lexeme} (h₁ : c.Reads ls₁ c₁)
    (h₂ : c₁.Reads ls₂ r) : c.Reads (ls₁ ++ ls₂) r := by
  induction h₁ with
  | nil => exact h₂
  | cons hnext _ ih => exact .cons hnext (ih h₂)

/-- The span of what is read next, the end of the text included. -/
def nextSpan (c : Cursor) : Span :=
  match c.next.1 with
  | .ok (some l) => l.span
  | .ok none => c.stopSpan
  | .error f => f.span

variable {c c' : Cursor} {ls : List Lexeme}

theorem items_of_next {l : Lexeme} (h : c.next = (.ok (some l), c')) :
    c.items = .lexeme l :: c'.items ∧ c'.stop = c.stop := by
  obtain ⟨_ | ⟨_ | _, items⟩, last, stop⟩ := c <;> cases h
  exact ⟨rfl, rfl⟩

theorem items_of_reads (h : c.Reads ls c') :
    c.items = ls.map .lexeme ++ c'.items ∧ c'.stop = c.stop := by
  induction h with
  | nil c => exact ⟨rfl, rfl⟩
  | cons hnext h ih =>
      obtain ⟨hitems, hstop⟩ := items_of_next hnext
      rw [hitems, ih.1, ih.2, hstop]
      exact ⟨rfl, rfl⟩

theorem next_eq_error_iff {f : Fault} :
    c.next.1 = .error f ↔ ∃ items, c.items = .fault f :: items := by
  obtain ⟨_ | ⟨_ | _, items⟩, last, stop⟩ := c
  · simp [next, view]
  · simp [next, view]
  · simp [next, view]

theorem head?_spans (c : Cursor) :
    ∃ spans, c.items.map Item.span ++ [c.stopSpan] = c.nextSpan :: spans := by
  obtain ⟨_ | ⟨_ | _, items⟩, last, stop⟩ := c
  · exact ⟨_, rfl⟩
  · exact ⟨_, rfl⟩
  · exact ⟨_, rfl⟩

theorem byteWidth_toList (s : String) : byteWidth s.toList = s.utf8ByteSize := by
  have hlist : ∀ cs : List Char, byteWidth cs = (String.ofList cs).utf8ByteSize := by
    intro cs
    induction cs with
    | nil => rfl
    | cons c cs ih =>
        rw [byteWidth, ih, ← String.utf8ByteSize_singleton, ← String.utf8ByteSize_append,
          String.singleton_eq_ofList, ← String.ofList_append]
        rfl
  rw [hlist, String.ofList_toList]

variable {source : String}

theorem scan_of_reads (h : (ofSource source).Reads ls c) :
    Item.scan 0 false 0 source.toList = ls.map .lexeme ++ c.items :=
  (items_of_reads h).1

theorem stopSpan_of_reads (h : (ofSource source).Reads ls c) :
    c.stopSpan = ⟨source.utf8ByteSize, source.utf8ByteSize⟩ := by
  rw [stopSpan, (items_of_reads h).2]
  rfl

theorem lexeme_of_reads {l : Lexeme} (h : (ofSource source).Reads ls c) (hl : l ∈ ls) :
    ∃ before text after, l.span.Covers source.toList before text after ∧ Longest text after ∧
      (¬ Masked text after → ∀ t, Denotes text t ↔ l.token = t) ∧
      (Masked text after → l.token = .ident (String.ofList text) ∧ ls.getLast? = some l ∧
        ∃ f, c.next.1 = .error f ∧ f.span.start = l.span.stop) := by
  obtain ⟨ls₁, ls₂, rfl⟩ := List.append_of_mem hl
  have hscan := scan_of_reads h
  rw [List.map_append, List.map_cons, List.append_assoc, List.cons_append] at hscan
  obtain ⟨before, text, after, hcovers, hlongest, hplain, hmasked⟩ :=
    Item.accords_of_scan [] rfl hscan
  refine ⟨before, text, after, hcovers, hlongest, hplain, ?_⟩
  intro hyes
  obtain ⟨hident, f, rest, hothers, hstart⟩ := hmasked hyes
  -- The fault stands next to the lexeme, so no lexeme was read behind it.
  cases ls₂ with
  | nil => exact ⟨hident, by simp, f, next_eq_error_iff.2 ⟨rest, hothers⟩, hstart⟩
  | cons l' ls₂ => cases hothers

/-- Where no fault follows, the text of every lexeme stands for its token. -/
theorem denotes_of_reads {l : Lexeme} (h : (ofSource source).Reads ls c)
    (hfault : ∀ f items, c.items ≠ .fault f :: items) (hl : l ∈ ls) :
    ∃ before text after, l.span.Covers source.toList before text after ∧ Denotes text l.token := by
  obtain ⟨before, text, after, hcovers, -, hdenotes, hmasked⟩ := lexeme_of_reads h hl
  have hplain : ¬ Masked text after := by
    intro hyes
    obtain ⟨-, -, f, hf, -⟩ := hmasked hyes
    obtain ⟨items, hitems⟩ := next_eq_error_iff.1 hf
    exact hfault f items hitems
  exact ⟨before, text, after, hcovers, (hdenotes hplain l.token).2 rfl⟩

theorem fault_of_reads {f : Fault} (h : (ofSource source).Reads ls c) (hf : c.next.1 = .error f) :
    ∃ before text after, f.span.Covers source.toList before text after ∧
      (Longest text after ∧ (∀ t, ¬ Denotes text t) ∨ Unmatched (text ++ after)) := by
  obtain ⟨items, hitems⟩ := next_eq_error_iff.1 hf
  have hscan := scan_of_reads h
  rw [hitems] at hscan
  obtain ⟨before, text, after, hcovers, haccords⟩ :=
    Item.accords_of_scan [] rfl hscan
  exact ⟨before, text, after, hcovers, haccords⟩

theorem start_lt_stop_of_reads {l : Lexeme} (h : (ofSource source).Reads ls c) (hl : l ∈ ls) :
    l.span.start < l.span.stop := by
  obtain ⟨before, text, after, ⟨-, hspan⟩, hlongest, -⟩ := lexeme_of_reads h hl
  have hlength := Text.length_le_byteWidth text
  have hpos : 0 < text.length := List.length_pos_iff.2 (ne_nil_of_mem_token hlongest.1)
  rw [hspan, Text.byteWidth_append]
  dsimp only
  omega

theorem separated_of_reads (h : (ofSource source).Reads ls c) :
    List.IsChain (Span.Separated source.toList)
      (⟨0, 0⟩ :: (ls.map Lexeme.span ++ [c.nextSpan])) := by
  have hlast : c.stopSpan.start = byteWidth ([] ++ [] ++ source.toList) := by
    rw [stopSpan_of_reads h]
    exact (byteWidth_toList source).symm
  have hchain : List.IsChain (Span.Separated source.toList)
      (⟨0, 0⟩ :: ((Item.scan 0 false 0 source.toList).map Item.span ++ [c.stopSpan])) :=
    Item.separated_scan [] [] ⟨0, 0⟩ .nil rfl rfl hlast
  obtain ⟨spans, hspans⟩ := head?_spans c
  have hlexemes : (ls.map Item.lexeme).map Item.span = ls.map Lexeme.span :=
    List.map_map
  rw [scan_of_reads h, List.map_append, hlexemes, List.append_assoc, hspans] at hchain
  refine hchain.prefix ⟨spans, ?_⟩
  simp

/-- Asked again and again, a cursor comes to a fault or to the end of its text. -/
theorem exists_reads (c : Cursor) : ∃ ls c', c.Reads ls c' ∧ ∀ l, c'.next.1 ≠ .ok (some l) := by
  obtain ⟨items, last, stop⟩ := c
  induction items generalizing last with
  | nil => exact ⟨[], _, .nil _, by simp [next, view]⟩
  | cons item items ih =>
      cases item with
      | lexeme l =>
          obtain ⟨ls, c', hreads, hend⟩ := ih l.span
          exact ⟨l :: ls, c', .cons rfl hreads, hend⟩
      | fault f => exact ⟨[], _, .nil _, by simp [next, view]⟩

/-- Reading a text comes to a fault or to its end, and the lexemes read on the way divide it: their
spans are not empty and lie one behind the other on whole characters, with only blanks and comments
between them and up to what is read next.  Each is the longest text at its place with the pattern of
a token and is the token that this text stands for, but for a keyword in front of a character that
starts like a letter, which is read as a name and has a fault behind it.  A fault is found only
where the longest such text stands for no token, or where there is none. -/
theorem maximal_munch (source : String) :
    (∃ ls c, (ofSource source).Reads ls c ∧ ∀ l, c.next.1 ≠ .ok (some l)) ∧
    ∀ ls c, (ofSource source).Reads ls c →
      (∀ l ∈ ls, l.span.start < l.span.stop) ∧
      (ls.Pairwise fun a b ↦ a.span.stop ≤ b.span.start) ∧
      (∀ l ∈ ls, ∃ before text after, l.span.Covers source.toList before text after ∧
        Longest text after ∧
        (¬ Masked text after → ∀ t, Denotes text t ↔ l.token = t) ∧
        (Masked text after → l.token = .ident (String.ofList text) ∧ ls.getLast? = some l ∧
          ∃ f, c.next.1 = .error f ∧ f.span.start = l.span.stop)) ∧
      List.IsChain (Span.Separated source.toList)
        (⟨0, 0⟩ :: (ls.map Lexeme.span ++ [c.nextSpan])) ∧
      c.stopSpan = ⟨source.utf8ByteSize, source.utf8ByteSize⟩ ∧
      ∀ f, c.next.1 = .error f →
        ∃ before text after, f.span.Covers source.toList before text after ∧
          (Longest text after ∧ (∀ t, ¬ Denotes text t) ∨ Unmatched (text ++ after)) := by
  refine ⟨exists_reads (ofSource source), ?_⟩
  intro ls c h
  have hchain := separated_of_reads h
  have hspans : (ls.map Lexeme.span).Pairwise fun a b ↦ a.stop ≤ b.start := by
    refine pairwise_of_separated hchain.tail.left_of_append ?_
    intro s hs
    obtain ⟨l, hl, rfl⟩ := List.mem_map.1 hs
    exact (start_lt_stop_of_reads h hl).le
  exact ⟨fun l hl ↦ start_lt_stop_of_reads h hl, List.pairwise_map.1 hspans,
    fun l hl ↦ lexeme_of_reads h hl, hchain, stopSpan_of_reads h, fun f hf ↦ fault_of_reads h hf⟩

/-- An exponent mark without digits is given back, and a comment is passed over at the end. -/
theorem maximal_munch_backs_off :
    (ofSource "1e->x ## y\n").Reads
      [⟨.int .one, ⟨0, 1⟩, false⟩, ⟨.ident "e", ⟨1, 2⟩, false⟩, ⟨.punct .arrow, ⟨2, 4⟩, false⟩,
        ⟨.ident "x", ⟨4, 5⟩, false⟩] ⟨[], ⟨4, 5⟩, 11⟩ ∧
    List.IsChain (Span.Separated "1e->x ## y\n".toList)
      [⟨0, 0⟩, ⟨0, 1⟩, ⟨1, 2⟩, ⟨2, 4⟩, ⟨4, 5⟩, ⟨11, 11⟩] := by
  have hcursor : ofSource "1e->x ## y\n" =
      ⟨[.lexeme ⟨.int .one, ⟨0, 1⟩, false⟩, .lexeme ⟨.ident "e", ⟨1, 2⟩, false⟩,
        .lexeme ⟨.punct .arrow, ⟨2, 4⟩, false⟩, .lexeme ⟨.ident "x", ⟨4, 5⟩, false⟩],
        ⟨0, 0⟩, 11⟩ := by
    decide +kernel
  have hreads : (ofSource "1e->x ## y\n").Reads
      [⟨.int .one, ⟨0, 1⟩, false⟩, ⟨.ident "e", ⟨1, 2⟩, false⟩, ⟨.punct .arrow, ⟨2, 4⟩, false⟩,
        ⟨.ident "x", ⟨4, 5⟩, false⟩] ⟨[], ⟨4, 5⟩, 11⟩ := by
    rw [hcursor]
    exact .cons rfl (.cons rfl (.cons rfl (.cons rfl (.nil _))))
  exact ⟨hreads, ((maximal_munch _).2 _ _ hreads).2.2.2.1⟩

/-- In front of a currency sign, which starts like a letter, a keyword is read as a name. -/
theorem keyword_read_as_name :
    ∃ l c, (ofSource "if€").Reads [l] c ∧
      l.span.Covers "if€".toList [] Keyword.cond.text.toList ['€'] ∧
      l.token = .ident Keyword.cond.text := by
  have hcursor : ofSource "if€" =
      ⟨[.lexeme ⟨.ident "if", ⟨0, 2⟩, false⟩, .fault ⟨.stray "€", ⟨2, 5⟩⟩], ⟨0, 0⟩, 5⟩ := by
    decide +kernel
  rw [hcursor]
  exact ⟨_, _, .cons rfl (.nil _), ⟨by decide, by decide⟩, rfl⟩

end Cursor
end Barista
