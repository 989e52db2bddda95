import Barista.Proofs.Token.Kind

/-!
# The longest token

The piece at the front of a text is the longest text there that has the pattern of a token, and it
is read as the token that this text stands for.  Only keywords are an exception: in front of a
character that starts like a letter they are read as names.  Such a character begins no token.
-/

namespace Barista

open Computability

namespace Munch

open Pattern

variable {text rest cs : List Char} {c : Char}

/-- What longest match makes of `text` in front of `rest`: the token it stands for if it is the
longest text with the pattern of a token, nothing if it stands for none or no pattern fits. -/
def Settles (piece : Piece) (text rest : List Char) : Prop :=
  (Longest text rest ∧ ∀ t, Denotes text t ↔ piece = .token t) ∨
    Unmatched (text ++ rest) ∧ piece = .reject

/-- A text is compared only with the texts that begin with the same character. -/
theorem longest_of_cons {n : Nat} (hn : n ≤ cs.length) (htext : c :: cs.take n ∈ token)
    (h : ∀ other, c :: other ∈ token → c :: other <+: c :: cs → other.length ≤ n) :
    Longest (c :: cs.take n) (cs.drop n) := by
  refine ⟨htext, ?_⟩
  intro other hother hfront
  rw [List.cons_append, List.take_append_drop] at hfront
  obtain ⟨ds, rfl⟩ := exists_cons_of_front hother hfront
  rw [List.length_cons, List.length_cons, List.length_take, Nat.min_eq_left hn]
  exact Nat.succ_le_succ (h ds hother hfront)

theorem number_settles (hc : c.isDigit = true) :
    Settles (number c cs).1 (c :: cs.take (number c cs).2) (cs.drop (number c cs).2) := by
  have hlead : lead c = .digit := if_pos hc
  have htext : c :: cs.take (number c cs).2 = (c :: cs).take (numberLength (c :: cs)) := by
    rw [← number_cons hc, List.take_succ_cons]
  have hrun : run Char.isDigit (c :: cs) ≠ 0 := by
    rw [run_cons_of_pos hc]
    exact Nat.succ_ne_zero _
  have hmem := take_numberLength_mem hrun
  rw [← htext] at hmem
  have hpiece : (number c cs).1 =
      if endingLength ((c :: cs).drop (run Char.isDigit (c :: cs))) = 0 then
        wholeLiteral (c :: cs.take (number c cs).2)
      else doubleLiteral (c :: cs.take (number c cs).2) := by
    rw [run_cons_of_pos hc, List.drop_succ_cons, endingLength, List.drop_drop]
    rfl
  refine .inl ⟨longest_of_cons (number_length_le c cs) ?_ ?_, ?_⟩
  · rw [cons_mem_token_iff, hlead]
    split at hmem
    · exact .inl hmem
    · exact .inr hmem
  · intro other hother hfront
    rw [cons_mem_token_iff, hlead] at hother
    obtain ⟨rest, hrest⟩ := hfront
    have hlength := length_le_numberLength hother rest
    rw [hrest, ← number_cons hc, List.length_cons] at hlength
    omega
  · intro t
    rw [hpiece]
    split at hmem
    · rename_i hending
      rw [if_pos hending]
      exact denotes_digits_iff hmem
    · rename_i hending
      rw [if_neg hending]
      exact denotes_double_iff hmem

/-- A string at the front of a text ends with the first quote that is not escaped. -/
theorem drop_bodyLength_of_front {other : List Char} (hother : '"' :: other ∈ token)
    (hfront : '"' :: other <+: '"' :: cs) :
    ∃ rest, cs.drop (bodyLength cs) = '"' :: rest ∧ other.length = bodyLength cs + 1 := by
  rw [cons_mem_token_iff, show lead '"' = .quote from rfl] at hother
  obtain ⟨body, hbody, htext⟩ := mem_string.1 hother
  cases htext
  obtain ⟨rest, hrest⟩ := (List.cons_prefix_cons.1 hfront).2
  rw [List.append_assoc, List.singleton_append] at hrest
  subst hrest
  rw [bodyLength_append_quote hbody, List.drop_left]
  exact ⟨rest, rfl, List.length_append⟩

theorem string_settles :
    Settles (string cs).1 ('"' :: cs.take (string cs).2) (cs.drop (string cs).2) := by
  by_cases hclosed : ∃ rest, cs.drop (bodyLength cs) = '"' :: rest
  · obtain ⟨rest, hrest⟩ := hclosed
    have hlength : (string cs).2 = bodyLength cs + 1 := by
      simp only [string, hrest]
      split <;> rfl
    have htake : cs.take (bodyLength cs + 1) = cs.take (bodyLength cs) ++ ['"'] := by
      rw [List.take_add, hrest]
      rfl
    have hbody := take_bodyLength_mem cs
    have hle : bodyLength cs + 1 ≤ cs.length := by
      have hdrop := congrArg List.length hrest
      rw [List.length_drop, List.length_cons] at hdrop
      omega
    rw [hlength]
    refine .inl ⟨longest_of_cons hle ?_ ?_, ?_⟩
    · rw [cons_mem_token_iff, show lead '"' = .quote from rfl, htake]
      exact mem_string.2 ⟨_, hbody, rfl⟩
    · intro other hother hfront
      obtain ⟨-, -, hother⟩ := drop_bodyLength_of_front hother hfront
      exact hother.le
    · intro t
      rw [htake, denotes_string_iff hbody]
      simp only [string, hrest]
      cases unescapeAll? (cs.take (bodyLength cs)) with
      | none => simp
      | some value => simp [eq_comm]
  · refine .inr ⟨?_, ?_⟩
    · intro other hother hfront
      rw [List.cons_append, List.take_append_drop] at hfront
      obtain ⟨ds, rfl⟩ := exists_cons_of_front hother hfront
      obtain ⟨rest, hrest, -⟩ := drop_bodyLength_of_front hother hfront
      exact hclosed ⟨rest, hrest⟩
    · simp only [string]
      split
      · rename_i rest hrest
        exact absurd ⟨rest, hrest⟩ hclosed
      · rfl

theorem mark_settles (hlead : lead c = .other) :
    Settles (mark c cs).1 (c :: cs.take (mark c cs).2) (cs.drop (mark c cs).2) := by
  have hmem : ∀ other, c :: other ∈ token ↔ c :: other ∈ Pattern.mark := by
    intro other
    rw [cons_mem_token_iff, hlead]
  rw [mark]
  cases hpair : cs.head?.bind (pair? c) with
  | some u =>
      obtain ⟨d, hd, hu⟩ := Option.bind_eq_some_iff.1 hpair
      obtain ⟨ds, rfl⟩ := List.head?_eq_some_iff.1 hd
      refine .inl ⟨longest_of_cons (by simp) ?_ ?_, ?_⟩
      · exact (hmem [d]).2 (mem_mark.2 ⟨u, pair?_eq_some_iff.1 hu⟩)
      · intro other hother hfront
        exact Nat.le_of_succ_le_succ (length_le_two_of_mem_mark ((hmem other).1 hother))
      · intro t
        rw [List.take_succ_cons, List.take_zero, denotes_mark_iff hlead, ← pair?_eq_some_iff, hu]
        simp
  | none =>
      -- A mark at the front is the first character alone.
      have hother : ∀ other, c :: other ∈ token → c :: other <+: c :: cs → other = [] := by
        intro other hother hfront
        obtain ⟨u, hu⟩ := mem_mark.1 ((hmem other).1 hother)
        have hlength := length_le_two_of_mem_mark ((hmem other).1 hother)
        rcases other with _ | ⟨d, _ | ⟨e, ds⟩⟩
        · rfl
        · have hd : cs.head? = some d := by
            obtain ⟨rest, rfl⟩ := (List.cons_prefix_cons.1 hfront).2
            rfl
          rw [hd, Option.bind_some, pair?_eq_some_iff.2 hu] at hpair
          cases hpair
        · simp only [List.length_cons] at hlength
          omega
      cases hsingle : single? c with
      | some u =>
          refine .inl ⟨longest_of_cons (Nat.zero_le _) ?_ ?_, ?_⟩
          · exact (hmem []).2 (mem_mark.2 ⟨u, single?_eq_some_iff.1 hsingle⟩)
          · intro other hmem hfront
            rw [hother other hmem hfront, List.length_nil]
          · intro t
            rw [List.take_zero, denotes_mark_iff hlead, ← single?_eq_some_iff, hsingle]
            simp
      | none =>
          refine .inr ⟨?_, rfl⟩
          intro other hmem' hfront
          obtain ⟨ds, rfl⟩ := exists_cons_of_front hmem' hfront
          obtain rfl := hother ds hmem' hfront
          obtain ⟨u, hu⟩ := mem_mark.1 ((hmem []).1 hmem')
          rw [single?_eq_some_iff.2 hu] at hsingle
          cases hsingle

/-- A keyword in front of a character that starts like a letter. -/
def Masked (text rest : List Char) : Prop :=
  text ∈ Pattern.keyword ∧ rest.head?.any Text.startsLikeLetter = true

theorem word_of_masked (h : Masked text rest) :
    word text rest.head? = .ident (String.ofList text) := by
  obtain ⟨k, hk⟩ := Option.isSome_iff_exists.1 (mem_keyword_iff.1 h.1)
  simp [word, hk, h.2]

theorem word_of_not_masked (h : ¬ Masked text rest) : word text rest.head? = word text none := by
  rw [word, word]
  cases hk : Keyword.ofText? (String.ofList text) with
  | none => rfl
  | some k =>
      have hkeyword : text ∈ Pattern.keyword := by
        rw [mem_keyword_iff, hk]
        rfl
      have hnext : rest.head?.any Text.startsLikeLetter = false :=
        Bool.eq_false_iff.2 fun hnext ↦ h ⟨hkeyword, hnext⟩
      simp [hnext]

theorem take_run_mem_name (hc : startsName c = true) :
    c :: cs.take (run continuesName cs) ∈ name :=
  mem_name.2 ⟨c, _, rfl, hc, forall_mem_take_run⟩

theorem name_longest (hc : startsName c = true) :
    Longest (c :: cs.take (run continuesName cs)) (cs.drop (run continuesName cs)) := by
  refine longest_of_cons (run_le_length _ _) ?_ ?_
  · rw [cons_mem_token_iff, lead_of_startsName hc]
    exact take_run_mem_name hc
  · intro other hother hfront
    rw [cons_mem_token_iff, lead_of_startsName hc] at hother
    obtain ⟨_, _, htext, -, hall⟩ := mem_name.1 hother
    cases htext
    obtain ⟨rest, rfl⟩ := (List.cons_prefix_cons.1 hfront).2
    exact length_le_run hall

end Munch

section Piece

open Munch Pattern

variable {c : Char} {cs : List Char}

theorem number_ne_gap : (number c cs).1 ≠ .gap := by
  have hwhole : ∀ text, wholeLiteral text ≠ .gap := by
    intro text
    rw [wholeLiteral]
    cases Whole.ofInt? (digitsValue text) <;> exact Piece.noConfusion
  have hdouble : ∀ text, doubleLiteral text ≠ .gap := by
    intro text
    rw [doubleLiteral]
    split
    · split <;> exact Piece.noConfusion
    · exact Piece.noConfusion
  rw [number]
  dsimp only
  split
  · exact hwhole _
  · exact hdouble _

theorem string_ne_gap : (Munch.string cs).1 ≠ .gap := by
  rw [Munch.string]
  split
  · split <;> exact Piece.noConfusion
  · exact Piece.noConfusion

theorem mark_ne_gap : (Munch.mark c cs).1 ≠ .gap := by
  rw [Munch.mark]
  split
  · exact Piece.noConfusion
  · split <;> exact Piece.noConfusion

/-- A gap is a run of blanks or a comment. -/
theorem munch_of_gap (h : (munch c cs).1 = .gap) :
    isGap c = true ∧ munch c cs = (.gap, run isGap cs) ∨
    c = '#' ∧ cs.head? = some '#' ∧ munch c cs = (.gap, run (· ≠ '\n') cs) := by
  rw [munch] at h ⊢
  split at h
  · rename_i hgap
    exact .inl ⟨hgap, if_pos hgap⟩
  rename_i hgap
  split at h
  · rename_i hcomment
    exact .inr ⟨hcomment.1, hcomment.2, by rw [if_neg hgap, if_pos hcomment]⟩
  split at h
  · exact absurd h number_ne_gap
  split at h
  · exact absurd h string_ne_gap
  split at h
  · cases h
  · exact absurd h mark_ne_gap

/-- The first character of a piece that is no gap decides how it is read. -/
theorem munch_of_ne_gap (h : (munch c cs).1 ≠ .gap) :
    c.isDigit = true ∧ munch c cs = number c cs ∨
    c = '"' ∧ munch c cs = Munch.string cs ∨
    startsName c = true ∧ munch c cs =
      (.token (word (c :: cs.take (run continuesName cs)) (cs.drop (run continuesName cs)).head?),
        run continuesName cs) ∨
    lead c = .other ∧ munch c cs = Munch.mark c cs := by
  rw [munch] at h ⊢
  split at h
  · exact absurd rfl h
  rename_i hgap
  rw [if_neg hgap]
  split at h
  · exact absurd rfl h
  rename_i hcomment
  rw [if_neg hcomment, lead]
  split
  · rename_i hdigit
    exact .inl ⟨hdigit, rfl⟩
  split
  · rename_i hquote
    exact .inr (.inl ⟨hquote, rfl⟩)
  split
  · rename_i hname
    exact .inr (.inr (.inl ⟨hname, rfl⟩))
  · exact .inr (.inr (.inr ⟨rfl, rfl⟩))

/-- A piece that is no gap is what longest match makes of its text. -/
theorem munch_settles (h : (munch c cs).1 ≠ .gap) (hmasked : ¬ Masked (front c cs) (behind c cs)) :
    Settles (munch c cs).1 (front c cs) (behind c cs) := by
  rw [front, behind] at hmasked ⊢
  rcases munch_of_ne_gap h with ⟨hc, heq⟩ | ⟨rfl, heq⟩ | ⟨hc, heq⟩ | ⟨hc, heq⟩
  · rw [heq]
    exact number_settles hc
  · rw [heq]
    exact string_settles
  · rw [heq] at hmasked ⊢
    refine .inl ⟨name_longest hc, ?_⟩
    intro t
    rw [denotes_name_iff (take_run_mem_name hc), word_of_not_masked hmasked, Piece.token.injEq]
  · rw [heq]
    exact mark_settles hc

theorem startsName_of_masked {rest : List Char} (h : Masked (c :: cs) rest) :
    startsName c = true := by
  obtain ⟨_, _, htext, hc, -⟩ := mem_name.1 (mem_name_of_mem_keyword h.1)
  cases htext
  exact hc

theorem munch_of_startsName (hc : startsName c = true) : munch c cs =
    (.token (word (c :: cs.take (run continuesName cs)) (cs.drop (run continuesName cs)).head?),
      run continuesName cs) := by
  have hgap : isGap c = false := by
    rw [Bool.eq_false_iff]
    intro hgap
    simp only [isGap, Bool.or_eq_true, decide_eq_true_eq] at hgap
    rcases hgap with ((rfl | rfl) | rfl) | rfl <;> exact absurd hc (by decide)
  have hhash : c ≠ '#' := by
    rintro rfl
    exact absurd hc (by decide)
  have hquote : c ≠ '"' := by
    rintro rfl
    exact absurd hc (by decide)
  simp [munch, hgap, hhash, hquote, isDigit_eq_false_of_startsName hc, hc]

/-- A keyword is read as a name in front of a character that starts like a letter. -/
theorem munch_of_masked (h : Masked (front c cs) (behind c cs)) :
    Longest (front c cs) (behind c cs) ∧
      (munch c cs).1 = .token (.ident (String.ofList (front c cs))) := by
  have hc := startsName_of_masked h
  rw [front, behind, munch_of_startsName hc] at h ⊢
  exact ⟨name_longest hc, by rw [word_of_masked h]⟩

/-- Beyond ASCII only letters begin a token. -/
theorem unmatched_of_not_startsName (hc : 0x80 ≤ c.toNat) (hname : startsName c = false)
    (cs : List Char) : Unmatched (c :: cs) := by
  have hdigit : c.isDigit = false := by
    rw [Bool.eq_false_iff]
    intro hdigit
    have hnine : c.val ≤ '9'.val := of_decide_eq_true (Bool.and_eq_true_iff.1 hdigit).2
    have hle : c.toNat ≤ 57 := UInt32.le_iff_toNat_le.1 hnine
    omega
  have hquote : c ≠ '"' := by
    rintro rfl
    exact absurd hc (by decide)
  have hlead : lead c = .other := by
    simp [lead, hdigit, hquote, hname]
  intro other hother hfront
  obtain ⟨ds, rfl⟩ := exists_cons_of_front hother hfront
  rw [cons_mem_token_iff, hlead] at hother
  have hascii : decide (c.toNat < 0x80) = true := by
    refine of_cons_mem_mark (p := fun c ↦ c.toNat < 0x80) ?_ ?_ hother
    · intro s
      cases s <;> decide
    · intro m
      cases m <;> decide
  exact Nat.not_lt.2 hc (of_decide_eq_true hascii)

/-- The character that masks a keyword begins no token itself. -/
theorem munch_behind_masked {d : Char} {ds : List Char} (h : Masked (front c cs) (behind c cs))
    (hbehind : behind c cs = d :: ds) : (munch d ds).1 = .reject := by
  have hlike : Text.startsLikeLetter d = true := by
    simpa [hbehind] using h.2
  have hd : 0x80 ≤ d.toNat := of_decide_eq_true (Bool.and_eq_true_iff.1 hlike).1
  have hname : startsName d = false := by
    rw [behind, munch_of_startsName (startsName_of_masked h)] at hbehind
    have hd := of_drop_run hbehind
    simp only [continuesName, Bool.or_eq_false_iff] at hd
    simp [startsName, hd]
  have hunmatched := unmatched_of_not_startsName hd hname ds
  have hgap : (munch d ds).1 ≠ .gap := by
    intro hgap
    rcases munch_of_gap hgap with ⟨hblank, -⟩ | ⟨rfl, -⟩
    · simp only [isGap, Bool.or_eq_true, decide_eq_true_eq] at hblank
      rcases hblank with ((rfl | rfl) | rfl) | rfl <;> exact absurd hd (by decide)
    · exact absurd hd (by decide)
  have hnot : ¬ Masked (front d ds) (behind d ds) := by
    intro hmasked
    rw [startsName_of_masked hmasked] at hname
    cases hname
  rcases munch_settles hgap hnot with ⟨hlongest, -⟩ | ⟨-, hreject⟩
  · refine absurd ?_ (hunmatched _ hlongest.1)
    exact ⟨behind d ds, front_append_behind d ds⟩
  · exact hreject

end Piece

end Barista
