import Barista.Token.Lookahead

/-!
# Peeking is transparent

A text can be asked for its next item in two ways, to pass the item or only to see it.  Its items,
taken as a plain list, answer both: the first of them is shown, and it is lost when it is passed.  A
cursor answers as its items do, and so does a lookahead, which reads the text as it goes and has one
slot for what it has shown.  Hence whoever peeks in between sees what is passed next, and what is
passed in the end does not depend on it.
-/

namespace Barista

/-- To pass the next item, or only to see it. -/
inductive Inquiry
  | next
  | peek
deriving DecidableEq, Repr

namespace Inquiry

/-- Whether an inquiry that was answered in this way has passed an item: to see a fault is to pass
it. -/
def consumes : Inquiry × Reply → Bool
  | (next, _) => true
  | (peek, .error _) => true
  | (peek, .ok _) => false

/-! ## Dialogues -/

section Dialogue

variable {σ : Type} (ask : Inquiry → σ → Reply × σ)

/-- Inquiries made one after the other, each with its reply. -/
def dialogue : σ → List Inquiry → List (Inquiry × Reply)
  | _, [] => []
  | s, q :: qs => (q, (ask q s).1) :: dialogue (ask q s).2 qs

/-- The reply number `n`, from zero on, when nobody ever peeks. -/
def result : σ → Nat → Reply
  | s, 0 => (ask next s).1
  | s, n + 1 => result (ask next s).2 n

end Dialogue
end Inquiry

namespace Item

/-- What is seen where `item?` stands ahead. -/
def reply : Option Item → Reply
  | some (lexeme l) => .ok (some l)
  | some (fault f) => .error f
  | none => .ok none

theorem reply_eq_ok_none_iff {item? : Option Item} : reply item? = .ok none ↔ item? = none := by
  rcases item? with _ | _ | _ <;> simp [reply]

/-- A list of items shows the first of them, and loses it when it is passed. -/
def ask (q : Inquiry) (items : List Item) : Reply × List Item :=
  (reply items[0]?, items.drop (Inquiry.consumes (q, reply items[0]?)).toNat)

end Item

namespace Inquiry

/-- Where `R` holds, an inquiry is answered as by the items, and `R` holds again afterwards. -/
def Simulates {σ : Type} (ask : Inquiry → σ → Reply × σ) (R : σ → List Item → Prop) : Prop :=
  ∀ q s items, R s items → (ask q s).1 = (Item.ask q items).1 ∧ R (ask q s).2 (Item.ask q items).2

section Simulation

variable {σ : Type} {ask : Inquiry → σ → Reply × σ} {R : σ → List Item → Prop} {s : σ}
  {items : List Item}

theorem Simulates.dialogue_eq (h : Simulates ask R) (hs : R s items) (qs : List Inquiry) :
    dialogue ask s qs = dialogue Item.ask items qs := by
  induction qs generalizing s items with
  | nil => rfl
  | cons q qs ih =>
      obtain ⟨hreply, hrest⟩ := h q s items hs
      simp only [dialogue, hreply, ih hrest]

theorem Simulates.result_eq (h : Simulates ask R) (hs : R s items) (n : Nat) :
    result ask s n = result Item.ask items n := by
  induction n generalizing s items with
  | zero => exact (h next s items hs).1
  | succ n ih => exact ih (h next s items hs).2

end Simulation

/-! ## What the items answer -/

section Items

variable {items : List Item} {qs : List Inquiry} {before after : List (Inquiry × Reply)}
  {exchange : Inquiry × Reply}

/-- Without peeking, the items come in their order, and then the end again and again. -/
theorem result_ask (items : List Item) (n : Nat) :
    result Item.ask items n = Item.reply items[n]? := by
  induction n generalizing items with
  | zero => simp [result, Item.ask]
  | succ n ih => simp [result, Item.ask, consumes, ih]

/-- Those inquiries that pass an item are given the items in their order. -/
theorem reply_of_consumed {i : Nat}
    (h : ((dialogue Item.ask items qs).filter consumes)[i]? = some exchange) :
    exchange.2 = Item.reply items[i]? := by
  induction qs generalizing items i with
  | nil => simp [dialogue] at h
  | cons q qs ih =>
      by_cases hq : consumes (q, Item.reply items[0]?)
      · simp only [dialogue, Item.ask, List.filter_cons, hq, if_true] at h
        cases i with
        | zero =>
            cases h
            simp
        | succ i => simpa using ih h
      · simp only [dialogue, Item.ask, List.filter_cons, hq, Bool.false_eq_true, if_false] at h
        simpa using ih h

/-- Any inquiry is shown the item behind those that were passed before it, and what follows it is
asked of the items that are then left. -/
theorem of_dialogue_eq_append (h : dialogue Item.ask items qs = before ++ exchange :: after) :
    exchange.2 = Item.reply items[before.countP consumes]? ∧
      ∃ qs', after = dialogue Item.ask
        (items.drop (before.countP consumes + (consumes exchange).toNat)) qs' := by
  -- Each exchange in front takes as many items off as it counts for.
  induction before generalizing items qs with
  | nil =>
      cases qs with
      | nil => simp [dialogue] at h
      | cons q qs =>
          obtain ⟨rfl, rfl⟩ := List.cons.inj h
          exact ⟨by simp [Item.ask], qs, by simp [Item.ask]⟩
  | cons first before ih =>
      cases qs with
      | nil => simp [dialogue] at h
      | cons q qs =>
          obtain ⟨hfirst, hrest⟩ := List.cons.inj h
          obtain ⟨hreply, qs', hafter⟩ := ih hrest
          subst hfirst
          have hcount : ((q, (Item.ask q items).1) :: before).countP consumes =
              (consumes (q, Item.reply items[0]?)).toNat + before.countP consumes := by
            rw [List.countP_cons, Nat.add_comm]
            cases hq : consumes (q, Item.reply items[0]?) <;> simp [Item.ask, hq]
          rw [hcount, Nat.add_assoc]
          refine ⟨by simpa [Item.ask] using hreply, qs', ?_⟩
          simpa [Item.ask] using hafter

/-- Behind the last item there is only the end. -/
theorem reply_of_mem_dialogue_nil (h : exchange ∈ dialogue Item.ask [] qs) :
    exchange.2 = .ok none := by
  induction qs with
  | nil => simp [dialogue] at h
  | cons q qs ih =>
      rcases List.mem_cons.1 h with rfl | h
      · rfl
      · apply ih
        simpa [Item.ask] using h

/-- What a peek shows and does not pass is what the next inquiry that passes an item is given. -/
theorem reply_of_find?_consumes {shown : Option Lexeme}
    (h : dialogue Item.ask items qs = before ++ (peek, .ok shown) :: after)
    (hfind : after.find? consumes = some exchange) : exchange.2 = .ok shown := by
  obtain ⟨hreply, qs', rfl⟩ := of_dialogue_eq_append h
  rw [← List.head?_filter, List.head?_eq_getElem?] at hfind
  calc
    exchange.2 = Item.reply items[before.countP consumes]? := by
      simpa [consumes] using reply_of_consumed hfind
    _ = .ok shown := hreply.symm

/-- After the end nothing else is seen. -/
theorem reply_of_mem_after_end {q : Inquiry}
    (h : dialogue Item.ask items qs = before ++ (q, .ok none) :: after)
    (hmem : exchange ∈ after) : exchange.2 = .ok none := by
  obtain ⟨hreply, qs', rfl⟩ := of_dialogue_eq_append h
  have hend := List.getElem?_eq_none_iff.1 (Item.reply_eq_ok_none_iff.1 hreply.symm)
  have hnil : items.drop (before.countP consumes + (consumes (q, .ok none)).toNat) = [] := by
    apply List.drop_eq_nil_of_le
    omega
  rw [hnil] at hmem
  exact reply_of_mem_dialogue_nil hmem

end Items
end Inquiry

/-! ## Cursors -/

namespace Cursor

def ask : Inquiry → Cursor → Reply × Cursor
  | .next, c => c.next
  | .peek, c => c.peek

/-- A cursor answers as the items ahead of it. -/
theorem simulates_ask : Inquiry.Simulates ask fun c items ↦ c.items = items := by
  rintro q ⟨items, last, stop⟩ _ rfl
  cases q with
  | next => rcases items with _ | ⟨_ | _, items⟩ <;> exact ⟨rfl, rfl⟩
  | peek => rcases items with _ | ⟨_ | _, items⟩ <;> exact ⟨rfl, rfl⟩

end Cursor

/-! ## Lookaheads -/

/-- A scan finds the first item and goes on behind it. -/
theorem Item.scan_eq_first? (start : Nat) (onNewLine : Bool) (skip : Nat) (cs : List Char) :
    scan start onNewLine skip cs = (first? start onNewLine skip cs).elim []
      fun found ↦ found.1 :: scan found.2.1 false 0 found.2.2 := by
  fun_induction first? start onNewLine skip cs with
  | case1 => simp [scan]
  | case2 start onNewLine skip c cs ih => simpa [scan] using ih
  | case3 start onNewLine c cs length text stop hmunch ih =>
      simp only [scan, hmunch]
      exact ih
  | case4 start onNewLine c cs length text stop token hmunch =>
      simp [scan, hmunch, scan_skip, text, stop]
  | case5 start onNewLine c cs length text stop hmunch =>
      simp [scan, hmunch, scan_skip, text, stop]

namespace Lookahead

open Inquiry (dialogue result consumes)

def ask : Inquiry → Lookahead → Reply × Lookahead
  | .next, r => r.next
  | .peek, r => r.peek

/-- The items that are still to be passed.  What is held back is the first of them, or the end when
there are none, and the text that is left has the others. -/
def Shows (r : Lookahead) (items : List Item) : Prop :=
  match r.held with
  | some shown =>
    Item.reply items[0]? = .ok shown ∧ Item.scan r.start false 0 r.ahead = items.drop 1
  | none => Item.scan r.start false 0 r.ahead = items

theorem shows_ofSource (source : String) : (ofSource source).Shows (Item.ofSource source) := rfl

variable {r : Lookahead} {items : List Item}

theorem peek_of_ok {shown : Option Lexeme} (h : r.next.1 = .ok shown) :
    r.peek = (.ok shown, { r.next.2 with held := some shown }) := by
  have hnext : r.next = (.ok shown, r.next.2) := Prod.ext h rfl
  rw [peek, hnext]

theorem peek_of_error {f : Fault} (h : r.next.1 = .error f) : r.peek = r.next := by
  have hnext : r.next = (.error f, r.next.2) := Prod.ext h rfl
  rw [peek, hnext]

/-- Reading takes the first item off the text. -/
theorem read_of_scan (h : Item.scan r.start false 0 r.ahead = items) :
    r.read.1 = Item.reply items[0]? ∧
      Item.scan r.read.2.start false 0 r.read.2.ahead = items.drop 1 ∧ r.read.2.held = r.held := by
  rw [Item.scan_eq_first?] at h
  subst h
  rw [read]
  split <;> rename_i hfirst <;> simp [hfirst, Item.reply, Item.scan]

/-- Whether or not something was held back, `next` gives the first item and leaves the slot
empty. -/
theorem next_of_shows (h : r.Shows items) :
    r.next.1 = Item.reply items[0]? ∧
      Item.scan r.next.2.start false 0 r.next.2.ahead = items.drop 1 ∧ r.next.2.held = none := by
  cases hheld : r.held with
  | none =>
      simp only [Shows, hheld] at h
      simpa only [next, hheld] using read_of_scan h
  | some shown =>
      simp only [Shows, hheld] at h
      simp only [next, hheld, and_true]
      exact ⟨h.1.symm, h.2⟩

/-- A lookahead answers as the items that are still to be passed. -/
theorem simulates_ask : Inquiry.Simulates ask Shows := by
  intro q r items h
  obtain ⟨hreply, hscan, hheld⟩ := next_of_shows h
  cases q with
  | next => simp [ask, Item.ask, consumes, Shows, hreply, hscan, hheld]
  | peek =>
      cases hshown : Item.reply items[0]? with
      | ok shown =>
          -- The slot has the item again, so that nothing is missing from those still to be passed.
          rw [hshown] at hreply
          simp only [ask, peek_of_ok hreply, Item.ask, hshown, consumes]
          exact ⟨trivial, hshown, hscan⟩
      | error f =>
          rw [hshown] at hreply
          simp [ask, peek_of_error hreply, Item.ask, consumes, Shows, hshown, hreply, hscan, hheld]

theorem source_ask (q : Inquiry) (r : Lookahead) : (ask q r).2.source = r.source := by
  have hread : r.read.2.source = r.source := by
    rw [read]
    split <;> rfl
  have hnext : r.next.2.source = r.source := by
    rw [next]
    split
    · rfl
    · exact hread
  cases q with
  | next => exact hnext
  | peek =>
      cases hreply : r.next.1 with
      | ok shown => simpa only [ask, peek_of_ok hreply] using hnext
      | error f => simpa only [ask, peek_of_error hreply] using hnext

theorem source_foldl_ask (qs : List Inquiry) (r : Lookahead) :
    (qs.foldl (fun r q ↦ (ask q r).2) r).source = r.source := by
  induction qs generalizing r with
  | nil => rfl
  | cons q qs ih => simp only [List.foldl_cons, ih, source_ask]

/-- Peeking is transparent.  However the text is asked for its items, those inquiries that pass one
are given what they would be given without any peeking: those that go on to the next item, and those
that peek at a fault.  To peek at anything else, the end included, shows what is passed next and
passes nothing.  Once the end is seen, it is all that is seen, and always at the same place.  A
cursor, which has all the items before it from the start, gives the same replies. -/
theorem peeking_transparent (source : String) (qs : List Inquiry) :
    (∀ i exchange, ((dialogue ask (ofSource source) qs).filter consumes)[i]? = some exchange →
      exchange.2 = result ask (ofSource source) i) ∧
    (∀ before shown after,
      dialogue ask (ofSource source) qs = before ++ (.peek, .ok shown) :: after →
      .ok shown = result ask (ofSource source) (before.countP consumes) ∧
        ∀ exchange, after.find? consumes = some exchange → exchange.2 = .ok shown) ∧
    (∀ before q after, dialogue ask (ofSource source) qs = before ++ (q, .ok none) :: after →
      ∀ exchange ∈ after, exchange.2 = .ok none) ∧
    (qs.foldl (fun r q ↦ (ask q r).2) (ofSource source)).stopSpan =
      ⟨source.utf8ByteSize, source.utf8ByteSize⟩ ∧
    dialogue ask (ofSource source) qs = dialogue Cursor.ask (Cursor.ofSource source) qs := by
  have hshows := shows_ofSource source
  have hcursor : (Cursor.ofSource source).items = Item.ofSource source := rfl
  simp only [simulates_ask.dialogue_eq hshows, simulates_ask.result_eq hshows,
    Cursor.simulates_ask.dialogue_eq hcursor, Inquiry.result_ask]
  refine ⟨?_, ?_, ?_, ?_, trivial⟩
  · intro i exchange h
    exact Inquiry.reply_of_consumed h
  · intro before shown after h
    refine ⟨(Inquiry.of_dialogue_eq_append h).1, ?_⟩
    intro exchange hfind
    exact Inquiry.reply_of_find?_consumes h hfind
  · intro before q after h exchange hmem
    exact Inquiry.reply_of_mem_after_end h hmem
  · simp only [stopSpan, source_foldl_ask]
    rfl

/-- Between two names a stray character is passed by peeking at it, and each name and the end are
peeked at before they are passed. -/
theorem peeking_transparent_past_fault :
    dialogue ask (ofSource "a $ b") [.peek, .next, .peek, .peek, .next, .peek, .next] =
      [(.peek, .ok (some ⟨.ident "a", ⟨0, 1⟩, false⟩)),
        (.next, .ok (some ⟨.ident "a", ⟨0, 1⟩, false⟩)), (.peek, .error ⟨.stray "$", ⟨2, 3⟩⟩),
        (.peek, .ok (some ⟨.ident "b", ⟨4, 5⟩, false⟩)),
        (.next, .ok (some ⟨.ident "b", ⟨4, 5⟩, false⟩)), (.peek, .ok none), (.next, .ok none)] ∧
    result ask (ofSource "a $ b") 1 = .error ⟨.stray "$", ⟨2, 3⟩⟩ ∧
    result ask (ofSource "a $ b") 2 = .ok (some ⟨.ident "b", ⟨4, 5⟩, false⟩) ∧
    result ask (ofSource "a $ b") 3 = .ok none := by
  have hitems : Item.ofSource "a $ b" = [.lexeme ⟨.ident "a", ⟨0, 1⟩, false⟩,
      .fault ⟨.stray "$", ⟨2, 3⟩⟩, .lexeme ⟨.ident "b", ⟨4, 5⟩, false⟩] := by
    decide +kernel
  have hdialogue := simulates_ask.dialogue_eq (shows_ofSource "a $ b")
    [.peek, .next, .peek, .peek, .next, .peek, .next]
  rw [hitems] at hdialogue
  obtain ⟨hpassed, hpeeked, -⟩ := peeking_transparent "a $ b"
    [.peek, .next, .peek, .peek, .next, .peek, .next]
  rw [hdialogue] at hpassed hpeeked
  exact ⟨hdialogue, (hpassed 1 _ rfl).symm, (hpeeked [_, _, _] _ _ rfl).1.symm,
    (hpassed 3 _ rfl).symm⟩

end Lookahead
end Barista
