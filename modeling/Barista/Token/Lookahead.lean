import Barista.Token.Stream

/-!
# Lookahead

A text can be read one item at a time, and no further than it is asked for.  A lexeme that has been
shown and not yet passed is held back in one slot, and so is the end of the text.  A fault is never
held back: it is passed as soon as it is seen.
-/

namespace Barista

/-- What is seen ahead in a text: a lexeme, a fault, or nothing at its end. -/
abbrev Reply := Except Fault (Option Lexeme)

/-- The first item of a text, where `scan` finds it, with the offset and the text behind it; nothing
where only gaps are left. -/
def Item.first? (start : Nat) (onNewLine : Bool) :
    (skip : Nat) → List Char → Option (Item × Nat × List Char)
  | _, [] => none
  | skip + 1, _ :: cs => first? start onNewLine skip cs
  | 0, c :: cs =>
    let (piece, length) := munch c cs
    let text := c :: cs.take length
    let stop := start + Text.byteWidth text
    match piece with
    | .gap => first? stop (onNewLine || text.contains '\n') length cs
    | .token token => some (lexeme ⟨token, ⟨start, stop⟩, onNewLine⟩, stop, cs.drop length)
    | .reject => some (fault ⟨.ofText text, ⟨start, stop⟩⟩, stop, cs.drop length)

/-- A text in the course of being read: what is left of it from byte `start` on, and what is held
back, where `some none` stands for the end of the text. -/
structure Lookahead where
  source : String
  start : Nat
  ahead : List Char
  held : Option (Option Lexeme)
deriving DecidableEq, Repr

namespace Lookahead

def ofSource (source : String) : Lookahead :=
  ⟨source, 0, source.toList, none⟩

/-- The empty span behind the text. -/
def stopSpan (r : Lookahead) : Span := ⟨r.source.utf8ByteSize, r.source.utf8ByteSize⟩

/-- The next item of the text that is left. -/
def read (r : Lookahead) : Reply × Lookahead :=
  -- Reading starts behind an item, where no line break has been passed yet.
  match Item.first? r.start false 0 r.ahead with
  | some (.lexeme l, start, ahead) => (.ok (some l), { r with start, ahead })
  | some (.fault f, start, ahead) => (.error f, { r with start, ahead })
  | none => (.ok none, { r with start := r.source.utf8ByteSize, ahead := [] })

/-- Takes what is held back, or else reads on. -/
def next (r : Lookahead) : Reply × Lookahead :=
  match r.held with
  | some shown => (.ok shown, { r with held := none })
  | none => r.read

/-- As `next`, but what it gives is held back, unless it is a fault. -/
def peek (r : Lookahead) : Reply × Lookahead :=
  match r.next with
  | (.ok shown, r) => (.ok shown, { r with held := some shown })
  | (.error f, r) => (.error f, r)

end Lookahead
end Barista
