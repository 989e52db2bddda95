import Barista.Token.Munch

/-!
# The stream of lexemes

A text becomes a list of items: lexemes, and faults where no token could be read.  Reading goes on
behind a fault.  A cursor is a place in that list; it can be asked for the next item with or without
moving on, and a fault is passed as soon as it is seen.
-/

namespace Barista

/-- Why a text is no token. -/
inductive FaultCause
  | numberOutOfRange (text : String)
  | badEscape (text : String)
  | stray (text : String)
deriving DecidableEq, Repr

namespace FaultCause

/-- The cause is read off the rejected text alone. -/
def ofText (text : List Char) : FaultCause :=
  if text.head?.any Char.isDigit then numberOutOfRange (String.ofList text)
  else if 1 < text.length ∧ text.head? = some '"' ∧ text.getLast? = some '"' then
    badEscape (String.ofList text)
  else stray (String.ofList text)

def message : FaultCause → String
  | numberOutOfRange text => s!"Invalid literal: number {text} is out of range"
  | badEscape text => s!"Invalid literal: bad escape sequence in {text}"
  | stray text => s!"Unexpected character '{text}'"

end FaultCause

structure Fault where
  cause : FaultCause
  span : Span
deriving DecidableEq, Repr

inductive Item
  | lexeme (lexeme : Lexeme)
  | fault (fault : Fault)
deriving DecidableEq, Repr

namespace Item

def span : Item → Span
  | lexeme l => l.span
  | fault f => f.span

/-- The items of a text whose first piece starts at byte `start`, behind `skip` characters that
still belong to the piece before.  `onNewLine` tells whether a line break has been passed since the
last item. -/
def scan (start : Nat) (onNewLine : Bool) : (skip : Nat) → List Char → List Item
  | _, [] => []
  | skip + 1, _ :: cs => scan start onNewLine skip cs
  | 0, c :: cs =>
    let (piece, length) := munch c cs
    let text := c :: cs.take length
    let stop := start + Text.byteWidth text
    match piece with
    | .gap => scan stop (onNewLine || text.contains '\n') length cs
    | .token token => lexeme ⟨token, ⟨start, stop⟩, onNewLine⟩ :: scan stop false length cs
    | .reject => fault ⟨.ofText text, ⟨start, stop⟩⟩ :: scan stop false length cs

def ofSource (source : String) : List Item :=
  scan 0 false 0 source.toList

theorem scan_skip (start : Nat) (onNewLine : Bool) (skip : Nat) (cs : List Char) :
    scan start onNewLine skip cs = scan start onNewLine 0 (cs.drop skip) := by
  induction skip generalizing cs with
  | zero => rfl
  | succ skip ih =>
    cases cs with
    | nil => simp [scan]
    | cons c cs => simpa [scan] using ih cs

/-- The lexemes up to the first fault or the end of the text, and that fault. -/
def lexemes : List Item → List Lexeme × Option Fault
  | lexeme l :: items => (l :: (lexemes items).1, (lexemes items).2)
  | fault f :: _ => ([], some f)
  | [] => ([], none)

end Item

/-- A place in a stream: the items ahead, the span of the lexeme passed last, and the offset of the
end of the text. -/
structure Cursor where
  items : List Item
  last : Span
  stop : Nat
deriving DecidableEq, Repr

namespace Cursor

def ofSource (source : String) : Cursor :=
  ⟨Item.ofSource source, ⟨0, 0⟩, source.utf8ByteSize⟩

def length (c : Cursor) : Nat := c.items.length

/-- The empty span behind the text. -/
def stopSpan (c : Cursor) : Span := ⟨c.stop, c.stop⟩

/-- What stands at a cursor: a lexeme with the cursor behind it, a fault with the cursor behind it,
or the end of the text. -/
inductive View (c : Cursor)
  | lexeme (l : Lexeme) (rest : Cursor) (shorter : rest.length < c.length)
  | fault (f : Fault) (rest : Cursor) (shorter : rest.length < c.length)
  | finish

def view : (c : Cursor) → View c
  | ⟨.lexeme l :: items, _, stop⟩ => .lexeme l ⟨items, l.span, stop⟩ (Nat.lt_succ_self _)
  | ⟨.fault f :: items, last, stop⟩ => .fault f ⟨items, last, stop⟩ (Nat.lt_succ_self _)
  | ⟨[], _, _⟩ => .finish

/-- The next item and the cursor behind it; nothing at the end of the text. -/
def next (c : Cursor) : Except Fault (Option Lexeme) × Cursor :=
  match c.view with
  | .lexeme l rest _ => (.ok (some l), rest)
  | .fault f rest _ => (.error f, rest)
  | .finish => (.ok none, c)

/-- The next item.  A lexeme stays ahead, a fault is passed. -/
def peek (c : Cursor) : Except Fault (Option Lexeme) × Cursor :=
  match c.view with
  | .lexeme l _ _ => (.ok (some l), c)
  | .fault f rest _ => (.error f, rest)
  | .finish => (.ok none, c)

end Cursor
end Barista
