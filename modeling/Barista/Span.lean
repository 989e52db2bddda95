/-!
# Spans and positions

A span is a half-open range of byte offsets into the UTF-8 form of a text.  A position is the line
and the column that a reader sees, both counted from one, columns in characters.
-/

namespace Barista

structure Span where
  start : Nat
  stop : Nat
deriving DecidableEq, Repr, Inhabited

namespace Span

/-- The least span that covers both. -/
def merge (a b : Span) : Span :=
  ⟨min a.start b.start, max a.stop b.stop⟩

@[simp] theorem merge_self (a : Span) : a.merge a = a := by
  simp [merge]

end Span

namespace Text

/-- The number of bytes of a text in UTF-8. -/
def byteWidth : List Char → Nat
  | [] => 0
  | c :: cs => c.utf8Size + byteWidth cs

@[simp] theorem byteWidth_append (a b : List Char) :
    byteWidth (a ++ b) = byteWidth a + byteWidth b := by
  induction a with
  | nil => simp [byteWidth]
  | cons c cs ih => simp [byteWidth, ih, Nat.add_assoc]

theorem length_le_byteWidth (cs : List Char) : cs.length ≤ byteWidth cs := by
  induction cs with
  | nil => simp [byteWidth]
  | cons c cs ih =>
    have := c.utf8Size_pos
    simp only [List.length_cons, byteWidth]
    omega

end Text

structure Position where
  line : Nat
  column : Nat
deriving DecidableEq, Repr

namespace Position

def origin : Position := ⟨1, 1⟩

/-- The position behind the character `c` that stands at `p`. -/
def after (p : Position) (c : Char) : Position :=
  if c = '\n' then ⟨p.line + 1, 1⟩ else ⟨p.line, p.column + 1⟩

/-- The position `offset` bytes further on.  Offsets behind the end mean the end; an offset inside
a character has no column and is shown at the first one. -/
def walk (p : Position) : List Char → Nat → Position
  | [], _ => p
  | c :: cs, offset =>
    if offset = 0 then p
    else if c.utf8Size ≤ offset then (p.after c).walk cs (offset - c.utf8Size)
    else ⟨p.line, 1⟩

def locate (source : String) (offset : Nat) : Position :=
  origin.walk source.toList offset

def text (p : Position) : String :=
  s!"Line {p.line}, col {p.column}"

@[simp] theorem walk_zero (p : Position) (cs : List Char) : p.walk cs 0 = p := by
  cases cs <;> simp [walk]

theorem walk_byteWidth (p : Position) (cs rest : List Char) :
    p.walk (cs ++ rest) (Text.byteWidth cs) = cs.foldl after p := by
  induction cs generalizing p with
  | nil => simp [Text.byteWidth]
  | cons c cs ih =>
    have := c.utf8Size_pos
    simp [walk, Text.byteWidth, ih, Nat.ne_of_gt this]

end Position

def Span.position (span : Span) (source : String) : Position :=
  Position.locate source span.start

end Barista
