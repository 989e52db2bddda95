import Barista.Token
import Barista.Text.FirstByte
import Barista.Double.Reader

/-!
# The longest token at the front of a text

`munch c cs` looks at the text `c :: cs` and says what its longest piece at the front is: a gap that
separates tokens, a token, or text that is no token.  A piece is given with the number of characters
of `cs` that belong to it, so that every piece has at least one character.
-/

namespace Barista

inductive Piece
  | gap
  | token (token : Token)
  | reject
deriving DecidableEq, Repr

namespace Munch

def isGap (c : Char) : Bool :=
  c = ' ' || c = '\t' || c = '\n' || c = '\r'

def startsName (c : Char) : Bool :=
  Text.isLetter c || c = '_'

def continuesName (c : Char) : Bool :=
  Text.isLetter c || Text.isNumber c || c = '_'

theorem isDigit_eq_false_of_startsName {c : Char} (h : startsName c) : c.isDigit = false := by
  rw [Bool.eq_false_iff]
  intro hdigit
  have hnine : c.toNat ≤ 57 :=
    UInt32.le_iff_toNat_le.1 (of_decide_eq_true (Bool.and_eq_true_iff.1 hdigit).2)
  rcases Bool.or_eq_true_iff.1 h with h | h
  · rw [Text.isLetter, if_pos (by omega)] at h
    rcases Bool.or_eq_true_iff.1 h with h | h
    · have hupper : 65 ≤ c.toNat := UInt32.le_iff_toNat_le.1 (of_decide_eq_true h).1
      omega
    · have hlower : 97 ≤ c.toNat :=
        UInt32.le_iff_toNat_le.1 (of_decide_eq_true (Bool.and_eq_true_iff.1 h).1)
      omega
  · rw [of_decide_eq_true h] at hdigit
    exact absurd hdigit (by decide)

/-- The length of the longest run of characters with the property `p`. -/
def run (p : Char → Bool) (cs : List Char) : Nat :=
  (cs.takeWhile p).length

/-- The word `text` in front of the character `next`.  Names are told from keywords byte by byte:
where `next` starts like a letter the word is taken for the start of a longer name, and it stays a
name when `next` turns out to be no part of it. -/
def word (text : List Char) (next : Option Char) : Token :=
  let name := String.ofList text
  match Keyword.ofText? name with
  | some word => if next.any Text.startsLikeLetter then .ident name else .keyword word
  | none => .ident name

/-- The length of `.` and digits, or zero. -/
def fractionLength : List Char → Nat
  | '.' :: cs => if run Char.isDigit cs = 0 then 0 else run Char.isDigit cs + 1
  | _ => 0

/-- The length of an exponent mark, an optional sign and digits, or zero. -/
def exponentLength : List Char → Nat
  | mark :: cs =>
    let sign := match cs with
      | '+' :: _ | '-' :: _ => 1
      | _ => 0
    let digits := run Char.isDigit (cs.drop sign)
    if (mark = 'e' ∨ mark = 'E') ∧ digits ≠ 0 then digits + sign + 1 else 0
  | [] => 0

def wholeLiteral (digits : List Char) : Piece :=
  (Whole.ofInt? (digitsValue digits)).elim .reject fun n ↦ .token (.int n)

def doubleLiteral (text : List Char) : Piece :=
  match Double.read? (String.ofList text) with
  | some d => if d.isFinite then .token (.double d) else .reject
  | none => .reject

/-- A number with a fraction or an exponent is a double. -/
def number (c : Char) (cs : List Char) : Piece × Nat :=
  let whole := run Char.isDigit cs
  let fraction := fractionLength (cs.drop whole)
  let exponent := exponentLength (cs.drop (whole + fraction))
  let length := whole + fraction + exponent
  let text := c :: cs.take length
  (if fraction + exponent = 0 then wholeLiteral text else doubleLiteral text, length)

/-- The length of the longest text without a bare quote or a line break in which every backslash is
followed by a character. -/
def bodyLength : List Char → Nat
  | '\\' :: c :: cs => if c = '\n' then 0 else bodyLength cs + 2
  | c :: cs => if c = '"' ∨ c = '\\' ∨ c = '\n' then 0 else bodyLength cs + 1
  | [] => 0

def unescape? (c : Char) : Option Char :=
  match c with
  | 'n' => some '\n'
  | 't' => some '\t'
  | 'r' => some '\r'
  | '\\' => some '\\'
  | '"' => some '"'
  | '0' => some '\x00'
  | _ => none

/-- The text that the body of a string literal stands for. -/
def unescapeAll? : List Char → Option (List Char)
  | '\\' :: c :: cs => do
    let first ← unescape? c
    let rest ← unescapeAll? cs
    return first :: rest
  | c :: cs => if c = '\\' then none else (unescapeAll? cs).map (c :: ·)
  | [] => some []

/-- The text behind an opening quote. -/
def string (cs : List Char) : Piece × Nat :=
  let length := bodyLength cs
  match cs.drop length with
  | '"' :: _ =>
    match unescapeAll? (cs.take length) with
    | some value => (.token (.string (String.ofList value)), length + 1)
    | none => (.reject, length + 1)
  | _ => (.reject, length)

def pair? (c d : Char) : Option Token :=
  match c, d with
  | '-', '>' => some (.punct .arrow)
  | '<', '=' => some (.symbol .lessEqual)
  | '>', '=' => some (.symbol .greaterEqual)
  | '=', '=' => some (.symbol .equal)
  | '!', '=' => some (.symbol .notEqual)
  | '&', '&' => some (.symbol .both)
  | '|', '|' => some (.symbol .either)
  | '+', '=' => some (.symbol .plusAssign)
  | '-', '=' => some (.symbol .minusAssign)
  | '*', '=' => some (.symbol .starAssign)
  | '/', '=' => some (.symbol .slashAssign)
  | _, _ => none

def single? (c : Char) : Option Token :=
  match c with
  | '(' => some (.punct .openParen)
  | ')' => some (.punct .closeParen)
  | '{' => some (.punct .openBrace)
  | '}' => some (.punct .closeBrace)
  | '[' => some (.punct .openBracket)
  | ']' => some (.punct .closeBracket)
  | ',' => some (.punct .comma)
  | ':' => some (.punct .colon)
  | '?' => some (.punct .question)
  | '+' => some (.symbol .plus)
  | '-' => some (.symbol .minus)
  | '*' => some (.symbol .star)
  | '/' => some (.symbol .slash)
  | '^' => some (.symbol .caret)
  | '<' => some (.symbol .less)
  | '>' => some (.symbol .greater)
  | '!' => some (.symbol .bang)
  | '=' => some (.symbol .assign)
  | _ => none

/-- A mark of two characters wins over one of a single character. -/
def mark (c : Char) (cs : List Char) : Piece × Nat :=
  match cs.head?.bind (pair? c) with
  | some token => (.token token, 1)
  | none =>
    match single? c with
    | some token => (.token token, 0)
    | none => (.reject, 0)

end Munch

open Munch in
def munch (c : Char) (cs : List Char) : Piece × Nat :=
  if isGap c then (.gap, run isGap cs)
  else if c = '#' ∧ cs.head? = some '#' then (.gap, run (· ≠ '\n') cs)
  else if c.isDigit then number c cs
  else if c = '"' then string cs
  else if startsName c then
    let length := run continuesName cs
    (.token (word (c :: cs.take length) (cs.drop length).head?), length)
  else mark c cs

end Barista
