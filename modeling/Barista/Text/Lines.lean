/-!
# Lines

A text cut at a separator.  `split` keeps every piece, so that joining the pieces again gives the
text back; `lines` reads each line break as the end of a line, so that a last piece that is empty
is no line, and a carriage return in front of a line break belongs to the break.
-/

namespace Barista
namespace Text

/-- The pieces between the separators; there is one more piece than there are separators. -/
def pieces (separator : Char) : List Char → List (List Char)
  | [] => [[]]
  | c :: cs =>
    if c = separator then [] :: pieces separator cs
    else
      match pieces separator cs with
      | [] => [[c]]
      | first :: others => (c :: first) :: others

def split (separator : Char) (s : String) : List String :=
  (pieces separator s.toList).map String.ofList

def join (lines : List String) : String :=
  "\n".intercalate lines

def dropReturn (line : List Char) : List Char :=
  if line.getLast? = some '\r' then line.dropLast else line

/-- Every piece but the last was ended by a line break. -/
def endedLines : List (List Char) → List (List Char)
  | [] => []
  | [last] => if last.isEmpty then [] else [last]
  | line :: rest => dropReturn line :: endedLines rest

def lines (s : String) : List String :=
  (endedLines (pieces '\n' s.toList)).map String.ofList

theorem pieces_ne_nil (separator : Char) (cs : List Char) : pieces separator cs ≠ [] := by
  cases cs with
  | nil => simp [pieces]
  | cons c cs =>
    by_cases hc : c = separator
    · simp [pieces, hc]
    · cases h : pieces separator cs <;> simp [pieces, hc, h]

end Text
end Barista
