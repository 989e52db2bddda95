import Barista.Span
import Barista.Operator
import Barista.Whole
import Barista.Double.Layout

/-!
# Tokens

The words of a program, and how a message names each of them.
-/

namespace Barista

inductive Keyword
  | int | double | bool | string | void | array
  | func | ret | print | cond | otherwise | loop | each | within | yes | no
deriving DecidableEq, Repr

namespace Keyword

def all : List Keyword :=
  [int, double, bool, string, void, array, func, ret, print, cond, otherwise, loop, each, within,
    yes, no]

def text : Keyword → String
  | int => "int"
  | double => "double"
  | bool => "bool"
  | string => "string"
  | void => "void"
  | array => "array"
  | func => "func"
  | ret => "return"
  | print => "print"
  | cond => "if"
  | otherwise => "else"
  | loop => "while"
  | each => "for"
  | within => "in"
  | yes => "true"
  | no => "false"

def ofText? (text : String) : Option Keyword :=
  all.find? fun keyword ↦ keyword.text = text

/-- The keywords with which a type can begin. -/
def startsType : Keyword → Bool
  | int | double | bool | string | void | array => true
  | _ => false

theorem ofText?_text (k : Keyword) : ofText? k.text = some k := by
  cases k <;> decide

theorem text_of_ofText? {s : String} {k : Keyword} (h : ofText? s = some k) : k.text = s := by
  simpa using List.find?_some h

end Keyword

inductive Punct
  | openParen | closeParen | openBrace | closeBrace | openBracket | closeBracket
  | comma | colon | question | arrow
deriving DecidableEq, Repr

def Punct.text : Punct → String
  | openParen => "("
  | closeParen => ")"
  | openBrace => "\x7b"
  | closeBrace => "\x7d"
  | openBracket => "["
  | closeBracket => "]"
  | comma => ","
  | colon => ":"
  | question => "?"
  | arrow => "->"

inductive Token
  | int (value : Whole)
  | double (value : Double)
  | string (value : String)
  | ident (name : String)
  | keyword (word : Keyword)
  | symbol (sign : Symbol)
  | punct (mark : Punct)
deriving DecidableEq, Repr

namespace Token

/-- A token as an error message names it. -/
def text : Token → String
  | int value => value.text
  | double value => value.plainText
  | string value => "\"" ++ value ++ "\""
  | ident name => "identifier '" ++ name ++ "'"
  | keyword word => "'" ++ word.text ++ "'"
  | symbol sign => "'" ++ sign.text ++ "'"
  | punct mark => "'" ++ mark.text ++ "'"

/-- The tokens with which an expression can begin. -/
def startsExpression : Token → Bool
  | int _ | double _ | string _ | ident _ => true
  | punct .openParen | punct .openBracket => true
  | keyword .yes | keyword .no => true
  | symbol .minus | symbol .bang => true
  | _ => false

end Token

/-- A token where it stands in a text.  `onNewLine` holds when a line break lies between it and the
token before it. -/
structure Lexeme where
  token : Token
  span : Span
  onNewLine : Bool
deriving DecidableEq, Repr

end Barista
