import Radix.Operator
import Radix.Text.Quoted

/-!
# Token/Basic — the words of the language and where they stand

A token is a lexeme together with the offset of its first character, counted in characters from the
start of the source.  A text lexeme holds its decoded characters, and for each of them how far from
the opening quote it was written.
-/

namespace Radix

/-- The words that cannot be names. -/
inductive Keyword where
  | fnWord | retWord | ifWord | elseWord | whileWord | loopWord | breakWord | continueWord
  deriving Repr, DecidableEq

namespace Keyword

/-- How a keyword is written. -/
def spelling : Keyword → String
  | .fnWord => "fn"
  | .retWord => "ret"
  | .ifWord => "if"
  | .elseWord => "else"
  | .whileWord => "while"
  | .loopWord => "loop"
  | .breakWord => "break"
  | .continueWord => "continue"

/-- All keywords, each once. -/
def all : List Keyword :=
  [.fnWord, .retWord, .ifWord, .elseWord, .whileWord, .loopWord, .breakWord, .continueWord]

/-- The keyword that a word is, if it is one. -/
def ofSpelling? (s : String) : Option Keyword := all.find? (·.spelling = s)

end Keyword

/-- The punctuation marks that are no operators. -/
inductive Mark where
  | semicolon | comma | openBrace | closeBrace | openParen | closeParen | assign | bang | at
  deriving Repr, DecidableEq

/-- How a mark is written. -/
def Mark.spelling : Mark → String
  | .semicolon => ";"
  | .comma => ","
  | .openBrace => "\x7b"
  | .closeBrace => "\x7d"
  | .openParen => "("
  | .closeParen => ")"
  | .assign => "="
  | .bang => "!"
  | .at => "@"

/-- The decoded characters of a quoted text, and where they were written. -/
structure QuotedText where
  chars : List Char
  /-- For each character its distance from the opening quote; an escape stands at its backslash. -/
  places : List Nat
  deriving Repr, DecidableEq

namespace QuotedText

/-- A text written without escapes. -/
def plain (chars : List Char) : QuotedText :=
  { chars, places := List.range' 1 chars.length }

/-- The distance of the `i`-th character from the opening quote.  Past the table it is taken to be
written without escapes. -/
def place (t : QuotedText) (i : Nat) : Nat := t.places.getD i (i + 1)

end QuotedText

/-- What a token says. -/
inductive Lexeme where
  /-- A numeral written with its base; neither the base nor the payload is checked yet. -/
  | based (base : Nat) (payload : List Char)
  /-- A run of decimal digits. -/
  | number (digits : List Char)
  | text (quoted : QuotedText)
  | name (s : String)
  | keyword (k : Keyword)
  | mark (m : Mark)
  | operator (op : Operator)
  | newline
  /-- The end of the source. -/
  | stop
  deriving Repr, DecidableEq

/-- How messages name a lexeme. -/
def Lexeme.describe : Lexeme → String
  | .based base payload => s!"literal 'b{base}@" ++ String.ofList payload ++ "'"
  | .number digits => "number '" ++ String.ofList digits ++ "'"
  | .text quoted => "text " ++ Text.quoteText quoted.chars
  | .name s => s!"identifier '{s}'"
  | .keyword k => "'" ++ k.spelling ++ "'"
  | .mark m => "'" ++ m.spelling ++ "'"
  | .operator op => "'" ++ op.symbol ++ "'"
  | .newline => "newline"
  | .stop => "end of input"

/-- A lexeme and the offset of its first character. -/
structure Token where
  lexeme : Lexeme
  offset : Nat
  deriving Repr, DecidableEq

end Radix
