import Radix.ReadError

/-!
# Token/Scan — cutting a source into tokens

`Lexical.front` decides what stands at the front of a source: a gap, the longest lexeme that starts
there, or a fault.  `scan` repeats it to the end and gives every lexeme the offset of its first
character.  A fault ends the scan; the tokens before it are kept.

A fragment of a larger source is scanned alone and then moved: `Scan.relocate` sends every offset
through a table of places.
-/

namespace Radix

/-- What stands at the front of a source.  Widths count the characters after the first. -/
inductive Front where
  | gap (width : Nat)
  | lexeme (l : Lexeme) (width : Nat)
  | fault (f : ReadFault)
  deriving Repr, DecidableEq

namespace Lexical

/-! ## Classes of characters -/

/-- The characters between tokens that mean nothing. -/
def isGap (c : Char) : Bool := c = ' ' || c = '\t' || c = '\r' || c = '\x0c'

/-- Can a name start with the character? -/
def isNameStart (c : Char) : Bool := c.isAlpha || c = '_'

/-- Can a name go on with the character? -/
def isNameChar (c : Char) : Bool := c.isAlphanum || c = '_'

/-- Can the character stand in a bare payload of the base?  Capital letters count as small ones. -/
def isPayload (base : Nat) (c : Char) : Bool :=
  c.toNat < 128 && isDigitOf base c.toLower

/-! ## Quoted texts -/

/-- What an escaped character decodes to, with the distance `column` of its backslash from the
quote.  An escaped brace keeps its backslash. -/
def unescape (column : Nat) (c : Char) : List (Char × Nat) :=
  if c = 'n' then [('\n', column)]
  else if c = 't' then [('\t', column)]
  else if c = '\x7b' || c = '\x7d' then [('\\', column), (c, column + 1)]
  else [(c, column)]

/-- The characters of a text whose next character stands `column` from the opening quote, each with
its distance, and the distance of the closing quote.  There is none if the text is not closed. -/
def decodeText (column : Nat) : List Char → Option (List (Char × Nat) × Nat)
  | [] => none
  | '"' :: _ => some ([], column)
  | ['\\'] => none
  | '\\' :: c :: cs => (decodeText (column + 2) cs).map fun (ps, close) =>
    (unescape column c ++ ps, close)
  | c :: cs => (decodeText (column + 1) cs).map fun (ps, close) => ((c, column) :: ps, close)

/-- The quoted text of characters with their distances. -/
def quotedText (ps : List (Char × Nat)) : QuotedText :=
  { chars := ps.map (·.1), places := ps.map (·.2) }

/-! ## The front of a source -/

/-- The operators and marks with their spellings, longer spellings before shorter ones. -/
def signs : List (List Char × Lexeme) :=
  [(['=', '=', '='], .operator .strictEq), (['!', '=', '='], .operator .strictNe),
   (['=', '='], .operator .eq), (['!', '='], .operator .ne),
   (['<', '='], .operator .le), (['>', '='], .operator .ge),
   (['&', '&'], .operator .and), (['|', '|'], .operator .or),
   ([';'], .mark .semicolon), ([','], .mark .comma),
   (['\x7b'], .mark .openBrace), (['\x7d'], .mark .closeBrace),
   (['('], .mark .openParen), ([')'], .mark .closeParen),
   (['='], .mark .assign), (['+'], .operator .add), (['-'], .operator .sub),
   (['*'], .operator .mul), (['/'], .operator .div), (['<'], .operator .lt),
   (['>'], .operator .gt), (['!'], .mark .bang), (['@'], .mark .at)]

/-- The longest sign at the front of a source. -/
def sign (cs : List Char) : Option (List Char × Lexeme) :=
  signs.find? fun s => s.1.isPrefixOf cs

/-- The value of a decimal digit. -/
def decimal (c : Char) : Nat := c.toNat - '0'.toNat

/-- The base in front of a based numeral, read after its `b`: one or two decimal digits and an `@`.
Gives the base, the number of characters read, and what follows. -/
def baseMark? : List Char → Option (Nat × Nat × List Char)
  | d :: '@' :: cs => if d.isDigit then some (decimal d, 2, cs) else none
  | d :: e :: '@' :: cs =>
    if d.isDigit && e.isDigit then some (10 * decimal d + decimal e, 3, cs) else none
  | _ => none

/-- The payload of a based numeral whose mark took `width` characters: between parentheses anything,
and otherwise the longest run of digits. -/
def payload (base width : Nat) (cs : List Char) : Front :=
  match cs with
  | '(' :: cs =>
    let inside := cs.takeWhile (· ≠ ')')
    if inside.length < cs.length then .lexeme (.based base inside) (width + inside.length + 2)
    else .fault .unclosedPayload
  | cs =>
    let run := cs.takeWhile (isPayload base)
    .lexeme (.based base run) (width + run.length)

/-- The word that starts with `c`: a keyword or a name. -/
def word (c : Char) (cs : List Char) : Front :=
  let more := cs.takeWhile isNameChar
  let s := String.ofList (c :: more)
  match Keyword.ofSpelling? s with
  | some k => .lexeme (.keyword k) more.length
  | none => .lexeme (.name s) more.length

/-- What stands at the front of the source `c :: cs`. -/
def front (c : Char) (cs : List Char) : Front :=
  if isGap c then .gap (cs.takeWhile isGap).length
  else if c = '#' then .gap (cs.takeWhile (· ≠ '\n')).length
  else if c = '\n' then .lexeme .newline 0
  else if c = '"' then
    match decodeText 1 cs with
    | some (ps, close) => .lexeme (.text (quotedText ps)) close
    | none => .fault .unclosedText
  else if c.isDigit then
    let more := cs.takeWhile Char.isDigit
    .lexeme (.number (c :: more)) more.length
  else if isNameStart c then
    match (if c = 'b' then baseMark? cs else none) with
    | some (base, width, rest) => payload base width rest
    | none => word c cs
  else
    match sign (c :: cs) with
    | some (spelling, l) => .lexeme l (spelling.length - 1)
    | none => .fault (.strayCharacter c)

end Lexical

/-! ## Scanning -/

/-- The tokens of a source, up to the fault that ended the scan if there was one. -/
structure Scan where
  tokens : List Token
  fault : Option ReadError
  deriving Repr, DecidableEq

namespace Scan

/-- The scan with one more token in front. -/
def prepend (t : Token) (s : Scan) : Scan := { s with tokens := t :: s.tokens }

/-- The scan with every offset sent through `place`. -/
def relocate (place : Nat → Nat) (s : Scan) : Scan where
  tokens := s.tokens.map fun t => { t with offset := place t.offset }
  fault := s.fault.map fun e => { e with offset := place e.offset }

/-- The tokens of a scan that met no fault. -/
def result (s : Scan) : Except ReadError (List Token) :=
  match s.fault with
  | some e => .error e
  | none => .ok s.tokens

end Scan

/-- Scans a source whose first character has the given offset. -/
def scanFrom (offset : Nat) : List Char → Scan
  | [] => { tokens := [⟨.stop, offset⟩], fault := none }
  | c :: cs =>
    match Lexical.front c cs with
    | .gap width => scanFrom (offset + width + 1) (cs.drop width)
    | .lexeme l width => (scanFrom (offset + width + 1) (cs.drop width)).prepend ⟨l, offset⟩
    | .fault f => { tokens := [], fault := some ⟨f, offset⟩ }
termination_by cs => cs.length
decreasing_by all_goals simp only [List.length_drop, List.length_cons]; omega

/-- Scans a whole source. -/
def scan (source : List Char) : Scan := scanFrom 0 source

/-- The tokens of a source without faults. -/
def tokenize (source : List Char) : Except ReadError (List Token) := (scan source).result

/-- The place of the `i`-th character of a fragment under a table of places: its entry, else the
last entry, and `i` itself under an empty table. -/
def placeIn (table : List Nat) (i : Nat) : Nat :=
  match table[i]? with
  | some place => place
  | none => table.getLast?.getD i

/-- Scans a fragment whose characters stand at the places of the table. -/
def scanAt (table : List Nat) (fragment : List Char) : Scan :=
  (scan fragment).relocate (placeIn table)

end Radix
