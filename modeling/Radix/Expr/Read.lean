import Radix.Expr.Chain
import Radix.ReadError

/-!
# Expr/Read — reading tokens into programs

The readers are mutually recursive, one for each construct of the language.  Each takes a list of
tokens and gives, with what it read, the tokens that are left; the type says that these are fewer,
so the recursion ends: every call is on fewer tokens, or on no more tokens by a reader of lower
rank.  With six for each token and the rank the measure is a single number, and the readings of
given tokens can be computed.

A list of tokens ordinarily ends with the lexeme `stop`.  Where a list just ends, the reader that
needed another token fails with `ranDry`.
-/

namespace Radix.Read

/-- The tokens left once something was read off the front of `ts`. -/
abbrev Fewer (ts : List Token) := { rest : List Token // rest.length < ts.length }

/-- The tokens left once something may have been read off the front of `ts`. -/
abbrev NoMore (ts : List Token) := { rest : List Token // rest.length ≤ ts.length }

/-! ## Single tokens -/

/-- The fault of a list of tokens that ended too early. -/
def ranDry : ReadError := ⟨.unexpected .stop .token, 0⟩

/-- The fault of a token that cannot stand where it stands. -/
def unexpected (t : Token) (expected : Expectation) : ReadError :=
  ⟨.unexpected t.lexeme expected, t.offset⟩

/-- Takes the mark `m`. -/
def mark (m : Mark) (expected : Expectation) : (ts : List Token) → Except ReadError (Fewer ts)
  | [] => .error ranDry
  | t :: ts =>
    if t.lexeme = .mark m then .ok ⟨ts, by simp⟩ else .error (unexpected t expected)

/-- Takes a name. -/
def name (expected : Expectation) : (ts : List Token) → Except ReadError (String × Fewer ts)
  | [] => .error ranDry
  | ⟨.name s, _⟩ :: ts => .ok (s, ⟨ts, by simp⟩)
  | t :: _ => .error (unexpected t expected)

/-- Takes a label, if an `@` stands in front. -/
def label : (ts : List Token) → Except ReadError (Option String × NoMore ts)
  | ⟨.mark .at, _⟩ :: ts => do
    let (s, ⟨rest, h⟩) ← name .labelName ts
    return (some s, ⟨rest, by simp only [List.length_cons]; omega⟩)
  | ts => return (none, ⟨ts, Nat.le_refl _⟩)

/-- The tokens after the line ends in front. -/
def dropNewlines (ts : List Token) : List Token := ts.dropWhile (·.lexeme = .newline)

theorem length_dropNewlines_le (ts : List Token) : (dropNewlines ts).length ≤ ts.length :=
  (List.dropWhile_sublist _).length_le

/-- Does the token separate statements? -/
def isSeparator (t : Token) : Bool := t.lexeme = .newline || t.lexeme = .mark .semicolon

/-- The tokens after the separators in front. -/
def dropSeparators (ts : List Token) : List Token := ts.dropWhile isSeparator

theorem length_dropSeparators_le (ts : List Token) : (dropSeparators ts).length ≤ ts.length :=
  (List.dropWhile_sublist _).length_le

/-- Takes the end of a statement: a separator, or nothing where the source, the block or the tokens
end. -/
def terminator : (ts : List Token) → Except ReadError (NoMore ts)
  | [] => .ok ⟨[], Nat.le_refl _⟩
  | t :: ts =>
    if isSeparator t then .ok ⟨ts, by simp⟩
    else if t.lexeme = .stop || t.lexeme = .mark .closeBrace then .ok ⟨t :: ts, Nat.le_refl _⟩
    else .error (unexpected t .terminator)

/-- The numeral that a token stands for. -/
def numeral (base : Nat) (digits : List Char) (offset : Nat) : Except ReadError Expr :=
  match Numeral.ofDigits base digits with
  | .ok x => .ok (.numeral x)
  | .error cause => .error ⟨.invalidNumeral cause, offset⟩

/-! ## Lists in parentheses -/

/-- Takes what directly follows an item of a list: a comma and line ends, after which another item
follows, or the closing parenthesis.  Says whether an item follows. -/
def listNextAt : (ts : List Token) → Except ReadError (Bool × Fewer ts)
  | [] => .error ranDry
  | t :: ts =>
    if t.lexeme = .mark .comma then
      .ok (true, ⟨dropNewlines ts, by
        have := length_dropNewlines_le ts
        simp only [List.length_cons]
        omega⟩)
    else if t.lexeme = .mark .closeParen then .ok (false, ⟨ts, by simp⟩)
    else .error (unexpected t .listNext)

/-- Takes what follows an item of a list, line ends apart. -/
def listNext (ts : List Token) : Except ReadError (Bool × Fewer ts) := do
  let (more, ⟨us, h⟩) ← listNextAt (dropNewlines ts)
  return (more, ⟨us, by have := length_dropNewlines_le ts; omega⟩)

/-- Reads a parameter: its tag and its name. -/
def param (ts : List Token) : Except ReadError (Param × Fewer ts) := do
  let (tag, ⟨us, h⟩) ← name .parameterTag ts
  let (name, ⟨vs, h'⟩) ← name .parameterName us
  return ({ tag, name }, ⟨vs, by omega⟩)

/-- Reads the parameters from the first one on, up to the closing parenthesis. -/
def paramItems (ts : List Token) : Except ReadError (List Param × Fewer ts) := do
  let (first, ⟨us, h⟩) ← param ts
  let (more, ⟨vs, h'⟩) ← listNext us
  if more then
    let (others, ⟨ws, h''⟩) ← paramItems vs
    return (first :: others, ⟨ws, by omega⟩)
  else return ([first], ⟨vs, by omega⟩)
termination_by ts.length

/-- Reads a list of parameters with no line ends in front. -/
def paramsAt : (ts : List Token) → Except ReadError (List Param × Fewer ts)
  | ⟨.mark .closeParen, _⟩ :: ts => return ([], ⟨ts, by simp⟩)
  | ts => paramItems ts

/-- Reads the parameters of a function, after the opening parenthesis. -/
def params (ts : List Token) : Except ReadError (List Param × Fewer ts) := do
  let (ps, ⟨us, h⟩) ← paramsAt (dropNewlines ts)
  return (ps, ⟨us, by have := length_dropNewlines_le ts; omega⟩)

/-- Takes the tag of a function's result: a name with the body directly after it. -/
def returnTag : (ts : List Token) → Option String × NoMore ts
  | ⟨.name s, _⟩ :: ⟨.mark .openBrace, offset⟩ :: ts =>
    (some s, ⟨⟨.mark .openBrace, offset⟩ :: ts, by simp⟩)
  | ts => (none, ⟨ts, Nat.le_refl _⟩)

/-- Takes an `else`. -/
def elseAt : (ts : List Token) → Option (Fewer ts)
  | ⟨.keyword .elseWord, _⟩ :: ts => some ⟨ts, by simp⟩
  | _ => none

/-- Takes an `else`, and the line ends before it. -/
def elseNext (ts : List Token) : Option (Fewer ts) := do
  let ⟨us, h⟩ ← elseAt (dropNewlines ts)
  return ⟨us, by have := length_dropNewlines_le ts; omega⟩

/-! ## Expressions and statements -/

mutual

/-- Reads an operand and the chain of operators after it. -/
def expression (ts : List Token) : Except ReadError (Expr × Fewer ts) := do
  let (first, ⟨us, h⟩) ← operand ts
  let (ls, ⟨vs, h'⟩) ← links us
  return (assemble first ls, ⟨vs, by omega⟩)
termination_by 6 * ts.length + 1
decreasing_by all_goals omega

/-- Reads the rest of a chain: operators, each with its right operand. -/
def links (ts : List Token) : Except ReadError (List Link × NoMore ts) :=
  match ts with
  | ⟨.operator op, offset⟩ :: us => do
    let (e, ⟨vs, h⟩) ← operand us
    let (ls, ⟨ws, h'⟩) ← links vs
    return (⟨op, offset, e⟩ :: ls, ⟨ws, by simp only [List.length_cons]; omega⟩)
  | us => return ([], ⟨us, Nat.le_refl _⟩)
termination_by 6 * ts.length
decreasing_by all_goals simp only [List.length_cons]; omega

/-- Reads an operand: anything that is no chain. -/
def operand (ts : List Token) : Except ReadError (Expr × Fewer ts) :=
  match ts with
  | [] => .error ranDry
  | ⟨.number digits, offset⟩ :: us => do
    let e ← numeral 10 digits offset
    return (e, ⟨us, by simp⟩)
  | ⟨.based base digits, offset⟩ :: us => do
    let e ← numeral base digits offset
    return (e, ⟨us, by simp⟩)
  | ⟨.text quoted, offset⟩ :: us => return (.text quoted offset, ⟨us, by simp⟩)
  | ⟨.mark .openParen, _⟩ :: us => do
    let (e, ⟨vs, h⟩) ← expression us
    let ⟨ws, h'⟩ ← mark .closeParen (.mark .closeParen) vs
    return (e, ⟨ws, Nat.lt_succ_of_lt (Nat.lt_trans h' h)⟩)
  | ⟨.name s, offset⟩ :: ⟨.mark .openParen, _⟩ :: us => do
    let (args, ⟨vs, h⟩) ← arguments us
    return (.call s args offset, ⟨vs, Nat.lt_succ_of_lt (Nat.lt_succ_of_lt h)⟩)
  | ⟨.name s, _⟩ :: us => return (.var s, ⟨us, by simp⟩)
  | ⟨.keyword .retWord, offset⟩ :: us => do
    let (e, ⟨vs, h⟩) ← expression us
    return (.ret e offset, ⟨vs, Nat.lt_succ_of_lt h⟩)
  | ⟨.keyword .ifWord, _⟩ :: us => do
    let (e, ⟨vs, h⟩) ← branch us
    return (e, ⟨vs, Nat.lt_succ_of_lt h⟩)
  | ⟨.keyword .whileWord, _⟩ :: us => do
    let (l, ⟨vs, h⟩) ← label us
    let (c, ⟨ws, h'⟩) ← condition .whileWord vs
    let (body, ⟨xs, h''⟩) ← block ws
    return (.whileLoop l c body,
      ⟨xs, Nat.lt_succ_of_lt (Nat.lt_trans h'' (Nat.lt_of_lt_of_le h' h))⟩)
  | ⟨.keyword .loopWord, _⟩ :: us => do
    let (l, ⟨vs, h⟩) ← label us
    let (body, ⟨ws, h'⟩) ← block vs
    return (.loop l body, ⟨ws, Nat.lt_succ_of_lt (Nat.lt_of_lt_of_le h' h)⟩)
  | ⟨.keyword .breakWord, _⟩ :: us => do
    let (l, ⟨vs, h⟩) ← label us
    return (.breakTo l, ⟨vs, Nat.lt_succ_of_le h⟩)
  | ⟨.keyword .continueWord, _⟩ :: us => do
    let (l, ⟨vs, h⟩) ← label us
    return (.continueTo l, ⟨vs, Nat.lt_succ_of_le h⟩)
  | t :: _ => .error (unexpected t .expression)
termination_by 6 * ts.length
decreasing_by all_goals simp only [List.length_cons]; omega

/-- Reads the arguments of a call, after the opening parenthesis. -/
def arguments (ts : List Token) : Except ReadError (List Expr × Fewer ts) := do
  let (args, ⟨us, h⟩) ← argumentsAt (dropNewlines ts)
  return (args, ⟨us, by have := length_dropNewlines_le ts; omega⟩)
termination_by 6 * ts.length + 4
decreasing_by have := length_dropNewlines_le ts; omega

/-- Reads a list of arguments with no line ends in front. -/
def argumentsAt (ts : List Token) : Except ReadError (List Expr × Fewer ts) :=
  match ts with
  | ⟨.mark .closeParen, _⟩ :: us => return ([], ⟨us, by simp⟩)
  | us => argumentItems us
termination_by 6 * ts.length + 3
decreasing_by omega

/-- Reads the arguments from the first one on, up to the closing parenthesis. -/
def argumentItems (ts : List Token) : Except ReadError (List Expr × Fewer ts) := do
  let (first, ⟨us, h⟩) ← expression ts
  let (more, ⟨vs, h'⟩) ← listNext us
  if more then
    let (others, ⟨ws, h''⟩) ← argumentItems vs
    return (first :: others, ⟨ws, by omega⟩)
  else return ([first], ⟨vs, by omega⟩)
termination_by 6 * ts.length + 2
decreasing_by all_goals omega

/-- Reads a condition in parentheses, after the construct's keyword and label. -/
def condition (k : Keyword) (ts : List Token) : Except ReadError (Expr × Fewer ts) := do
  let ⟨us, h⟩ ← mark .openParen (.conditionStart k) ts
  let (e, ⟨vs, h'⟩) ← expression us
  let ⟨ws, h''⟩ ← mark .closeParen .conditionEnd vs
  return (e, ⟨ws, by omega⟩)
termination_by 6 * ts.length
decreasing_by omega

/-- Reads a conditional, after its keyword. -/
def branch (ts : List Token) : Except ReadError (Expr × Fewer ts) := do
  let (l, ⟨us, h⟩) ← label ts
  let (c, ⟨vs, h'⟩) ← condition .ifWord us
  let (thenBody, ⟨ws, h''⟩) ← block vs
  let (elseBody, ⟨xs, h'''⟩) ← otherwise ws
  return (.branch l c thenBody elseBody, ⟨xs, by omega⟩)
termination_by 6 * ts.length + 1
decreasing_by all_goals omega

/-- Reads the other branch of a conditional, if an `else` follows, line ends apart. -/
def otherwise (ts : List Token) : Except ReadError (Option (List Expr) × NoMore ts) :=
  match elseNext ts with
  | none => return (none, ⟨ts, Nat.le_refl _⟩)
  | some ⟨us, h⟩ => do
    let (body, ⟨vs, h'⟩) ← alternative us
    return (some body, ⟨vs, by omega⟩)
termination_by 6 * ts.length
decreasing_by omega

/-- Reads what follows an `else`: another conditional or a block. -/
def alternative (ts : List Token) : Except ReadError (List Expr × Fewer ts) :=
  match ts with
  | ⟨.keyword .ifWord, _⟩ :: us => do
    let (e, ⟨vs, h⟩) ← branch us
    return ([e], ⟨vs, by simp only [List.length_cons]; omega⟩)
  | us => block us
termination_by 6 * ts.length + 1
decreasing_by
  · simp only [List.length_cons]; omega
  · omega

/-- Reads a block in braces. -/
def block (ts : List Token) : Except ReadError (List Expr × Fewer ts) := do
  let ⟨us, h⟩ ← mark .openBrace (.mark .openBrace) ts
  let (body, ⟨vs, h'⟩) ← statements us
  return (body, ⟨vs, by omega⟩)
termination_by 6 * ts.length
decreasing_by omega

/-- Reads statements up to the closing brace. -/
def statements (ts : List Token) : Except ReadError (List Expr × Fewer ts) := do
  let (body, ⟨us, h⟩) ← statementsAt (dropSeparators ts)
  return (body, ⟨us, by have := length_dropSeparators_le ts; omega⟩)
termination_by 6 * ts.length + 5
decreasing_by have := length_dropSeparators_le ts; omega

/-- Reads statements up to the closing brace, with no separators in front. -/
def statementsAt (ts : List Token) : Except ReadError (List Expr × Fewer ts) :=
  match ts with
  | [] => .error ranDry
  | ⟨.mark .closeBrace, _⟩ :: us => return ([], ⟨us, by simp⟩)
  | ⟨.stop, offset⟩ :: _ => .error (unexpected ⟨.stop, offset⟩ (.mark .closeBrace))
  | t :: us => do
    let (e, ⟨vs, h⟩) ← statement (t :: us)
    let (others, ⟨ws, h'⟩) ← statements vs
    return (e :: others, ⟨ws, by omega⟩)
termination_by 6 * ts.length + 4
decreasing_by all_goals omega

/-- Reads a statement and its end. -/
def statement (ts : List Token) : Except ReadError (Expr × Fewer ts) := do
  let (e, ⟨us, h⟩) ← unterminated ts
  let ⟨vs, h'⟩ ← terminator us
  return (e, ⟨vs, by omega⟩)
termination_by 6 * ts.length + 3
decreasing_by omega

/-- Reads a declaration, an assignment or an expression. -/
def unterminated (ts : List Token) : Except ReadError (Expr × Fewer ts) :=
  match ts with
  | ⟨.keyword .fnWord, _⟩ :: us => do
    let (e, ⟨vs, h⟩) ← function us
    return (e, ⟨vs, by simp only [List.length_cons]; omega⟩)
  | ⟨.name s, _⟩ :: ⟨.mark .assign, _⟩ :: us => do
    let (e, ⟨vs, h⟩) ← expression us
    return (.assign s e, ⟨vs, by simp only [List.length_cons]; omega⟩)
  | us => expression us
termination_by 6 * ts.length + 2
decreasing_by
  · simp only [List.length_cons]; omega
  · simp only [List.length_cons]; omega
  · omega

/-- Reads a function declaration, after its keyword. -/
def function (ts : List Token) : Except ReadError (Expr × Fewer ts) := do
  let (s, ⟨us, h⟩) ← name .functionName ts
  let ⟨vs, h'⟩ ← mark .openParen .parametersStart us
  let (ps, ⟨ws, h''⟩) ← params vs
  let (tag, ⟨xs, h'''⟩) := returnTag ws
  let (body, ⟨ys, h''''⟩) ← block xs
  return (.function s ps tag body, ⟨ys, by omega⟩)
termination_by 6 * ts.length
decreasing_by omega

end

mutual

/-- Reads a program: statements up to the end of the source. -/
def program (ts : List Token) : Except ReadError Program := programAt (dropSeparators ts)
termination_by 6 * ts.length + 1
decreasing_by have := length_dropSeparators_le ts; omega

/-- Reads a program with no separators in front. -/
def programAt (ts : List Token) : Except ReadError Program :=
  match ts with
  | [] => return []
  | ⟨.stop, _⟩ :: _ => return []
  | t :: us => do
    let (e, ⟨vs, _h⟩) ← statement (t :: us)
    let others ← program vs
    return e :: others
termination_by 6 * ts.length
decreasing_by omega

end

end Radix.Read
