import ExprLang.Diagnostic
import ExprLang.Tree.Basic

/-!
# From tokens to trees

Expressions are read from left to right with one token of lookahead. What has been read and waits for its right operand
or its closing parenthesis is kept on a stack of frames; an operator first completes the frames that bind at least as
tightly as itself.

* `Precedence` — the four levels of binary operators, from loose to tight; unary operators bind tighter than all of
  them;
* `Frame.complete`, `Frame.unwind` — completing frames with a right operand;
* `Tree.parseWith` — reads one expression and returns the tokens after it;
* `Parser` — a list of tokens with a cursor: `Parser.parse` reads an expression, `Parser.synchronize` skips to the next
  place where a statement may start.
-/

namespace ExprLang

/-! ## Errors -/

/-- What a parser was looking for when it found a token it cannot use. -/
inductive ParseCause where
  | expression
  | closingParen
  deriving DecidableEq, Repr

/-- A parse error and the token it is at. -/
structure ParseError where
  token : Token
  cause : ParseCause
  deriving DecidableEq

namespace ParseCause

/-- The wording of the error. -/
def message : ParseCause → Bytes
  | .expression => utf8 "Expect expression."
  | .closingParen => utf8 "Expect ')' after expression."

end ParseCause

/-! ## Operators -/

/-- The levels of binary operators, from the one that binds least. -/
inductive Precedence where
  | equality
  | comparison
  | term
  | factor
  deriving DecidableEq, Repr

namespace Precedence

/-- How tightly the operators of a level bind. -/
def rank : Precedence → Nat
  | equality => 1
  | comparison => 2
  | term => 3
  | factor => 4

end Precedence

namespace Kind

/-- The level of a binary operator. -/
def precedence? : Kind → Option Precedence
  | bangEqual | equalEqual => some .equality
  | greater | greaterEqual | less | lessEqual => some .comparison
  | minus | plus => some .term
  | slash | star => some .factor
  | _ => none

/-- Whether a token of this kind is a unary operator where an operand is expected. -/
def isUnaryOperator : Kind → Bool
  | bang | minus => true
  | _ => false

/-- Whether a token of this kind starts a statement. -/
def startsStatement : Kind → Bool
  | kwClass | kwFun | kwVar | kwFor | kwIf | kwWhile | kwPrint | kwReturn => true
  | _ => false

end Kind

/-! ## Frames -/

/-- A part of an expression that waits for what follows it. -/
inductive Frame where
  /-- An open parenthesis on the given line. -/
  | paren (line : Int)
  /-- A unary operator before its operand. -/
  | before (op : Token)
  /-- A binary operator of the given level between its left operand and its right one. -/
  | between (level : Precedence) (left : Tree) (op : Token)
  deriving DecidableEq

namespace Frame

/-- Completes the frames on top of the stack that bind at least as tightly as `level`, with `x` as the operand of the
topmost one. -/
def complete (level : Precedence) : List Frame → Tree → List Frame × Tree
  | .before op :: stack, x => complete level stack (.unary op x)
  | .between lv left op :: stack, x =>
    if level.rank ≤ lv.rank then complete level stack (.binary left op x) else (.between lv left op :: stack, x)
  | stack, x => (stack, x)

/-- Completes all frames above the innermost open parenthesis. The line of that parenthesis and the frames below it are
returned, `none` if no parenthesis is open. -/
def unwind : List Frame → Tree → Option (Int × List Frame) × Tree
  | [], x => (none, x)
  | .paren line :: stack, x => (some (line, stack), x)
  | .before op :: stack, x => unwind stack (.unary op x)
  | .between _ left op :: stack, x => unwind stack (.binary left op x)

end Frame

/-! ## Expressions -/

namespace Tree

/-- Reads on in an expression, with the given frames open. `operand` is the operand just read, `none` where one is
expected, and `last` is the token to be found after the list. The result is returned with the tokens that follow the
expression, or with those from the one in error on. -/
def parseWith (last : Token) : List Frame → (operand : Option Tree) → List Token → Except ParseError Tree × List Token
  | _, none, [] => (.error ⟨last, .expression⟩, [])
  | stack, none, t :: rest =>
    if t.kind.isUnaryOperator then parseWith last (.before t :: stack) none rest
    else if t.kind.isLiteral then parseWith last stack (some (.literal t)) rest
    else if t.kind = .leftParen then parseWith last (.paren t.line :: stack) none rest
    else (.error ⟨t, .expression⟩, t :: rest)
  | stack, some x, [] =>
    match Frame.unwind stack x with
    | (none, x) => (.ok x, [])
    | (some _, _) => (.error ⟨last, .closingParen⟩, [])
  | stack, some x, t :: rest =>
    match t.kind.precedence? with
    | some level =>
      match Frame.complete level stack x with
      | (stack, x) => parseWith last (.between level x t :: stack) none rest
    | none =>
      match Frame.unwind stack x with
      | (none, x) => (.ok x, t :: rest)
      | (some (line, stack), x) =>
        if t.kind = .rightParen then parseWith last stack (some (.grouping line x)) rest
        else (.error ⟨t, .closingParen⟩, t :: rest)

end Tree

/-! ## Cursors -/

/-- A list of tokens and how many of them have been consumed. -/
structure Parser where
  tokens : List Token
  cursor : Nat := 0

namespace Parser

/-- The tokens from the cursor on. -/
def rest (p : Parser) : List Token := p.tokens.drop p.cursor

/-- The token found after the list: the end of the source, on the line of the last token. -/
def last (p : Parser) : Token := Token.endOfSource ((p.tokens.getLast?.map (·.line)).getD 1)

/-- Moves the cursor to the point from which `after` is left. -/
def moveTo (p : Parser) (after : List Token) : Parser := { p with cursor := p.cursor + (p.rest.length - after.length) }

/-- Reads an expression at the cursor. The cursor is left after the expression, or at the token in error. -/
def parse (p : Parser) : Except ParseError Tree × Parser :=
  match Tree.parseWith p.last [] none p.rest with
  | (result, after) => (result, p.moveTo after)

/-- The tokens from the next place on, after `previous`, where a statement may start: after a semicolon, at a word that
starts one, or at the end. -/
def skip (previous : Token) : List Token → List Token
  | [] => []
  | t :: rest =>
    if t.kind = .eof ∨ previous.kind = .semicolon ∨ t.kind.startsStatement then t :: rest else skip t rest

/-- Skips at least one token, up to the next place where a statement may start; at the end it does nothing. -/
def synchronize (p : Parser) : Parser :=
  match p.rest with
  | [] => p
  | t :: rest => if t.kind = .eof then p else p.moveTo (skip t rest)

end Parser

namespace Tree

/-- The expression at the start of a list of tokens. What follows it is ignored. -/
def parse (tokens : List Token) : Except ParseError Tree := ({ tokens } : Parser).parse.1

end Tree

end ExprLang
