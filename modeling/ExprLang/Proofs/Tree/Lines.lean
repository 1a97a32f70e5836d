import ExprLang.Proofs.Token.Layout
import ExprLang.Proofs.Tree.Typing
import ExprLang.Tree.Parser
import ExprLang.Tree.Printer

/-!
# Lines are carried along

Parsing, printing and evaluation never look at a line. If the lines of the tokens are changed by a function `f`, the
lines in the result are changed by `f`, and nothing else is:

* `Tree.parseWith_mapLines`, `Parser.parse_mapLines` — for parsing, also when it fails;
* `Tree.render_mapLines` — for the text form, which has no lines in it;
* `Tree.evaluate_mapLines` — for the value, or the error there is instead;
* `Tree.evaluate_endsAlike` — so trees that differ in their lines only are evaluated with the same end.
-/

namespace ExprLang

/-! ## Trees and errors on other lines -/

namespace Tree

/-- The tree with all its lines changed by `f`. -/
def mapLines (f : Int → Int) : Tree → Tree
  | .missing => .missing
  | .literalAt line t => .literalAt (f line) (t.mapLine f)
  | .grouping line x => .grouping (f line) (x.mapLines f)
  | .unaryAt line op x => .unaryAt (f line) (op.mapLine f) (x.mapLines f)
  | .binaryAt line x op y => .binaryAt (f line) (x.mapLines f) (op.mapLine f) (y.mapLines f)

/-- The tree without its lines. -/
def withoutLines (x : Tree) : Tree := x.mapLines fun _ => 0

end Tree

/-- The frame with all its lines changed by `f`. -/
def Frame.mapLines (f : Int → Int) : Frame → Frame
  | .paren line => .paren (f line)
  | .before op => .before (op.mapLine f)
  | .between level left op => .between level (left.mapLines f) (op.mapLine f)

/-- The error at its token with the line changed by `f`. -/
def ParseError.mapLine (f : Int → Int) (e : ParseError) : ParseError := { e with token := e.token.mapLine f }

/-- The error at its token with the line changed by `f`. -/
def RuntimeError.mapLine (f : Int → Int) (e : RuntimeError) : RuntimeError := { e with token := e.token.mapLine f }

/-- The fault with the line of its token changed by `f`. -/
def Fault.mapLine (f : Int → Int) : Fault → Fault
  | .runtime e => .runtime (e.mapLine f)
  | .missingOperand => .missingOperand

/-- What a parser returns, with all lines changed by `f`. -/
def Tree.mapParsed (f : Int → Int) (r : Except ParseError Tree) : Except ParseError Tree :=
  (r.map (mapLines f)).mapError (ParseError.mapLine f)

variable (f : Int → Int)

@[simp] theorem Token.kind_mapLine (t : Token) : (t.mapLine f).kind = t.kind := rfl

@[simp] theorem Token.lexeme_mapLine (t : Token) : (t.mapLine f).lexeme = t.lexeme := rfl

@[simp] theorem RuntimeError.message_mapLine (e : RuntimeError) : (e.mapLine f).message = e.message := rfl

theorem Tree.mapLines_binary (x : Tree) (op : Token) (y : Tree) :
    (binary x op y).mapLines f = binary (x.mapLines f) (op.mapLine f) (y.mapLines f) := by
  cases x <;> rfl

/-! ## Parsing -/

namespace Frame

theorem complete_mapLines (level : Precedence) (stack : List Frame) (x : Tree) :
    complete level (stack.map (mapLines f)) (x.mapLines f) =
      ((complete level stack x).1.map (mapLines f), (complete level stack x).2.mapLines f) := by
  fun_induction complete level stack x with
  | case1 op stack x ih => exact ih
  | case2 lv left op stack x hlv ih =>
    rw [← ih, List.map_cons, mapLines, complete, if_pos hlv, Tree.mapLines_binary]
  | case3 lv left op stack x hlv => rw [List.map_cons, mapLines, complete, if_neg hlv]
  | case4 stack x hbefore hbetween =>
    match stack with
    | [] => rfl
    | .paren _ :: _ => rfl
    | .before op :: stack => exact (hbefore op stack rfl).elim
    | .between lv left op :: stack => exact (hbetween lv left op stack rfl).elim

theorem unwind_mapLines (stack : List Frame) (x : Tree) :
    unwind (stack.map (mapLines f)) (x.mapLines f) =
      ((unwind stack x).1.map fun open_ => (f open_.1, open_.2.map (mapLines f)), (unwind stack x).2.mapLines f) := by
  fun_induction unwind stack x with
  | case1 => rfl
  | case2 => rfl
  | case3 op stack x ih => exact ih
  | case4 lv left op stack x ih =>
    rw [Tree.mapLines_binary] at ih
    exact ih

end Frame

namespace Tree

/-- **Parsing carries the lines along.** -/
theorem parseWith_mapLines (last : Token) (stack : List Frame) (operand : Option Tree) (ts : List Token) :
    parseWith (last.mapLine f) (stack.map (Frame.mapLines f)) (operand.map (mapLines f)) (ts.map (Token.mapLine f)) =
      (mapParsed f (parseWith last stack operand ts).1, (parseWith last stack operand ts).2.map (Token.mapLine f)) := by
  fun_induction parseWith last stack operand ts with
  | case1 => rfl
  | case2 stack t rest hu ih =>
    rw [← ih]
    simp only [Option.map_none, List.map_cons, parseWith, Token.kind_mapLine, hu, if_true, Frame.mapLines]
  | case3 stack t rest hu hl ih =>
    rw [← ih]
    simp only [Option.map_none, Option.map_some, List.map_cons, parseWith, Token.kind_mapLine, hu, hl, if_true, mapLines]
    rfl
  | case4 stack t rest hu hl hp ih =>
    rw [← ih]
    simp only [Option.map_none, List.map_cons, parseWith, Token.kind_mapLine, hp, if_true, Frame.mapLines]
    rfl
  | case5 stack t rest hu hl hp =>
    simp only [Option.map_none, List.map_cons, parseWith, Token.kind_mapLine, hu, hl, hp, if_false]
    rfl
  | case6 stack x y hy =>
    simp only [Option.map_some, List.map_nil, parseWith, Frame.unwind_mapLines, hy]
    rfl
  | case7 stack x opened y hy =>
    simp only [Option.map_some, List.map_nil, parseWith, Frame.unwind_mapLines, hy]
    rfl
  | case8 stack x t rest level hlevel stack' y hy ih =>
    rw [← ih]
    simp only [Option.map_some, List.map_cons, parseWith, Token.kind_mapLine, hlevel, Frame.complete_mapLines, hy]
    rfl
  | case9 stack x t rest hlevel y hy =>
    simp only [Option.map_some, List.map_cons, parseWith, Token.kind_mapLine, hlevel, Frame.unwind_mapLines, hy]
    rfl
  | case10 stack x t rest hlevel line stack' y hy hp ih =>
    rw [← ih]
    simp only [Option.map_some, List.map_cons, parseWith, Token.kind_mapLine, Frame.unwind_mapLines, hy, hp]
    rfl
  | case11 stack x t rest hlevel line stack' y hy hp =>
    simp only [Option.map_some, List.map_cons, parseWith, Token.kind_mapLine, hlevel, Frame.unwind_mapLines, hy, hp]
    rfl

end Tree

namespace Parser

/-- The parser with the lines of its tokens changed by `f`. -/
def mapLines (p : Parser) : Parser := { p with tokens := p.tokens.map (Token.mapLine f) }

variable {p : Parser}

theorem last_mapLines (h : p.tokens ≠ []) : (p.mapLines f).last = p.last.mapLine f := by
  have hlast : (p.tokens.map (Token.mapLine f)).getLast? = (p.tokens.getLast?).map (Token.mapLine f) :=
    List.getLast?_map
  obtain ⟨t, ht⟩ := Option.isSome_iff_exists.1 (List.getLast?_isSome.2 h)
  simp only [last, mapLines, hlast, ht]
  rfl

theorem parse_mapLines (h : p.tokens ≠ []) :
    (p.mapLines f).parse = (Tree.mapParsed f p.parse.1, p.parse.2.mapLines f) := by
  have hrest : (p.mapLines f).rest = p.rest.map (Token.mapLine f) := List.map_drop.symm
  have hparse := Tree.parseWith_mapLines f p.last [] none p.rest
  simp only [List.map_nil, Option.map_none] at hparse
  rw [parse, parse, last_mapLines f h, hrest, hparse]
  simp only [moveTo, hrest, List.length_map]
  rfl

end Parser

/-- Parsing tokens on other lines gives the same tree on other lines. -/
theorem Tree.parse_mapLines {ts : List Token} (h : ts ≠ []) :
    parse (ts.map (Token.mapLine f)) = mapParsed f (parse ts) :=
  congrArg Prod.fst (Parser.parse_mapLines f (p := { tokens := ts }) h)

/-! ## Printing and evaluation -/

namespace Tree

theorem renderOnto_mapLines (x : Tree) (rest : Bytes) : (x.mapLines f).renderOnto rest = x.renderOnto rest := by
  induction x generalizing rest with
  | missing => rfl
  | literalAt line t => rfl
  | grouping _ x ih => simp only [mapLines, renderOnto, ih]
  | unaryAt line op x ih => simp only [mapLines, renderOnto, ih, Token.lexeme_mapLine]
  | binaryAt line x op y ihx ihy => simp only [mapLines, renderOnto, ihx, ihy, Token.lexeme_mapLine]

theorem render_mapLines (x : Tree) : (x.mapLines f).render = x.render := renderOnto_mapLines f x []

end Tree

namespace Value

theorem ofLiteral_mapLine (t : Token) :
    ofLiteral (t.mapLine f) = (ofLiteral t).mapError (RuntimeError.mapLine f) := by
  unfold ofLiteral
  rw [Token.kind_mapLine]
  cases t.kind <;> rfl

theorem applyUnary_mapLine (op : Token) (v : Value) :
    applyUnary (op.mapLine f) v = (applyUnary op v).mapError (RuntimeError.mapLine f) := by
  unfold applyUnary
  rw [Token.kind_mapLine]
  cases op.kind with
  | minus => cases v <;> rfl
  | _ => rfl

theorem applyBinary_mapLine (x : Value) (op : Token) (y : Value) :
    applyBinary x (op.mapLine f) y = (applyBinary x op y).mapError (RuntimeError.mapLine f) := by
  unfold applyBinary
  simp only [Token.kind_mapLine]
  split <;> rfl

end Value

theorem mapError_runtime_mapLine (r : Except RuntimeError Value) :
    (r.mapError (RuntimeError.mapLine f)).mapError Fault.runtime = (r.mapError Fault.runtime).mapError (Fault.mapLine f) := by
  cases r <;> rfl

namespace Tree

/-- **Evaluation carries the lines along.** -/
theorem evaluate_mapLines (x : Tree) : (x.mapLines f).evaluate = x.evaluate.mapError (Fault.mapLine f) := by
  induction x with
  | missing => rfl
  | literalAt line t => rw [mapLines, evaluate, evaluate, Value.ofLiteral_mapLine, mapError_runtime_mapLine]
  | grouping _ x ih => exact ih
  | unaryAt line op x ih =>
    rw [mapLines, evaluate, evaluate, ih]
    cases x.evaluate with
    | error e => rfl
    | ok v =>
      show (Value.applyUnary (op.mapLine f) v).mapError Fault.runtime = _
      rw [Value.applyUnary_mapLine, mapError_runtime_mapLine]
  | binaryAt line x op y ihx ihy =>
    rw [mapLines, evaluate, evaluate, ihx, ihy]
    cases x.evaluate with
    | error e => rfl
    | ok v =>
      cases y.evaluate with
      | error e => rfl
      | ok w =>
        show (Value.applyBinary v (op.mapLine f) w).mapError Fault.runtime = _
        rw [Value.applyBinary_mapLine, mapError_runtime_mapLine]

end Tree

/-- Two evaluations with the same end: one value, or errors with one message at tokens of one kind and lexeme. -/
inductive EndsAlike : Except Fault Value → Except Fault Value → Prop where
  | value (v : Value) : EndsAlike (.ok v) (.ok v)
  | error {e e' : RuntimeError} (kind : e.token.kind = e'.token.kind) (lexeme : e.token.lexeme = e'.token.lexeme)
      (message : e.message = e'.message) : EndsAlike (.error (.runtime e)) (.error (.runtime e'))

theorem Tree.evaluate_endsAlike {x y : Tree} (hx : x.Complete) (h : x.withoutLines = y.withoutLines) :
    EndsAlike x.evaluate y.evaluate := by
  have heval : x.evaluate.mapError (Fault.mapLine fun _ => 0) = y.evaluate.mapError (Fault.mapLine fun _ => 0) := by
    rw [← evaluate_mapLines, ← evaluate_mapLines]
    exact congrArg evaluate h
  have hagrees := x.evaluate_agrees hx
  generalize x.evaluate = r, x.typeOf hx = p at hagrees heval
  -- a complete tree has a value or a run-time error, and the other tree has the same
  cases hagrees with
  | @value v =>
    cases hy : y.evaluate with
    | ok w =>
      rw [hy] at heval
      cases heval
      exact .value v
    | error fault => rw [hy] at heval; cases heval
  | @complaint e =>
    match hy : y.evaluate with
    | .ok w => rw [hy] at heval; cases heval
    | .error .missingOperand => rw [hy] at heval; cases heval
    | .error (.runtime e') =>
      rw [hy] at heval
      have he : e.mapLine (fun _ => 0) = e'.mapLine fun _ => 0 := Fault.runtime.inj (Except.error.inj heval)
      have hmessage := congrArg RuntimeError.message he
      rw [RuntimeError.message_mapLine, RuntimeError.message_mapLine] at hmessage
      exact .error (congrArg (·.token.kind) he) (congrArg (·.token.lexeme) he) hmessage

end ExprLang
