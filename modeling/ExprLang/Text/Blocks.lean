import ExprLang.Text.Bytes

/-!
# Rows written in blocks

Rows of text are collected and written in blocks of a fixed size, the last of which may be shorter. A row that does not
fit into what is left of a block is broken there. What is still left of a row at the start of a block, if it is longer
than a block, is written at once and as a whole.

`Blocks.ofRows size rows` are the blocks.
-/

namespace ExprLang.Blocks

/-- The lengths of the blocks for rows of the given lengths, where `held` bytes stand in the first block already. -/
def lengths (size : Nat) : (held : Nat) → List Nat → List Nat
  | held, [] => if held = 0 then [] else [held]
  | held, n :: rest =>
    if held + n ≤ size then lengths size (held + n) rest
    else if held = 0 then n :: lengths size 0 rest
    else
      let left := held + n - size
      if left ≤ size then size :: lengths size left rest else size :: left :: lengths size 0 rest

/-- Cuts a text into pieces of the given lengths. -/
def cut : List Nat → Bytes → List Bytes
  | [], _ => []
  | n :: rest, s => s.take n :: cut rest (s.drop n)

/-- The blocks in which rows are written. -/
def ofRows (size : Nat) (rows : List Bytes) : List Bytes := cut (lengths size 0 (rows.map List.length)) rows.flatten

end ExprLang.Blocks
