/-!
# Byte strings

Sources, diagnostics and output are byte strings: a source may hold any bytes, and what it quotes is written back
unchanged.

* `Bytes`, `utf8 s` — byte strings and the UTF-8 bytes of a text;
* `Bytes.ofNat`, `Bytes.ofInt` — numerals in base ten;
* `Bytes.padRight`, `Bytes.dropTrailing` — columns and line ends;
* `Bytes.lines` — the lines that a line feed ends, and what follows the last of them.
-/

namespace ExprLang

/-- A string of bytes, not necessarily valid UTF-8. -/
abbrev Bytes := List UInt8

/-- The UTF-8 bytes of a text. -/
def utf8 (s : String) : Bytes := s.toList.flatMap String.utf8EncodeChar

namespace Bytes

/-! ## Single bytes -/

/-- The byte that ends a line. -/
def lineFeed : UInt8 := 10

/-- The decimal digits `0` to `9`. -/
def isDigit (b : UInt8) : Bool := 48 ≤ b && b ≤ 57

/-- The bytes that start a word: ASCII letters and the underscore. -/
def isLetter (b : UInt8) : Bool := (97 ≤ b && b ≤ 122) || (65 ≤ b && b ≤ 90) || b == 95

/-- The bytes that continue a word. -/
def isWordByte (b : UInt8) : Bool := isLetter b || isDigit b

/-! ## Numerals -/

/-- The numeral of `n` in base ten, without leading zeros. -/
def ofNat (n : Nat) : Bytes := (Nat.toDigits 10 n).map fun c => c.toNat.toUInt8

/-- The numeral of `n` in base ten, with a minus sign if `n` is negative. -/
def ofInt : Int → Bytes
  | .ofNat n => ofNat n
  | .negSucc n => 45 :: ofNat (n + 1)

/-! ## Columns and line ends -/

/-- Pads `s` on the right with spaces, up to `width` bytes. -/
def padRight (width : Nat) (s : Bytes) : Bytes := s ++ List.replicate (width - s.length) 32

/-- Removes the longest run of bytes satisfying `p` from the end. -/
def dropTrailing (p : UInt8 → Bool) (s : Bytes) : Bytes := (s.reverse.dropWhile p).reverse

/-- Joins the pieces, with `sep` between neighbours. -/
abbrev joinWith (sep : Bytes) (pieces : List Bytes) : Bytes := sep.intercalate pieces

/-- Splits at line feeds: the lines that one ends, without it, and the piece after the last one. -/
def lines : Bytes → List Bytes × Bytes
  | [] => ([], [])
  | b :: rest =>
    match lines rest with
    | (ls, last) =>
      if b = lineFeed then ([] :: ls, last)
      else
        match ls with
        | [] => ([], b :: last)
        | l :: ls => ((b :: l) :: ls, last)

/-- Nothing is lost in splitting. -/
theorem join_lines (s : Bytes) : (lines s).1.flatMap (· ++ [lineFeed]) ++ (lines s).2 = s := by
  induction s with
  | nil => rfl
  | cons b rest ih =>
    simp only [lines]
    split
    · rename_i h
      simpa [h] using ih
    · split <;> simp_all

/-- No piece holds a line feed. -/
theorem lineFeed_notMem_lines (s : Bytes) : (∀ l ∈ (lines s).1, lineFeed ∉ l) ∧ lineFeed ∉ (lines s).2 := by
  induction s with
  | nil => simp [lines]
  | cons b rest ih =>
    simp only [lines]
    split
    · simpa using ih
    · rename_i h
      have hb : lineFeed ≠ b := fun e => h e.symm
      split <;> simp_all

end Bytes

end ExprLang
