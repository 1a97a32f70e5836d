import ExprLang.Text.Bytes

/-!
# Reading UTF-8

`Utf8.chunks s` splits a byte string into characters and stray bytes. Decoding is strict: no overlong forms, no
surrogates, nothing above U+10FFFF. A byte that starts no valid encoding is a stray of its own, and reading goes on at
the byte after it.
-/

namespace ExprLang

namespace Utf8

/-- One step of reading: a character, or a byte that belongs to none. -/
inductive Chunk where
  | char (c : Char)
  | stray (b : UInt8)
  deriving DecidableEq, Repr

/-- The chunk that starts at the byte `b`, and how many bytes of `rest` belong to it. -/
def first (b : UInt8) (rest : Bytes) : Chunk × Nat :=
  match (b :: rest.take 3).toByteArray.utf8DecodeChar? 0 with
  | some c => (.char c, c.utf8Size - 1)
  | none => (.stray b, 0)

/-- Reads on after skipping `skip` bytes, which belong to a character already read. -/
def chunksFrom : (skip : Nat) → Bytes → List Chunk
  | _, [] => []
  | skip + 1, _ :: rest => chunksFrom skip rest
  | 0, b :: rest =>
    match first b rest with
    | (chunk, more) => chunk :: chunksFrom more rest

/-- The characters and stray bytes of a byte string, in order. -/
def chunks (s : Bytes) : List Chunk := chunksFrom 0 s

/-- The character that stands for a stray byte. -/
def replacement : Char := '\uFFFD'

namespace Chunk

/-- The character of a chunk, `Utf8.replacement` for a stray byte. -/
def toChar : Chunk → Char
  | .char c => c
  | .stray _ => replacement

/-- Whether the chunk is a character. -/
def isChar : Chunk → Bool
  | .char _ => true
  | .stray _ => false

end Chunk

/-- Whether the byte string is valid UTF-8. -/
def isValid (s : Bytes) : Bool := (chunks s).all Chunk.isChar

end Utf8

end ExprLang
