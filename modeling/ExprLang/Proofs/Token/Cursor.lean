import ExprLang.Proofs.Text.Utf8

/-!
# Places in a source

A source may be read in place: its bytes stay where they are, and a cursor says by offsets how far they have been read.
The cursor is moved in three ways, and only one of them counts the lines:

* `Cursor.advance?`, `Cursor.accept?`, `Cursor.character` — moving over the next byte, over an expected byte, and over
  the rest of a character;
* `Cursor.past c w` — the cursor moved over the bytes `w`, all of whose line feeds are counted;
* `Cursor.eq_past_of_advance?`, `Cursor.eq_past_of_accept?`, `Cursor.character_eq_past` — each way of moving is one over
  bytes that stand there, with their line feeds;
* `Cursor.Sound` — the offsets are in order and within the source, and the line is that of the next byte.
-/

namespace ExprLang

open Bytes (lineFeed)

/-- A place in a source: the offset at which the lexeme being read starts, that of the next byte, and the line. -/
structure Cursor where
  source : Bytes
  start : Nat := 0
  current : Nat := 0
  line : Nat := 1
  deriving DecidableEq

namespace Cursor

/-! ## Looking -/

/-- Whether all bytes have been read. -/
def atEnd (c : Cursor) : Bool := c.source.length ≤ c.current

/-- The next byte, zero at the end. -/
def peek (c : Cursor) : UInt8 := c.source[c.current]?.getD 0

/-- The byte after the next one, zero where there is none. -/
def peekNext (c : Cursor) : UInt8 := c.source[c.current + 1]?.getD 0

/-- The bytes from the offset `i` to the offset `j`, `none` if these are not offsets in that order. -/
def slice? (c : Cursor) (i j : Nat) : Option Bytes :=
  if i ≤ j ∧ j ≤ c.source.length then some ((c.source.take j).drop i) else none

/-! ## Moving -/

/-- Starts a lexeme at the next byte. -/
def mark (c : Cursor) : Cursor := { c with start := c.current }

/-- Moves over the next byte and counts it if it ends a line; `none` if there is no next byte. -/
def advance? (c : Cursor) : Option (UInt8 × Cursor) :=
  match c.source[c.current]? with
  | some b => some (b, { c with current := c.current + 1, line := if b = lineFeed then c.line + 1 else c.line })
  | none => none

/-- Moves over the next byte if it is `b`. -/
def accept? (c : Cursor) (b : UInt8) : Option Cursor :=
  if c.source[c.current]? = some b then some { c with current := c.current + 1 } else none

/-- The character with which the lexeme starts, and the cursor moved over all of its bytes. -/
def character (c : Cursor) : Char × Cursor :=
  match c.source.drop c.start with
  | [] => (Utf8.replacement, c)
  | b :: rest =>
    match Utf8.first b rest with
    | (chunk, more) => (chunk.toChar, { c with current := max c.current (c.start + 1 + more) })

/-! ## What has been read and what has not -/

/-- The bytes not read yet. -/
def unread (c : Cursor) : Bytes := c.source.drop c.current

/-- The bytes of the lexeme read so far. -/
def lexeme (c : Cursor) : Bytes := (c.source.take c.current).drop c.start

/-- The cursor moved over the bytes `w`, with their line feeds counted. -/
def past (c : Cursor) (w : Bytes) : Cursor :=
  { c with current := c.current + w.length, line := c.line + w.count lineFeed }

variable {c d : Cursor} {b : UInt8} {w rest : Bytes}

theorem head?_unread (c : Cursor) : c.unread.head? = c.source[c.current]? := List.head?_drop

theorem atEnd_iff : c.atEnd ↔ c.unread = [] := by simp [atEnd, unread]

theorem atEnd_of_unread (h : c.unread = b :: rest) : c.atEnd = false := by
  refine Bool.eq_false_iff.2 fun hend => ?_
  rw [atEnd_iff.1 hend] at h
  cases h

theorem peek_eq (c : Cursor) : c.peek = c.unread.head?.getD 0 := by rw [peek, head?_unread]

theorem peek_of_unread (h : c.unread = b :: rest) : c.peek = b := by
  rw [peek_eq, h, List.head?_cons, Option.getD_some]

theorem peek_at_end (h : c.unread = []) : c.peek = 0 := by
  rw [peek_eq, h, List.head?_nil, Option.getD_none]

theorem peek_of_mem (h : b ∈ c.unread.head?) : c.peek = b := by
  obtain ⟨rest, hrest⟩ := List.head?_eq_some_iff.1 h
  exact peek_of_unread hrest

theorem exists_unread (h : c.atEnd = false) : ∃ rest, c.unread = c.peek :: rest := by
  cases hu : c.unread with
  | nil =>
    rw [atEnd_iff.2 hu] at h
    cases h
  | cons b rest => exact ⟨rest, by rw [peek_of_unread hu]⟩

/-- Zero is found at the end, but also where a zero byte stands. Anything else is the next byte. -/
theorem exists_unread_of_peek (h : c.peek = b) (hb : b ≠ 0) : ∃ rest, c.unread = b :: rest := by
  cases hend : c.atEnd with
  | false =>
    rw [← h]
    exact exists_unread hend
  | true =>
    rw [peek_at_end (atEnd_iff.1 hend)] at h
    exact absurd h.symm hb

theorem exists_unread_of_class {q : UInt8 → Bool} (hq : q 0 = false) (h : q c.peek) :
    ∃ rest, c.unread = c.peek :: rest := by
  refine exists_unread_of_peek rfl fun hb => ?_
  rw [hb, hq] at h
  cases h

theorem peekNext_eq (h : c.unread = b :: rest) : c.peekNext = rest.head?.getD 0 := by
  have hrest : rest = c.source.drop (c.current + 1) := by
    rw [← List.tail_drop, ← unread, h, List.tail_cons]
  rw [peekNext, hrest, List.head?_drop]

theorem unread_past (h : c.unread = w ++ rest) : (c.past w).unread = rest := by
  rw [unread, past, ← List.drop_drop, ← unread, h, List.drop_left]

/-- **Moving over the next byte** counts it if it is a line feed. -/
theorem eq_past_of_advance? (h : c.advance? = some (b, d)) : c.unread = b :: d.unread ∧ d = c.past [b] := by
  unfold advance? at h
  split at h
  · rename_i b' hb
    cases h
    rw [← head?_unread, List.head?_eq_some_iff] at hb
    obtain ⟨rest, hrest⟩ := hb
    have hd : ({ c with current := c.current + 1, line := if b = lineFeed then c.line + 1 else c.line } : Cursor) =
        c.past [b] := by
      by_cases hf : b = lineFeed <;> simp [past, hf]
    refine ⟨?_, hd⟩
    rw [hd, unread_past (hrest.trans List.singleton_append.symm), hrest]
  · cases h

theorem advance?_of_unread (h : c.unread = b :: rest) : c.advance? = some (b, c.past [b]) := by
  cases hd : c.advance? with
  | none =>
    rw [advance?, ← head?_unread, h] at hd
    cases hd
  | some p =>
    obtain ⟨b', d⟩ := p
    obtain ⟨hun, rfl⟩ := eq_past_of_advance? hd
    obtain ⟨rfl, -⟩ := List.cons.inj (h.symm.trans hun)
    rfl

/-- **Moving over an expected byte** counts nothing, and misses nothing unless a line feed is expected. -/
theorem eq_past_of_accept? (hb : b ≠ lineFeed) (h : c.accept? b = some d) :
    c.unread = b :: d.unread ∧ d = c.past [b] := by
  unfold accept? at h
  split at h
  · rename_i hc
    cases h
    rw [← head?_unread, List.head?_eq_some_iff] at hc
    obtain ⟨rest, hrest⟩ := hc
    have hd : ({ c with current := c.current + 1 } : Cursor) = c.past [b] := by simp [past, hb]
    refine ⟨?_, hd⟩
    rw [hd, unread_past (hrest.trans List.singleton_append.symm), hrest]
  · cases h

theorem ne_of_accept? (h : c.accept? b = none) : ∀ b' ∈ c.unread.head?, b' ≠ b := by
  rintro b' hb' rfl
  have hb : c.source[c.current]? = some b' := (head?_unread c).symm.trans hb'
  rw [accept?, if_pos hb] at h
  cases h

/-- **Moving over the rest of a character** counts nothing, and misses nothing since no line feed stands inside. -/
theorem character_eq_past (hc : c.source.drop c.start = b :: rest) (hcurrent : c.current = c.start + 1) :
    c.character = ((Utf8.first b rest).1.toChar, c.past (rest.take (Utf8.first b rest).2)) := by
  obtain ⟨hlen, hascii⟩ := Utf8.first_extent b rest
  have hcount : (rest.take (Utf8.first b rest).2).count lineFeed = 0 := by
    refine List.count_eq_zero.2 fun hf => hascii _ hf ?_
    decide
  simp only [character, hc, past, hcount, List.length_take, Nat.min_eq_left hlen]
  congr 2
  omega

theorem line_character (c : Cursor) : c.character.2.line = c.line := by
  unfold character
  split <;> rfl

/-! ## Sound cursors -/

/-- The offsets are in order and within the source, and the line is one more than the line feeds that have been read. -/
structure Sound (c : Cursor) : Prop where
  start_le : c.start ≤ c.current
  current_le : c.current ≤ c.source.length
  line_eq : c.line = 1 + (c.source.take c.current).count lineFeed

/-- A cursor at the beginning of a source. -/
theorem sound_start (source : Bytes) : Sound { source } := ⟨Nat.le_refl 0, Nat.zero_le _, rfl⟩

theorem Sound.mark (h : c.Sound) : c.mark.Sound := ⟨Nat.le_refl _, h.current_le, h.line_eq⟩

theorem take_past (h : c.unread = w ++ rest) :
    c.source.take (c.past w).current = c.source.take c.current ++ w := by
  rw [past, List.take_add, ← unread, h, List.take_left]

/-- **Moving over bytes that stand there keeps a cursor sound.** -/
theorem Sound.past (hc : c.Sound) (h : c.unread = w ++ rest) : (c.past w).Sound where
  start_le := Nat.le_add_right_of_le hc.start_le
  current_le := by
    have hlen : c.source.length - c.current = w.length + rest.length := by
      rw [← List.length_drop, ← unread, h, List.length_append]
    have hle := hc.current_le
    show c.current + w.length ≤ c.source.length
    omega
  line_eq := by
    show c.line + w.count lineFeed = 1 + (c.source.take (c.past w).current).count lineFeed
    rw [take_past h, List.count_append, hc.line_eq, Nat.add_assoc]

theorem lexeme_past (hc : c.Sound) (h : c.unread = w ++ rest) : (c.past w).lexeme = c.lexeme ++ w := by
  have hstart : c.start ≤ (c.source.take c.current).length := by
    rw [List.length_take, Nat.min_eq_left hc.current_le]
    exact hc.start_le
  show (c.source.take (c.past w).current).drop c.start = c.lexeme ++ w
  rw [take_past h]
  exact List.drop_append_of_le_length hstart

theorem slice?_lexeme (hc : c.Sound) : c.slice? c.start c.current = some c.lexeme :=
  if_pos ⟨hc.start_le, hc.current_le⟩

theorem lexeme_of_start (h : c.start = c.current) : c.lexeme = [] := by
  rw [lexeme, h]
  exact List.drop_eq_nil_of_le (List.length_take_le _ _)

theorem length_lexeme (hc : c.Sound) : c.lexeme.length = c.current - c.start := by
  rw [lexeme, List.length_drop, List.length_take, Nat.min_eq_left hc.current_le]

/-- The text between the first and the last byte of a lexeme. -/
theorem slice?_inner {a b : UInt8} {body : Bytes} (hc : c.Sound) (h : c.lexeme = a :: (body ++ [b])) :
    c.slice? (c.start + 1) (c.current - 1) = some body := by
  have hlen : body.length + 2 = c.current - c.start := by
    rw [← length_lexeme hc, h, List.length_cons, List.length_append, List.length_singleton]
  have hle := hc.current_le
  have hinner : (c.source.take (c.current - 1)).drop (c.start + 1) = c.lexeme.tail.take body.length := by
    have hmin : min body.length (c.current - (c.start + 1)) = c.current - 1 - (c.start + 1) := by omega
    rw [lexeme, List.tail_drop, List.drop_take, List.drop_take, List.take_take, hmin]
  rw [slice?, if_pos ⟨by omega, by omega⟩, hinner, h, List.tail_cons, List.take_left]

end Cursor

end ExprLang
