import Stencil.Text.Blank

/-!
# Cursors

A cursor is a place in a source: what is left to read, and how many bytes of UTF-8 were read
before. Reading counts characters; the places that a diagnostic names count bytes.

## Main definitions

* `Text.byteLength`: the length of a text in bytes of UTF-8.
* `Text.Cursor`: a place in a source.
* `Text.Cursor.advance`: the place some characters further on.

## Main results

* `Text.byteLength_append`: the length of two texts together.
* `Text.Cursor.length_rest_advance`: what is left after a step.
-/

namespace Stencil.Text

/-- The number of bytes that a text takes in UTF-8. -/
def byteLength (cs : List Char) : Nat :=
  cs.foldr (fun c n ↦ c.utf8Size + n) 0

@[simp] theorem byteLength_nil : byteLength [] = 0 := rfl

@[simp] theorem byteLength_cons (c : Char) (cs : List Char) :
    byteLength (c :: cs) = c.utf8Size + byteLength cs := rfl

@[simp] theorem byteLength_append (as bs : List Char) :
    byteLength (as ++ bs) = byteLength as + byteLength bs := by
  induction as with
  | nil => simp
  | cons c as ih => simp [ih, Nat.add_assoc]

/-- A place in a source. -/
structure Cursor where
  /-- The bytes before this place. -/
  offset : Nat
  /-- The text from this place on. -/
  rest : List Char

namespace Cursor

/-- The start of a source. -/
def ofText (cs : List Char) : Cursor :=
  ⟨0, cs⟩

/-- The place `n` characters further on, or the end when fewer are left. -/
def advance (c : Cursor) (n : Nat) : Cursor :=
  ⟨c.offset + byteLength (c.rest.take n), c.rest.drop n⟩

@[simp] theorem offset_advance (c : Cursor) (n : Nat) :
    (c.advance n).offset = c.offset + byteLength (c.rest.take n) := rfl

@[simp] theorem rest_advance (c : Cursor) (n : Nat) : (c.advance n).rest = c.rest.drop n := rfl

theorem length_rest_advance (c : Cursor) (n : Nat) :
    (c.advance n).rest.length = c.rest.length - n := by
  simp

/-- The first place from here on that holds no blank. -/
def skipBlanks (c : Cursor) : Cursor :=
  c.advance (c.rest.takeWhile isBlank).length

theorem length_rest_skipBlanks_le (c : Cursor) :
    c.skipBlanks.rest.length ≤ c.rest.length := by
  simp [skipBlanks]

/-- The place with at least this many more bytes behind it, the first such place. -/
def seek : Nat → Cursor → Cursor
  | 0, c => c
  | _, ⟨offset, []⟩ => ⟨offset, []⟩
  | n + 1, ⟨offset, ch :: rest⟩ => seek (n + 1 - ch.utf8Size) ⟨offset + ch.utf8Size, rest⟩
termination_by _ c => c.rest.length

end Cursor

end Stencil.Text
