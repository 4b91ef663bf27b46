/-!
# Texts, byte offsets and spans

Documents are lists of characters.  Every position is a byte offset into the
UTF-8 encoding of the document, and a position that falls inside a character is
no boundary.  This module measures texts in bytes, cuts them at an offset and
reads the part a span covers.

`takeBytes_append_dropBytes` says that a cut loses nothing, and `slice_append`
that the span of the middle part of a text covers exactly that part.
-/

namespace LatexTabular

/-- A text, as the list of its characters. -/
abbrev Text := List Char

/-- The half-open range of bytes from `start` up to, not including, `stop`. -/
structure Span where
  start : Nat
  stop : Nat
  deriving DecidableEq, Repr, Inhabited

namespace Span

/-- The empty span at an offset. -/
def point (offset : Nat) : Span := ⟨offset, offset⟩

/-- The number of bytes covered; a reversed span covers none. -/
def length (span : Span) : Nat := span.stop - span.start

def isEmpty (span : Span) : Bool := span.stop ≤ span.start

/-- Whether `inner` lies within `outer`, which may share its ends. -/
def contains (outer inner : Span) : Bool :=
  outer.start ≤ inner.start && inner.stop ≤ outer.stop

/-- Whether an offset is one of the covered bytes. -/
def covers (span : Span) (offset : Nat) : Bool :=
  span.start ≤ offset && offset < span.stop

end Span

namespace Text

/-- The length of a text in UTF-8 bytes. -/
def size : Text → Nat
  | [] => 0
  | head :: rest => head.utf8Size + size rest

@[simp] theorem size_nil : size [] = 0 := rfl

@[simp] theorem size_cons (head : Char) (rest : Text) :
    size (head :: rest) = head.utf8Size + size rest := rfl

@[simp] theorem size_append (left right : Text) :
    size (left ++ right) = size left + size right := by
  induction left with
  | nil => simp
  | cons head rest ih => simp [ih, Nat.add_assoc]

/-- The characters that lie wholly within the first `offset` bytes. -/
def takeBytes : Text → Nat → Text
  | [], _ => []
  | head :: rest, offset =>
      if head.utf8Size ≤ offset then
        head :: takeBytes rest (offset - head.utf8Size)
      else []

/-- The characters that `takeBytes` leaves over. -/
def dropBytes : Text → Nat → Text
  | [], _ => []
  | head :: rest, offset =>
      if head.utf8Size ≤ offset then dropBytes rest (offset - head.utf8Size)
      else head :: rest

/-- Cutting a text at any offset loses nothing. -/
theorem takeBytes_append_dropBytes (text : Text) (offset : Nat) :
    takeBytes text offset ++ dropBytes text offset = text := by
  induction text generalizing offset with
  | nil => rfl
  | cons head rest ih =>
      simp only [takeBytes, dropBytes]
      split
      · simp [ih]
      · rfl

theorem size_takeBytes_le (text : Text) (offset : Nat) :
    size (takeBytes text offset) ≤ offset := by
  induction text generalizing offset with
  | nil => simp [takeBytes]
  | cons head rest ih =>
      simp only [takeBytes]
      split
      · have := ih (offset - head.utf8Size)
        simp only [size_cons]
        omega
      · simp

/-- The byte length of a part is where the cut after it falls. -/
theorem takeBytes_size_append (left right : Text) :
    takeBytes (left ++ right) (size left) = left := by
  induction left with
  | nil =>
      cases right with
      | nil => rfl
      | cons head rest => simp [takeBytes, Nat.not_le.mpr head.utf8Size_pos]
  | cons head rest ih => simp [takeBytes, ih]

theorem dropBytes_size_append (left right : Text) :
    dropBytes (left ++ right) (size left) = right := by
  have cut := takeBytes_append_dropBytes (left ++ right) (size left)
  rw [takeBytes_size_append] at cut
  exact List.append_cancel_left cut

/-- Whether an offset lies between two characters or at an end of the text. -/
def isBoundary (text : Text) (offset : Nat) : Bool :=
  size (takeBytes text offset) == offset

/-- The text a span covers.  A span that is reversed, leaves the text or splits
a character covers nothing. -/
def slice (text : Text) (span : Span) : Text :=
  if span.start ≤ span.stop && isBoundary text span.start
      && isBoundary text span.stop then
    takeBytes (dropBytes text span.start) span.length
  else []

/-- The span of the middle part of a text covers exactly that part. -/
theorem slice_append (before middle after : Text) :
    slice (before ++ middle ++ after)
      ⟨size before, size before + size middle⟩ = middle := by
  have atStart : isBoundary (before ++ middle ++ after) (size before) = true := by
    simp [isBoundary, List.append_assoc, takeBytes_size_append]
  have atStop : isBoundary (before ++ middle ++ after)
      (size before + size middle) = true := by
    rw [← size_append, isBoundary, takeBytes_size_append]
    simp
  have covered : takeBytes (dropBytes (before ++ middle ++ after) (size before))
      (size middle) = middle := by
    rw [List.append_assoc, dropBytes_size_append, takeBytes_size_append]
  simp only [slice, atStart, atStop, Nat.le_add_right, decide_true,
    Bool.and_true, if_true, Span.length, Nat.add_sub_cancel_left, covered]

/-- What follows `lead` in a text that begins with it. -/
def after? (lead text : Text) : Option Text :=
  if lead.isPrefixOf text then some (text.drop lead.length) else none

/-- A text written `count` times in a row. -/
def repeated (count : Nat) (text : Text) : Text :=
  (List.replicate count text).flatten

end Text

end LatexTabular
