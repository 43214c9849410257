/-
  Spans: half-open ranges of character offsets into a text.

  * `Span.length` is the number of characters, zero for a range that runs
    backwards;
  * `Span.marker` is the line that points at a span from below: as many spaces
    as its start, then at least one caret.
-/
namespace Reckon

/-- The characters from offset `start` up to, and without, offset `stop`. -/
structure Span where
  start : Nat
  stop : Nat
deriving DecidableEq, Repr

namespace Span

/-- The empty span at an offset. -/
def point (offset : Nat) : Span := ⟨offset, offset⟩

/-- The number of characters in the span; zero if it runs backwards. -/
def length (s : Span) : Nat := s.stop - s.start

/-- Whether the span holds no character. -/
def isEmpty (s : Span) : Bool := s.length == 0

/-- The span moved to the right by `k` characters. -/
def shift (k : Nat) (s : Span) : Span := ⟨s.start + k, s.stop + k⟩

/-- The span in writing, such as `3..4`. -/
def render (s : Span) : String := toString s.start ++ ".." ++ toString s.stop

/-- The line that marks the span when written under its text: an empty span
    still gets one caret. -/
def marker (s : Span) : String :=
  String.ofList (List.replicate s.start ' ' ++ List.replicate (max 1 s.length) '^')

@[simp] theorem length_point (n : Nat) : (point n).length = 0 := by simp [point, length]

@[simp] theorem length_shift (k : Nat) (s : Span) : (s.shift k).length = s.length := by
  simp [shift, length, Nat.add_sub_add_right]

@[simp] theorem shift_zero (s : Span) : s.shift 0 = s := rfl

theorem shift_shift (j k : Nat) (s : Span) : (s.shift j).shift k = s.shift (j + k) := by
  simp [shift, Nat.add_assoc]

end Span

end Reckon
