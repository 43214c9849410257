/-
  Backspaces in a line.

  A backspace takes back the cluster before it that is not taken back yet, if
  there is one. Clusters are those of the line as it was entered.

  * `eraseChars` is what is left of a line, `erase` for strings;
  * `eraseChars_of_not_mem`: a line without backspaces is left alone.
-/
import Reckon.Text.Cluster

namespace Reckon.Text

/-- The character that takes back. -/
def backspace : Char := '\x08'

/-- The number of bytes of a text in UTF-8. -/
def byteCount (cs : List Char) : Nat := (String.ofList cs).utf8ByteSize

/-- What is kept of a line. -/
structure Kept where
  /-- The characters, last one first. -/
  chars : List Char := []
  /-- The sizes of the clusters that can be taken back, last one first. -/
  sizes : List Nat := []

namespace Kept

/-- Sizes are kept in one byte: of a greater cluster only the bytes beyond a
    multiple of this bound are taken back. -/
def sizeBound : Nat := 256

/-- A text without its first characters, as many as make up so many bytes. -/
def dropBytes (n : Nat) : List Char → List Char
  | [] => []
  | c :: cs => if n = 0 then c :: cs else dropBytes (n - c.utf8Size) cs

/-- Takes the last cluster back. -/
def takeBack (k : Kept) : Kept :=
  match k.sizes with
  | [] => k
  | n :: sizes => ⟨dropBytes n k.chars, sizes⟩

/-- Adds a cluster, or takes one back if it is a backspace. -/
def add (k : Kept) (cluster : List Char) : Kept :=
  if cluster = [backspace] then k.takeBack
  else ⟨cluster.reverse ++ k.chars, byteCount cluster % sizeBound :: k.sizes⟩

theorem chars_foldl_add (k : Kept) {cs : List (List Char)} (h : ∀ c ∈ cs, c ≠ [backspace]) :
    (cs.foldl add k).chars = cs.flatten.reverse ++ k.chars := by
  induction cs generalizing k with
  | nil => rfl
  | cons c cs ih =>
    have hc : add k c = ⟨c.reverse ++ k.chars, byteCount c % sizeBound :: k.sizes⟩ :=
      if_neg (h c List.mem_cons_self)
    rw [List.foldl_cons, hc, ih _ fun d hd => h d (List.mem_cons_of_mem _ hd)]
    simp

end Kept

/-- What the backspaces of a line leave of it. -/
def eraseChars (line : List Char) : List Char :=
  ((clusters line).foldl Kept.add {}).chars.reverse

/-- **A line without backspaces is left alone.** -/
theorem eraseChars_of_not_mem {line : List Char} (h : backspace ∉ line) :
    eraseChars line = line := by
  have hc : ∀ c ∈ clusters line, c ≠ [backspace] := by
    rintro c hc rfl
    apply h
    rw [← flatten_clusters line]
    exact List.mem_flatten.2 ⟨_, hc, List.mem_singleton_self _⟩
  rw [eraseChars, Kept.chars_foldl_add _ hc]
  simp [flatten_clusters]

/-- What the backspaces of a line leave of it, for a string. -/
def erase (line : String) : String := String.ofList (eraseChars line.toList)

end Reckon.Text
