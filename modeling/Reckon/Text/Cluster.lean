/-
  Clusters: what a reader takes for one character.

  A letter with its accents, a syllable, a flag and a family of pictographs are
  one cluster each, however many characters they are written with. These are the
  extended grapheme clusters of Unicode.

  * `Cluster.Class` is what a character does to the clusters around it;
  * `Cluster.Trail` is what of the text before a place still matters there, and
    `Cluster.isBoundary` says whether a cluster ends there;
  * `clusters` cuts a text, and `flatten_clusters`: nothing is lost.
-/
import Reckon.Text.ClusterTable
import Reckon.Text.Range

namespace Reckon.Text

namespace Cluster

/-- What a character does to the clusters around it. -/
inductive Class where
  | carriageReturn
  | lineFeed
  | control
  /-- A mark on what stands before it. -/
  | extender
  /-- A mark that joins consonants. -/
  | linker
  /-- The mark that keeps consonants apart. -/
  | nonJoiner
  /-- The mark that joins pictographs. -/
  | joiner
  | spacingMark
  | prefixed
  | regional
  | leading
  | vowel
  | trailing
  /-- A syllable of a leading consonant and a vowel. -/
  | openSyllable
  /-- A syllable that a trailing consonant closes. -/
  | closedSyllable
  | pictograph
  | consonant
  | other
deriving DecidableEq, Repr

namespace Class

/-- The classes that are listed by ranges. -/
def table : List (Class × List (Nat × Nat)) :=
  [(carriageReturn, [(0x0D, 0x0D)]), (lineFeed, [(0x0A, 0x0A)]), (control, controls),
   (nonJoiner, [(0x200C, 0x200C)]), (joiner, [(0x200D, 0x200D)]), (linker, linkers),
   (extender, extenders), (spacingMark, spacingMarks), (prefixed, prefixes),
   (regional, regionals), (leading, leadings), (vowel, vowels), (trailing, trailings),
   (pictograph, pictographs), (consonant, consonants)]

/-- The class of a syllable of Hangul: every twenty-eighth one is open. -/
def ofSyllable (n : Nat) : Class := if n % 28 = 0 then openSyllable else closedSyllable

/-- The class of a character. -/
def ofChar (c : Char) : Class :=
  let n := c.toNat
  if 0xAC00 ≤ n ∧ n ≤ 0xD7A3 then ofSyllable (n - 0xAC00)
  else match table.find? (inRanges ·.2 n) with
    | some (k, _) => k
    | none => other

/-- Whether a character stands for itself always. -/
def isControl : Class → Bool
  | carriageReturn | lineFeed | control => true
  | _ => false

/-- Whether a character belongs to the cluster before it. -/
def isMark : Class → Bool
  | extender | linker | nonJoiner | joiner | spacingMark => true
  | _ => false

end Class

/-- What of the text before a place still matters there. -/
inductive Trail where
  | plain
  /-- A pictograph with its marks. -/
  | pictograph
  /-- A pictograph with its marks and a joiner. -/
  | joined
  /-- An odd number of regional letters. -/
  | regional
  /-- A consonant with its marks. -/
  | consonant
  /-- A consonant with its marks and a linker among them. -/
  | linked
deriving DecidableEq, Repr

/-- The trail behind one more character. -/
def Trail.next : Trail → Class → Trail
  | _, .pictograph => pictograph
  | _, .consonant => consonant
  | regional, .regional => plain
  | _, .regional => regional
  | pictograph, .extender | pictograph, .linker | pictograph, .nonJoiner => pictograph
  | pictograph, .joiner => joined
  | consonant, .extender | consonant, .joiner => consonant
  | consonant, .linker => linked
  | linked, .extender | linked, .joiner | linked, .linker => linked
  | _, _ => plain

/-- Whether a cluster ends between two characters. -/
def isBoundary (trail : Trail) (before behind : Class) : Bool :=
  if before = .carriageReturn ∧ behind = .lineFeed then false
  else if before.isControl || behind.isControl then true
  else if behind.isMark || before = .prefixed then false
  else match before, behind with
    | .leading, .leading | .leading, .vowel | .leading, .openSyllable
    | .leading, .closedSyllable => false
    | .openSyllable, .vowel | .openSyllable, .trailing | .vowel, .vowel | .vowel, .trailing => false
    | .closedSyllable, .trailing | .trailing, .trailing => false
    | _, .pictograph => trail ≠ .joined
    | _, .consonant => trail ≠ .linked
    | _, .regional => trail ≠ .regional
    | _, _ => true

/-- The rest of the cluster that ends with a character of the class `before`, and
    the clusters behind it. -/
def split (trail : Trail) (before : Class) : List Char → List Char × List (List Char)
  | [] => ([], [])
  | c :: cs =>
    let k := Class.ofChar c
    let (rest, more) := split (trail.next k) k cs
    if isBoundary trail before k then ([], (c :: rest) :: more) else (c :: rest, more)

theorem split_append_flatten (trail : Trail) (before : Class) (cs : List Char) :
    (split trail before cs).1 ++ (split trail before cs).2.flatten = cs := by
  induction cs generalizing trail before with
  | nil => rfl
  | cons c cs ih =>
    have h := ih (trail.next (Class.ofChar c)) (Class.ofChar c)
    rw [split]
    dsimp only
    split <;> simp [h]

end Cluster

open Cluster in
/-- The clusters of a text. -/
def clusters : List Char → List (List Char)
  | [] => []
  | c :: cs =>
    let k := Class.ofChar c
    let (rest, more) := split (Trail.plain.next k) k cs
    (c :: rest) :: more

/-- **The clusters put together are the text.** -/
theorem flatten_clusters (cs : List Char) : (clusters cs).flatten = cs := by
  cases cs with
  | nil => rfl
  | cons c cs => simp [clusters, Cluster.split_append_flatten]

end Reckon.Text
