/-
  Lexemes: the longest piece of the language at the front of a text.

  A number is digits with at most one point, a word is a letter and the letters,
  digits and underscores behind it, and any other character stands alone. Only
  ASCII letters and digits count as such.

  * `Lexeme.first` is the lexeme at the front of a text without leading blank;
  * `Lexeme.rest_lt`: it takes at least one character.
-/
import Reckon.Token

namespace Reckon

/-- What stands at the front of a text that has no leading blank. -/
inductive Lexeme where
  /-- A piece `text` of the class `kind`, and the text behind it. -/
  | piece (kind : TokenKind) (text rest : List Char)
  /-- A point without digits on either side, and the text behind it. -/
  | lonePoint (rest : List Char)
  /-- A number that runs into a second point: what was read of it, and the text
      from the second point on. -/
  | secondPoint (read rest : List Char)

namespace Lexeme

/-- The text that the lexeme leaves. -/
def rest : Lexeme → List Char
  | piece _ _ rest | lonePoint rest | secondPoint _ rest => rest

/-- The number at the front of a text. -/
def number (cs : List Char) : Lexeme :=
  let whole := cs.takeWhile Char.isDigit
  match cs.dropWhile Char.isDigit with
  | '.' :: behind =>
    let fraction := behind.takeWhile Char.isDigit
    match behind.dropWhile Char.isDigit with
    | '.' :: more => secondPoint (whole ++ '.' :: fraction) ('.' :: more)
    | rest =>
      if whole.isEmpty && fraction.isEmpty then lonePoint rest
      else piece .number (whole ++ '.' :: fraction) rest
  | rest => piece .number whole rest

/-- Whether a character may stand inside a word. -/
def isWordChar (c : Char) : Bool := c.isAlphanum || c == '_'

/-- The word at the front of a text: the name of a function, or none of the
    language. -/
def word (cs : List Char) : Lexeme :=
  let text := cs.takeWhile isWordChar
  let kind := match Function.ofName? (String.ofList text) with
    | some f => .function f
    | none => .invalid
  piece kind text (cs.dropWhile isWordChar)

/-- The class of a character that stands alone. -/
def symbol : Char → TokenKind
  | '+' => .plus
  | '-' => .minus
  | '*' => .star
  | '/' => .slash
  | '^' => .caret
  | '(' => .leftParen
  | ')' => .rightParen
  | _ => .invalid

/-- The lexeme at the front of the text `c :: cs`. -/
def first (c : Char) (cs : List Char) : Lexeme :=
  if c.isDigit || c == '.' then number (c :: cs)
  else if c.isAlpha then word (c :: cs)
  else piece (symbol c) [c] cs

/-! ## A lexeme takes at least one character -/

theorem length_dropWhile_le (p : Char → Bool) (cs : List Char) :
    (cs.dropWhile p).length ≤ cs.length :=
  (List.dropWhile_suffix p).length_le

theorem dropWhile_cons_lt {p : Char → Bool} {c : Char} (h : p c = true) (cs : List Char) :
    ((c :: cs).dropWhile p).length < (c :: cs).length := by
  rw [List.dropWhile_cons_of_pos h]
  exact Nat.lt_succ_of_le (length_dropWhile_le p cs)

theorem number_rest_lt {c : Char} (h : c.isDigit = true ∨ c = '.') (cs : List Char) :
    (number (c :: cs)).rest.length < (c :: cs).length := by
  have hdrop : ∀ behind : List Char, (c :: cs).dropWhile Char.isDigit = '.' :: behind →
      behind.length < (c :: cs).length := fun behind hb => by
    have := length_dropWhile_le Char.isDigit (c :: cs)
    rw [hb] at this
    exact this
  unfold number
  dsimp only
  split
  · next behind hb =>
    have hlt := hdrop behind hb
    have hle := length_dropWhile_le Char.isDigit behind
    split
    · next more hm => rw [hm] at hle; simp only [rest]; omega
    · split <;> (simp only [rest]; omega)
  · next hn =>
    rcases h with h | rfl
    · exact dropWhile_cons_lt h cs
    · exact absurd (List.dropWhile_cons_of_neg (by decide)) (hn cs)

/-- **The first lexeme of a text takes at least one character.** -/
theorem rest_lt (c : Char) (cs : List Char) : (first c cs).rest.length < (c :: cs).length := by
  unfold first
  split
  · next h => exact number_rest_lt (by simpa using h) cs
  · split
    · next h =>
      refine dropWhile_cons_lt (p := isWordChar) ?_ cs
      simp [isWordChar, Char.isAlphanum, h]
    · exact Nat.lt_succ_self _

end Lexeme

end Reckon
