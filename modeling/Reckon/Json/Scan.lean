/-
  Cutting a JSON text into marks.

  * `Json.scan` is the marks of a text, if it can be cut into marks;
  * `Json.scanText` reads a text up to its closing quotation mark, and
    `Json.assemble` makes characters of the code units that its escapes name;
  * `Json.firstMark_rest_le`: every mark takes at least one character.
-/
import Reckon.Json
import Reckon.Json.Numeral

namespace Reckon.Json

/-- White space between marks. -/
def isSpace (c : Char) : Bool := c == ' ' || c == '\t' || c == '\n' || c == '\r'

/-! ## Texts -/

/-- The value of a hexadecimal digit. -/
def hexValue? (c : Char) : Option Nat :=
  if c.isDigit then some (c.toNat - '0'.toNat)
  else if 'a' ≤ c ∧ c ≤ 'f' then some (c.toNat - 'a'.toNat + 10)
  else if 'A' ≤ c ∧ c ≤ 'F' then some (c.toNat - 'A'.toNat + 10)
  else none

/-- The code unit that four hexadecimal digits name. -/
def unit? (a b c d : Char) : Option Nat := do
  let a ← hexValue? a
  let b ← hexValue? b
  let c ← hexValue? c
  let d ← hexValue? d
  return ((a * 16 + b) * 16 + c) * 16 + d

/-- The character that a letter behind a backslash stands for. -/
def unescape? : Char → Option Char
  | '"' => some '"'
  | '\\' => some '\\'
  | '/' => some '/'
  | 'b' => some '\x08'
  | 'f' => some '\x0c'
  | 'n' => some '\n'
  | 'r' => some '\r'
  | 't' => some '\t'
  | _ => none

/-- The code points and code units of a text up to its closing quotation mark,
    and what stands behind that. Control characters must be escaped. -/
def scanText : List Char → Option (List Nat × List Char)
  | [] => none
  | '"' :: rest => some ([], rest)
  | '\\' :: 'u' :: a :: b :: c :: d :: rest => do
    let unit ← unit? a b c d
    let (units, rest) ← scanText rest
    return (unit :: units, rest)
  | '\\' :: c :: rest => do
    let c ← unescape? c
    let (units, rest) ← scanText rest
    return (c.toNat :: units, rest)
  | c :: rest =>
    if c.toNat < 0x20 then none
    else do
      let (units, rest) ← scanText rest
      return (c.toNat :: units, rest)

/-- Whether a code unit is the first half of a surrogate pair. -/
def isHigh (n : Nat) : Bool := 0xD800 ≤ n && n < 0xDC00

/-- Whether a code unit is the second half of a surrogate pair. -/
def isLow (n : Nat) : Bool := 0xDC00 ≤ n && n < 0xE000

/-- The characters of code points and code units, if every half of a surrogate
    pair stands beside its other half. -/
def assemble : List Nat → Option (List Char)
  | [] => some []
  | high :: low :: rest =>
    if isHigh high then
      if isLow low then
        (assemble rest).map (Char.ofNat (0x10000 + (high - 0xD800) * 0x400 + (low - 0xDC00)) :: ·)
      else none
    else if isLow high then none
    else (assemble (low :: rest)).map (Char.ofNat high :: ·)
  | [n] => if isHigh n || isLow n then none else some [Char.ofNat n]

/-! ## Marks -/

/-- The first mark of a text that begins with the character `c`, and what stands
    behind it. -/
def firstMark? (c : Char) (cs : List Char) : Option (Mark × List Char) :=
  match c, cs with
  | '[', cs => some (.openArray, cs)
  | ']', cs => some (.closeArray, cs)
  | '\x7b', cs => some (.openObject, cs)
  | '\x7d', cs => some (.closeObject, cs)
  | ',', cs => some (.comma, cs)
  | ':', cs => some (.colon, cs)
  | 'n', 'u' :: 'l' :: 'l' :: rest => some (.null, rest)
  | 't', 'r' :: 'u' :: 'e' :: rest => some (.bool true, rest)
  | 'f', 'a' :: 'l' :: 's' :: 'e' :: rest => some (.bool false, rest)
  | '"', cs => (scanText cs).map fun (units, rest) => (.string (assemble units), rest)
  | c, cs =>
    let text := c :: cs.takeWhile Numeral.isNumeralChar
    (Numeral.ofChars? text).map fun _ => (.number text, cs.dropWhile Numeral.isNumeralChar)

theorem scanText_rest_lt {cs rest : List Char} {units : List Nat}
    (h : scanText cs = some (units, rest)) : rest.length < cs.length := by
  induction cs using scanText.induct generalizing units rest with
  | case1 => simp [scanText] at h
  | case2 tail =>
    simp only [scanText, Option.some.injEq, Prod.mk.injEq] at h
    simp [← h.2]
  | case3 a b c d tail ih =>
    simp only [scanText, Option.bind_eq_bind, Option.bind_eq_some_iff, Option.pure_def,
      Option.some.injEq, Prod.mk.injEq] at h
    obtain ⟨_, _, ⟨_, _⟩, hs, _, rfl⟩ := h
    have := ih hs
    simp only [List.length_cons]
    omega
  | case4 c tail hu ih =>
    rw [scanText] at h
    · simp only [Option.bind_eq_bind, Option.bind_eq_some_iff, Option.pure_def,
        Option.some.injEq, Prod.mk.injEq] at h
      obtain ⟨_, _, ⟨_, _⟩, hs, _, rfl⟩ := h
      have := ih hs
      simp only [List.length_cons]
      omega
    · exact hu
  | case5 c tail h₁ h₂ h₃ hc =>
    rw [scanText] at h
    · simp [hc] at h
    all_goals assumption
  | case6 c tail h₁ h₂ h₃ hc ih =>
    rw [scanText] at h
    · simp only [hc, if_false, Option.bind_eq_bind, Option.bind_eq_some_iff, Option.pure_def,
        Option.some.injEq, Prod.mk.injEq] at h
      obtain ⟨⟨_, _⟩, hs, _, rfl⟩ := h
      have := ih hs
      simp only [List.length_cons]
      omega
    all_goals assumption

/-- **The first mark of a text takes at least one character.** -/
theorem firstMark_rest_le {c : Char} {cs rest : List Char} {m : Mark}
    (h : firstMark? c cs = some (m, rest)) : rest.length ≤ cs.length := by
  unfold firstMark? at h
  split at h
  case h_10 =>
    simp only [Option.map_eq_some_iff, Prod.mk.injEq] at h
    obtain ⟨⟨_, _⟩, hs, _, rfl⟩ := h
    exact Nat.le_of_lt (scanText_rest_lt hs)
  case h_11 =>
    simp only [Option.map_eq_some_iff, Prod.mk.injEq] at h
    obtain ⟨_, _, _, rfl⟩ := h
    exact (List.dropWhile_suffix _).length_le
  all_goals
    simp only [Option.some.injEq, Prod.mk.injEq] at h
    obtain ⟨_, rfl⟩ := h
    grind

/-- The marks of a text, if it can be cut into marks. -/
def scan : List Char → Option (List Mark)
  | [] => some []
  | c :: cs =>
    if isSpace c then scan cs
    else match h : firstMark? c cs with
      | none => none
      | some (m, rest) =>
        have := firstMark_rest_le h
        (scan rest).map (m :: ·)
termination_by cs => cs.length

end Reckon.Json
