/-
  Texts of documents are cut into the marks from which they were made.

  * `scanText_quoted` and `assemble_map_toNat`: a text between quotation marks is read as itself,
    whatever its characters are;
  * `isNumeralChar_of_ofChars?`: a number that can be taken apart is one piece of its text;
  * `Mark.exists_firstMark?`: a mark that can be read is the first one of any text that it begins;
  * `Spells cs ms`: the text `cs` is made of the marks `ms`, with space between them;
    `Spells.scan_eq`: it is cut into these marks.
-/
import Reckon.Json.Scan
import Reckon.Proofs.Scanning

namespace Reckon

/-! ## Texts -/

namespace Json

theorem hexValue?_hexDigit (n : Nat) : hexValue? (hexDigit n) = some (n % 16) := by
  have hall : ∀ d < 16, hexValue? (Nat.digitChar d) = some d := by decide
  exact hall (n % 16) (Nat.mod_lt n (by decide))

theorem unit?_hexDigit {n : Nat} (h : n < 65536) :
    unit? (hexDigit (n / 4096)) (hexDigit (n / 256)) (hexDigit (n / 16)) (hexDigit n) = some n := by
  simp only [unit?, hexValue?_hexDigit, Option.bind_eq_bind, Option.bind_some, Option.pure_def,
    Option.some.injEq]
  omega

/-- A letter behind a backslash is read as the character that it stands for. -/
theorem scanText_letter {c d : Char} (h : unescape? c = some d) (rest : List Char) :
    scanText ('\\' :: c :: rest) =
      (scanText rest).map fun (units, behind) => (d.toNat :: units, behind) := by
  have hu : c ≠ 'u' := by
    rintro rfl
    cases h
  rw [scanText]
  · rw [h]
    cases scanText rest <;> rfl
  · intro _ _ _ _ _ hc
    exact absurd hc hu

/-- An escaped character is read as its code point. -/
theorem scanText_escape (c : Char) (rest : List Char) :
    scanText (escape c ++ rest) =
      (scanText rest).map fun (units, behind) => (c.toNat :: units, behind) := by
  unfold escape
  split
  case h_8 h₁ h₂ h₃ h₄ h₅ h₆ h₇ =>
    split
    · next hc =>
      simp only [unitEscape, List.cons_append, List.nil_append, scanText,
        unit?_hexDigit (Nat.lt_trans hc (by decide))]
      cases scanText rest <;> rfl
    · next hc =>
      rw [List.singleton_append, scanText]
      · rw [if_neg hc]
        cases scanText rest <;> rfl
      all_goals simp_all
  all_goals exact scanText_letter rfl rest

/-- **A text between quotation marks is read up to the second one.** -/
theorem scanText_quoted (cs rest : List Char) :
    scanText (cs.flatMap escape ++ '"' :: rest) = some (cs.map Char.toNat, rest) := by
  induction cs with
  | nil => simp [scanText]
  | cons c cs ih =>
    rw [List.flatMap_cons, List.append_assoc, scanText_escape, ih]
    rfl

theorem not_isHigh_toNat (c : Char) : isHigh c.toNat = false ∧ isLow c.toNat = false := by
  have hvalid : c.toNat < 0xD800 ∨ 0xDFFF < c.toNat ∧ c.toNat < 0x110000 := c.valid
  simp only [isHigh, isLow, Bool.and_eq_false_iff, decide_eq_false_iff_not]
  omega

/-- **Characters are assembled from their own code points.** -/
theorem assemble_map_toNat (cs : List Char) : assemble (cs.map Char.toNat) = some cs := by
  induction cs with
  | nil => rfl
  | cons c cs ih =>
    obtain ⟨hhigh, hlow⟩ := not_isHigh_toNat c
    cases cs with
    | nil => simp [assemble, hhigh, hlow]
    | cons d cs =>
      rw [List.map_cons, List.map_cons] at *
      rw [assemble]
      simp [hhigh, hlow, ih]

end Json

/-! ## Numbers -/

namespace Numeral

variable {cs : List Char} {c : Char}

theorem isNumeralChar_of_isDigit (h : c.isDigit = true) : isNumeralChar c = true := by
  simp [isNumeralChar, h]

/-- The digits in front of a text are characters of a number if the rest of it is. -/
theorem isNumeralChar_of_dropWhile
    (h : ∀ c ∈ cs.dropWhile Char.isDigit, isNumeralChar c = true) :
    ∀ c ∈ cs, isNumeralChar c = true := by
  rw [← List.takeWhile_append_dropWhile (p := Char.isDigit) (l := cs), List.forall_mem_append]
  refine ⟨fun c hc => isNumeralChar_of_isDigit ?_, h⟩
  exact List.all_eq_true.1 List.all_takeWhile c hc

theorem isNumeralChar_of_exponentOf? {exponent : Bool × List Char}
    (h : exponentOf? cs = some exponent) : ∀ c ∈ cs, isNumeralChar c = true := by
  unfold exponentOf? at h
  split at h
  next negative digits heq =>
  split at h
  · cases h
  · next hdigits =>
    have hall : ∀ c ∈ digits, isNumeralChar c = true := by
      intro c hc
      simp only [Bool.or_eq_true, Bool.not_eq_true', not_or, Bool.not_eq_false] at hdigits
      exact isNumeralChar_of_isDigit (List.all_eq_true.1 hdigits.2 c hc)
    -- In front of the digits there may be a sign.
    split at heq <;> cases heq
    · exact List.forall_mem_cons.2 ⟨rfl, hall⟩
    · exact List.forall_mem_cons.2 ⟨rfl, hall⟩
    · exact hall

theorem isNumeralChar_of_behindWhole? {negative : Bool} {whole : List Char} {n : Numeral}
    (h : behindWhole? negative whole cs = some n) : ∀ c ∈ cs, isNumeralChar c = true := by
  unfold behindWhole? at h
  dsimp only at h
  split at h
  case' h_1 more =>
    split at h
    · cases h
    refine List.forall_mem_cons.2 ⟨rfl, isNumeralChar_of_dropWhile ?_⟩
    generalize more.dropWhile Char.isDigit = behind at h ⊢
  -- With a fraction and without one, there is nothing more, or the exponent.
  all_goals
    simp only [Option.bind_eq_bind, Option.bind_some] at h
    split at h
    · nofun
    · obtain ⟨exponent, hexponent, -⟩ := Option.bind_eq_some_iff.1 h
      exact List.forall_mem_cons.2 ⟨rfl, isNumeralChar_of_exponentOf? hexponent⟩
    · obtain ⟨exponent, hexponent, -⟩ := Option.bind_eq_some_iff.1 h
      exact List.forall_mem_cons.2 ⟨rfl, isNumeralChar_of_exponentOf? hexponent⟩
    · cases h

/-- **A number that can be taken apart** begins with its sign or a digit, and has no characters but
    those of numbers. -/
theorem isNumeralChar_of_ofChars? {n : Numeral} (h : ofChars? cs = some n) :
    (∃ c w, cs = c :: w ∧ (c = '-' ∨ c.isDigit = true)) ∧ ∀ c ∈ cs, isNumeralChar c = true := by
  unfold ofChars? at h
  split at h
  next negative ds heq =>
  have hds : (∃ c w, ds = c :: w ∧ c.isDigit = true) ∧ ∀ c ∈ ds, isNumeralChar c = true := by
    dsimp only at h
    split at h
    · cases h
    · cases h
    · next whole hnil _ =>
      refine ⟨?_, isNumeralChar_of_dropWhile (isNumeralChar_of_behindWhole? h)⟩
      cases ds with
      | nil => exact absurd rfl hnil
      | cons c w =>
        refine ⟨c, w, rfl, Decidable.byContradiction fun hc => ?_⟩
        exact hnil (List.takeWhile_cons_of_neg hc)
  obtain ⟨⟨c, w, rfl, hc⟩, hall⟩ := hds
  split at heq <;> cases heq
  · exact ⟨⟨'-', _, rfl, Or.inl rfl⟩, List.forall_mem_cons.2 ⟨rfl, hall⟩⟩
  · exact ⟨⟨c, w, rfl, Or.inr hc⟩, hall⟩

end Numeral

/-! ## Marks -/

namespace Json

/-- Whether a mark can be read: its number can be taken apart, and its text has characters. -/
def Mark.Legible : Mark → Prop
  | number text => (Numeral.ofChars? text).isSome = true
  | string text => text.isSome = true
  | _ => True

/-- Whether a mark ends in front of a text. Only a number might go on there. -/
def Mark.Ends (m : Mark) (cs : List Char) : Prop :=
  ∀ text, m = .number text → Stops Numeral.isNumeralChar cs

/-- A number is the first mark of a text that begins with it. -/
theorem firstMark?_number {c : Char} {w cs : List Char}
    (h : (Numeral.ofChars? (c :: w)).isSome = true) (hcs : Stops Numeral.isNumeralChar cs) :
    firstMark? c (w ++ cs) = some (.number (c :: w), cs) := by
  obtain ⟨numeral, hnumeral⟩ := Option.isSome_iff_exists.1 h
  obtain ⟨⟨d, v, hd, hfirst⟩, hall⟩ := Numeral.isNumeralChar_of_ofChars? hnumeral
  cases hd
  have htake := hcs.takeWhile_append fun d hd => hall d (List.mem_cons_of_mem c hd)
  have hdrop := hcs.dropWhile_append fun d hd => hall d (List.mem_cons_of_mem c hd)
  rw [firstMark?]
  · rw [htake, hdrop, hnumeral]
    rfl
  -- No other mark begins with a sign or a digit.
  all_goals
    intros
    subst c
    revert hfirst
    decide

/-- **A mark that can be read is the first one of any text that it begins.** -/
theorem Mark.exists_firstMark? {m : Mark} (hm : m.Legible) : ∃ c w, m.chars = c :: w ∧
    isSpace c = false ∧ ∀ cs, m.Ends cs → firstMark? c (w ++ cs) = some (m, cs) := by
  cases m with
  | openArray | closeArray | openObject | closeObject | comma | colon | null =>
    exact ⟨_, _, rfl, rfl, fun cs _ => rfl⟩
  | bool value => cases value <;> exact ⟨_, _, rfl, rfl, fun cs _ => rfl⟩
  | number text =>
    obtain ⟨numeral, hnumeral⟩ := Option.isSome_iff_exists.1 hm
    obtain ⟨⟨c, w, rfl, hc⟩, -⟩ := Numeral.isNumeralChar_of_ofChars? hnumeral
    refine ⟨c, w, rfl, ?_, fun cs hcs => firstMark?_number hm (hcs _ rfl)⟩
    rcases hc with rfl | hc
    · rfl
    · cases hspace : isSpace c with
      | false => rfl
      | true =>
        simp only [isSpace, Bool.or_eq_true, beq_iff_eq] at hspace
        rcases hspace with ((rfl | rfl) | rfl) | rfl <;> cases hc
  | string text =>
    obtain ⟨cs, rfl⟩ := Option.isSome_iff_exists.1 hm
    refine ⟨'"', cs.flatMap escape ++ ['"'], rfl, rfl, fun rest _ => ?_⟩
    rw [List.append_assoc, firstMark?, List.singleton_append, scanText_quoted, Option.map_some]
    dsimp only
    rw [assemble_map_toNat]

/-- A text is made of marks, with space between them. -/
inductive Spells : List Char → List Mark → Prop where
  | nil : Spells [] []
  | space {c : Char} {cs : List Char} {ms : List Mark} (hc : isSpace c = true) (h : Spells cs ms) :
      Spells (c :: cs) ms
  | mark {m : Mark} {cs : List Char} {ms : List Mark} (hm : m.Legible) (hcs : m.Ends cs)
      (h : Spells cs ms) : Spells (m.chars ++ cs) (m :: ms)

/-- **A text is cut into the marks that it is made of.** -/
theorem Spells.scan_eq {cs : List Char} {ms : List Mark} (h : Spells cs ms) :
    scan cs = some ms := by
  induction h with
  | nil => rw [scan]
  | space hc h ih => rw [scan, if_pos hc, ih]
  | mark hm hcs h ih =>
    obtain ⟨c, w, hchars, hspace, hfirst⟩ := Mark.exists_firstMark? hm
    rw [hchars, List.cons_append, scan, if_neg (by simp [hspace])]
    have hnext := hfirst _ hcs
    split
    · next hnone =>
      rw [hnext] at hnone
      cases hnone
    · next m' rest hsome =>
      rw [hnext] at hsome
      cases hsome
      rw [ih]
      rfl

end Json

end Reckon
