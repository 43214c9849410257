/-
  Scanning a text piece by piece.

  * `Stops p cs`: the text `cs` does not go on with a character of the class `p`;
    where a text stops is where its longest piece ends;
  * `Lexeme.first_symbol`, `Lexeme.first_word` and `Lexeme.first_digits`: the piece
    at the front of a text;
  * `Scanner.next_cases`: what is in front of a scanner, blanks and then the end of the text
    or such a piece;
  * `Scanner.Scans s ts s'`: from the scanner `s` the next tokens are `ts`, and they
    lead to the scanner `s'`;
  * `Scanner.Scans.tokens_eq`: all tokens of the text are these and those of what
    is left.
-/
import Reckon.Token.Scanner

namespace Reckon

variable {w cs : List Char} {c : Char}

/-- Whether a text does not go on with a character of a class. -/
def Stops (p : Char → Bool) (cs : List Char) : Prop := ∀ c ∈ cs.head?, p c = false

namespace Stops

variable {p : Char → Bool}

theorem nil : Stops p [] := nofun

theorem cons (h : p c = false) : Stops p (c :: cs) := by
  intro d hd
  cases hd
  exact h

theorem takeWhile_append (h : Stops p cs) (hw : ∀ c ∈ w, p c = true) :
    (w ++ cs).takeWhile p = w := by
  rw [List.takeWhile_append_of_pos hw]
  cases cs with
  | nil => exact List.append_nil w
  | cons c cs => rw [List.takeWhile_cons_of_neg (by simp [h c rfl]), List.append_nil]

theorem dropWhile_append (h : Stops p cs) (hw : ∀ c ∈ w, p c = true) :
    (w ++ cs).dropWhile p = cs := by
  rw [List.dropWhile_append_of_pos hw]
  cases cs with
  | nil => rfl
  | cons c cs => rw [List.dropWhile_cons_of_neg (by simp [h c rfl])]

end Stops

theorem toNat_of_isAlpha (h : c.isAlpha = true) :
    (65 ≤ c.toNat ∧ c.toNat ≤ 90) ∨ (97 ≤ c.toNat ∧ c.toNat ≤ 122) := by
  have ha : c.isAlpha = (decide ('A'.val ≤ c.val ∧ c.val ≤ 'Z'.val) ||
    decide ('a'.val ≤ c.val) && decide (c.val ≤ 'z'.val)) := rfl
  simpa [ha, UInt32.le_iff_toNat_le] using h

theorem Text.isBlank_of_isDigit (h : c.isDigit = true) : isBlank c = false := by
  have hc : 48 ≤ c.toNat ∧ c.toNat ≤ 57 := Char.isDigit_iff_toNat.1 h
  simp [isBlank, inRanges, blankRanges]
  omega

theorem Text.isBlank_of_isAlpha (h : c.isAlpha = true) : isBlank c = false := by
  have hc := toNat_of_isAlpha h
  simp [isBlank, inRanges, blankRanges]
  omega

theorem BinaryOp.kind_ne_invalid {kind : TokenKind} {op : BinaryOp}
    (h : ofKind? kind = some op) : kind ≠ .invalid := by
  rintro rfl
  cases h

theorem Sign.kind_ne_invalid {kind : TokenKind} {sign : Sign} (h : ofKind? kind = some sign) :
    kind ≠ .invalid := by
  rintro rfl
  cases h

namespace Lexeme

/-- Whether a character may go on with a number. -/
def isNumberChar (c : Char) : Bool := c.isDigit || c == '.'

/-- What stands alone is neither blank nor a letter, and no part of a number. -/
theorem classes_of_symbol (h : symbol c ≠ .invalid) :
    Text.isBlank c = false ∧ isNumberChar c = false ∧ c.isAlpha = false ∧ symbol c ≠ .finish := by
  unfold symbol at h
  split at h
  case h_8 => exact absurd rfl h
  all_goals exact ⟨rfl, rfl, rfl, by simp [symbol]⟩

theorem first_symbol (h : symbol c ≠ .invalid) (cs : List Char) :
    first c cs = .piece (symbol c) [c] cs := by
  obtain ⟨-, hn, ha, -⟩ := classes_of_symbol h
  rw [isNumberChar] at hn
  rw [first, hn, if_neg (by simp), ha, if_neg (by simp)]

theorem isNumberChar_of_isAlpha (h : c.isAlpha = true) : isNumberChar c = false := by
  have hc := toNat_of_isAlpha h
  rw [isNumberChar, Bool.or_eq_false_iff]
  constructor
  · refine Bool.eq_false_iff.2 fun hd => ?_
    have hc' : 48 ≤ c.toNat ∧ c.toNat ≤ 57 := Char.isDigit_iff_toNat.1 hd
    omega
  · refine beq_eq_false_iff_ne.2 ?_
    rintro rfl
    cases h

/-- A function is named by a letter and word characters. -/
theorem exists_name (f : Function) : ∃ c w, f.name.toList = c :: w ∧ c.isAlpha = true ∧
    w.all isWordChar = true := by
  cases f <;> exact ⟨_, _, rfl, rfl, rfl⟩

theorem first_eq_word (h : c.isAlpha = true) (cs : List Char) : first c cs = word (c :: cs) := by
  have hn := isNumberChar_of_isAlpha h
  rw [isNumberChar] at hn
  rw [first, hn, if_neg (by simp), if_pos h]

/-- The word at the front of a text is as long as it can be. -/
theorem word_append (hw : ∀ d ∈ w, isWordChar d = true) (hcs : Stops isWordChar cs) :
    word (w ++ cs) =
      .piece ((Function.ofName? (String.ofList w)).elim .invalid .function) w cs := by
  rw [word, hcs.takeWhile_append hw, hcs.dropWhile_append hw]
  cases Function.ofName? (String.ofList w) <;> rfl

theorem isWordChar_cons (h : c.isAlpha = true) (hw : ∀ d ∈ w, isWordChar d = true) :
    ∀ d ∈ c :: w, isWordChar d = true := by
  intro d hd
  rcases List.mem_cons.1 hd with rfl | hd
  · simp [isWordChar, Char.isAlphanum, h]
  · exact hw d hd

theorem first_word (h : c.isAlpha = true) (hw : ∀ d ∈ w, isWordChar d = true)
    (hcs : Stops isWordChar cs) {f : Function}
    (hf : Function.ofName? (String.ofList (c :: w)) = some f) :
    first c (w ++ cs) = .piece (.function f) (c :: w) cs := by
  rw [first_eq_word h, ← List.cons_append, word_append (isWordChar_cons h hw) hcs, hf]
  rfl

/-- A word that names no function is none of the language. -/
theorem first_foreign (h : c.isAlpha = true) (hw : ∀ d ∈ w, isWordChar d = true)
    (hcs : Stops isWordChar cs) (hf : Function.ofName? (String.ofList (c :: w)) = none) :
    first c (w ++ cs) = .piece .invalid (c :: w) cs := by
  rw [first_eq_word h, ← List.cons_append, word_append (isWordChar_cons h hw) hcs, hf]
  rfl

theorem first_digits (h : c.isDigit = true) (hw : ∀ d ∈ w, d.isDigit = true)
    (hcs : Stops isNumberChar cs) : first c (w ++ cs) = .piece .number (c :: w) cs := by
  have hcw : ∀ d ∈ c :: w, d.isDigit = true := by
    intro d hd
    rcases List.mem_cons.1 hd with rfl | hd
    · exact h
    · exact hw d hd
  have hstop : Stops Char.isDigit cs := fun d hd => (Bool.or_eq_false_iff.1 (hcs d hd)).1
  rw [first, h, Bool.true_or, if_pos rfl, number, ← List.cons_append,
    hstop.takeWhile_append hcw, hstop.dropWhile_append hcw]
  cases cs with
  | nil => rfl
  | cons d cs =>
    have hd : d ≠ '.' := by simpa using (Bool.or_eq_false_iff.1 (hcs d rfl)).2
    dsimp only
    split
    · next heq => exact absurd (List.cons.inj heq).1 hd
    · rfl

end Lexeme

theorem map_eq_ok_iff {ε α β : Type} {r : Except ε α} {f : α → β} {y : β} :
    r.map f = .ok y ↔ ∃ x, r = .ok x ∧ f x = y := by
  cases r <;> simp [Except.map]

theorem map_eq_error_iff {ε α β : Type} {r : Except ε α} {f : α → β} {e : ε} :
    r.map f = .error e ↔ r = .error e := by
  cases r <;> simp [Except.map]

namespace Scanner

/-- The token of a piece of text. -/
def token (start : Nat) (kind : TokenKind) (text : List Char) : Token :=
  ⟨kind, String.ofList text, ⟨start, start + text.length⟩,
    if kind = .number then Number.read text else 0⟩

theorem next_append_blanks {b : List Char} (hb : ∀ c ∈ b, Text.isBlank c = true) (n : Nat)
    (cs : List Char) : (⟨n, b ++ cs⟩ : Scanner).next = (⟨n + b.length, cs⟩ : Scanner).next := by
  simp only [next, List.takeWhile_append_of_pos hb, List.dropWhile_append_of_pos hb,
    List.length_append, Nat.add_assoc]

theorem next_of_not_isBlank (hc : Text.isBlank c = false) (n : Nat) (cs : List Char) :
    (⟨n, c :: cs⟩ : Scanner).next = ofLexeme n (.first c cs) := by
  have hb : ¬ Text.isBlank c = true := by simp [hc]
  simp only [next, List.takeWhile_cons_of_neg hb, List.dropWhile_cons_of_neg hb]
  rfl

/-- In front of a scanner there are blanks, and behind them the end of the text or a lexeme. -/
theorem next_cases (s : Scanner) :
    ((∀ c ∈ s.rest, Text.isBlank c = true) ∧
        s.next =
          (.ok (.finish (s.position + s.rest.length)), ⟨s.position + s.rest.length, []⟩)) ∨
      ∃ b c cs, (∀ d ∈ b, Text.isBlank d = true) ∧ Text.isBlank c = false ∧
        s.rest = b ++ c :: cs ∧ s.next = ofLexeme (s.position + b.length) (.first c cs) := by
  obtain ⟨n, rest⟩ := s
  have happend := List.takeWhile_append_dropWhile (p := Text.isBlank) (l := rest)
  have hblank : ∀ c ∈ rest.takeWhile Text.isBlank, Text.isBlank c = true :=
    fun c hc => List.all_eq_true.1 List.all_takeWhile c hc
  have hnext := next_append_blanks hblank n (rest.dropWhile Text.isBlank)
  rw [happend] at hnext
  cases hdrop : rest.dropWhile Text.isBlank with
  | nil =>
    rw [hdrop, List.append_nil] at happend
    rw [hdrop, happend] at hnext
    rw [happend] at hblank
    exact Or.inl ⟨hblank, hnext⟩
  | cons c cs =>
    have hc : Text.isBlank c = false := by
      have hhead := List.head?_dropWhile_not Text.isBlank rest
      rw [hdrop] at hhead
      simpa using hhead
    rw [hdrop] at happend hnext
    exact Or.inr ⟨_, c, cs, hblank, hc, happend.symm, hnext.trans (next_of_not_isBlank hc _ cs)⟩

/-- What the tokens of a text are, by the next one. -/
theorem tokens_eq_match (s : Scanner) : s.tokens = match s.next with
    | (.error e, _) => .error e
    | (.ok t, s') =>
      if t.kind = .invalid then .error ⟨.unknownCharacter t.text, t.span⟩
      else if t.kind = .finish then .ok [t]
      else s'.tokens.map (t :: ·) := by
  rw [tokens]
  split
  · next e s' h => rw [h]
  · next t s' h => simp only [h, dite_eq_ite]

theorem tokens_of_next {s s' : Scanner} {t : Token} (h : s.next = (.ok t, s'))
    (hi : t.kind ≠ .invalid) (hf : t.kind ≠ .finish) : s.tokens = s'.tokens.map (t :: ·) := by
  rw [tokens_eq_match, h]
  dsimp only
  rw [if_neg hi, if_neg hf]

theorem tokens_of_next_finish {s s' : Scanner} {t : Token} (h : s.next = (.ok t, s'))
    (hf : t.kind = .finish) : s.tokens = .ok [t] := by
  have hi : t.kind ≠ .invalid := by simp [hf]
  rw [tokens_eq_match, h]
  dsimp only
  rw [if_neg hi, if_pos hf]

theorem tokens_of_next_invalid {s s' : Scanner} {t : Token} (h : s.next = (.ok t, s'))
    (hi : t.kind = .invalid) : s.tokens = .error ⟨.unknownCharacter t.text, t.span⟩ := by
  rw [tokens_eq_match, h]
  dsimp only
  rw [if_pos hi]

theorem tokens_nil (n : Nat) : (⟨n, []⟩ : Scanner).tokens = .ok [.finish n] := by
  rw [tokens]
  rfl

/-- From a scanner, the next tokens lead to another scanner; all are of the
    language, and none is the end. -/
inductive Scans : Scanner → List Token → Scanner → Prop where
  | nil (s : Scanner) : Scans s [] s
  | cons {s s' s'' : Scanner} {t : Token} {ts : List Token} (h : s.next = (.ok t, s'))
      (hi : t.kind ≠ .invalid) (hf : t.kind ≠ .finish) (hs : Scans s' ts s'') :
      Scans s (t :: ts) s''

namespace Scans

variable {s s' s'' : Scanner} {ts us : List Token} {n n' : Nat}

theorem append (h : Scans s ts s') (h' : Scans s' us s'') : Scans s (ts ++ us) s'' := by
  induction h with
  | nil s => exact h'
  | cons h hi hf _ ih => exact .cons h hi hf (ih h')

theorem isFinish_of_mem (h : Scans s ts s') {t : Token} (ht : t ∈ ts) : t.isFinish = false := by
  induction h with
  | nil s => cases ht
  | cons h hi hf _ ih =>
    rcases List.mem_cons.1 ht with rfl | ht
    · simpa [Token.isFinish] using hf
    · exact ih ht

/-- **The tokens of a text are those of its front and those of what is left.** -/
theorem tokens_eq (h : Scans s ts s') : s.tokens = s'.tokens.map (ts ++ ·) := by
  induction h with
  | nil s =>
    cases s.tokens <;> rfl
  | @cons s s' s'' t ts h hi hf _ ih =>
    rw [tokens_of_next h hi hf, ih]
    cases s''.tokens <;> rfl

/-- A piece of the language is one token. -/
theorem piece {kind : TokenKind} {rest : List Char} (hc : Text.isBlank c = false)
    (h : Lexeme.first c cs = .piece kind w rest) (hi : kind ≠ .invalid) (hf : kind ≠ .finish)
    (n : Nat) : Scans ⟨n, c :: cs⟩ [token n kind w] ⟨n + w.length, rest⟩ := by
  refine .cons ?_ hi hf (.nil _)
  rw [next_of_not_isBlank hc, h]
  rfl

theorem symbol (h : Lexeme.symbol c ≠ .invalid) (n : Nat) (cs : List Char) :
    Scans ⟨n, c :: cs⟩ [token n (Lexeme.symbol c) [c]] ⟨n + 1, cs⟩ := by
  obtain ⟨hb, -, -, hf⟩ := Lexeme.classes_of_symbol h
  exact piece hb (Lexeme.first_symbol h cs) h hf n

theorem digits (h : c.isDigit = true) (hw : ∀ d ∈ w, d.isDigit = true)
    (hcs : Stops Lexeme.isNumberChar cs) (n : Nat) :
    Scans ⟨n, c :: w ++ cs⟩ [token n .number (c :: w)] ⟨n + (c :: w).length, cs⟩ :=
  piece (Text.isBlank_of_isDigit h) (Lexeme.first_digits h hw hcs) (by simp) (by simp) n

theorem function (f : Function) (hcs : Stops Lexeme.isWordChar cs) (n : Nat) :
    Scans ⟨n, f.name.toList ++ cs⟩ [token n (.function f) f.name.toList]
      ⟨n + f.name.toList.length, cs⟩ := by
  obtain ⟨c, w, hcw, hc, hw⟩ := Lexeme.exists_name f
  have hf : Function.ofName? (String.ofList (c :: w)) = some f := by
    rw [← hcw, String.ofList_toList, Function.ofName?_name]
  have hfirst := Lexeme.first_word hc (List.all_eq_true.1 hw) hcs hf
  rw [hcw]
  exact piece (Text.isBlank_of_isAlpha hc) hfirst (by simp) (by simp) n

/-- Tokens between parentheses. -/
theorem group (h : Scans ⟨n + 1, w ++ ')' :: cs⟩ ts ⟨n', ')' :: cs⟩) :
    Scans ⟨n, '(' :: (w ++ [')']) ++ cs⟩
      (token n .leftParen ['('] :: (ts ++ [token n' .rightParen [')']])) ⟨n' + 1, cs⟩ := by
  have hl := symbol (c := '(') (by simp [Lexeme.symbol]) n (w ++ ')' :: cs)
  have hr := symbol (c := ')') (by simp [Lexeme.symbol]) n' cs
  have htext : '(' :: (w ++ [')']) ++ cs = '(' :: (w ++ ')' :: cs) := by simp
  rw [htext]
  exact hl.append (h.append hr)

/-- A function, and its argument between parentheses. -/
theorem call (f : Function)
    (h : Scans ⟨n + f.name.toList.length + 1, w ++ ')' :: cs⟩ ts ⟨n', ')' :: cs⟩) :
    Scans ⟨n, f.name.toList ++ '(' :: (w ++ [')']) ++ cs⟩
      (token n (.function f) f.name.toList ::
        token (n + f.name.toList.length) .leftParen ['('] ::
          (ts ++ [token n' .rightParen [')']])) ⟨n' + 1, cs⟩ := by
  have hstop : Stops Lexeme.isWordChar ('(' :: (w ++ [')']) ++ cs) := .cons rfl
  rw [List.append_assoc]
  exact (function f hstop n).append h.group

end Scans

end Scanner

end Reckon
