/-
  The lexemes of the language, apart from how they are scanned.

  * `IsLexeme kind w`: the text `w` is a lexeme of the class `kind`;
  * `goesOn kind c`: a lexeme of this class could not end in front of `c`;
  * `Lexeme.taken_append_rest`: the piece at the front of a text and what is left
    behind it are the text;
  * `Lexeme.first_of_isLexeme` and `Lexeme.isLexeme_of_first`: the piece at the
    front of a text is a lexeme exactly if the text behind it does not go on with
    it.
-/
import Reckon.Proofs.Scanning

namespace Reckon

/-- The symbols, with their classes. -/
def symbols : List (Char × TokenKind) :=
  [('+', .plus), ('-', .minus), ('*', .star), ('/', .slash), ('^', .caret), ('(', .leftParen),
    (')', .rightParen)]

/-- Whether a text holds nothing but digits. -/
def IsDigits (w : List Char) : Prop := ∀ c ∈ w, c.isDigit = true

/-- The lexemes of each class. -/
inductive IsLexeme : TokenKind → List Char → Prop where
  /-- Digits without a point. -/
  | whole {w : List Char} (hne : w ≠ []) (hw : IsDigits w) : IsLexeme .number w
  /-- Digits, the point, and perhaps more digits. -/
  | point {w f : List Char} (hne : w ≠ []) (hw : IsDigits w) (hf : IsDigits f) :
      IsLexeme .number (w ++ '.' :: f)
  /-- The point, and digits behind it. -/
  | fraction {f : List Char} (hne : f ≠ []) (hf : IsDigits f) : IsLexeme .number ('.' :: f)
  | function (f : Function) : IsLexeme (.function f) f.name.toList
  | symbol {c : Char} {kind : TokenKind} (h : (c, kind) ∈ symbols) : IsLexeme kind [c]

/-- The characters in front of which no lexeme of a class ends. -/
def goesOn : TokenKind → Char → Bool
  | .number => Lexeme.isNumberChar
  | .function _ => Lexeme.isWordChar
  | _ => fun _ => false

variable {w f cs rest : List Char} {c : Char} {kind : TokenKind}

theorem Stops.of_dropWhile (p : Char → Bool) (cs : List Char) : Stops p (cs.dropWhile p) := by
  intro c hc
  have h := List.head?_dropWhile_not p cs
  rw [Option.mem_def.1 hc] at h
  simpa using h

theorem Stops.mono {p q : Char → Bool} (h : Stops p cs) (hq : ∀ c, q c = true → p c = true) :
    Stops q cs := by
  intro c hc
  refine Bool.eq_false_iff.2 fun hqc => ?_
  have hp := hq c hqc
  rw [h c hc] at hp
  cases hp

theorem isDigits_takeWhile (cs : List Char) : IsDigits (cs.takeWhile Char.isDigit) :=
  fun c hc => List.all_eq_true.1 List.all_takeWhile c hc

namespace Lexeme

theorem mem_symbols : (c, kind) ∈ symbols ↔ symbol c = kind ∧ kind ≠ .invalid := by
  constructor
  · intro h
    simp only [symbols, List.mem_cons, Prod.mk.injEq, List.not_mem_nil, or_false] at h
    rcases h with ⟨rfl, rfl⟩ | ⟨rfl, rfl⟩ | ⟨rfl, rfl⟩ | ⟨rfl, rfl⟩ | ⟨rfl, rfl⟩ | ⟨rfl, rfl⟩ |
      ⟨rfl, rfl⟩ <;> exact ⟨rfl, by simp⟩
  · rintro ⟨rfl, h⟩
    unfold symbol at h ⊢
    split at h
    case h_8 => exact absurd rfl h
    all_goals simp [symbols]

theorem name_of_ofName? {name : String} {f : Function} (h : Function.ofName? name = some f) :
    f.name = name := by
  have h := List.find?_some h
  simpa using h

/-! ## From lexemes to the front of a text -/

theorem number_of_point (hw : IsDigits w) (hf : IsDigits f) (hne : w ≠ [] ∨ f ≠ [])
    (hcs : Stops isNumberChar cs) :
    number (w ++ '.' :: (f ++ cs)) = .piece .number (w ++ '.' :: f) cs := by
  have hdigit : Stops Char.isDigit cs := hcs.mono fun d hd => by simp [isNumberChar, hd]
  have hpoint : Stops Char.isDigit ('.' :: (f ++ cs)) := .cons rfl
  rw [number, hpoint.takeWhile_append hw, hpoint.dropWhile_append hw]
  simp only [hdigit.takeWhile_append hf, hdigit.dropWhile_append hf]
  have hempty : ¬ (w.isEmpty && f.isEmpty) = true := by
    simp only [Bool.and_eq_true, List.isEmpty_iff]
    rintro ⟨rfl, rfl⟩
    rcases hne with h | h <;> exact h rfl
  split
  · next more => exact absurd (hcs '.' rfl) (by simp [isNumberChar])
  · rw [if_neg hempty]

theorem first_eq_number (h : isNumberChar c = true) (cs : List Char) :
    first c cs = number (c :: cs) := by
  rw [isNumberChar] at h
  rw [first, if_pos h]

/-- **A lexeme that ends where it stands is at the front of its text.** -/
theorem first_of_isLexeme (h : IsLexeme kind (c :: w)) (hcs : Stops (goesOn kind) cs) :
    first c (w ++ cs) = .piece kind (c :: w) cs := by
  generalize hv : c :: w = v at h
  cases h with
  | whole hne hw =>
    subst hv
    exact first_digits (hw c (by simp)) (fun d hd => hw d (by simp [hd])) hcs
  | @point u f hne hu hf =>
    cases u with
    | nil => exact absurd rfl hne
    | cons d u =>
      cases hv
      have hd : isNumberChar c = true := by simp [isNumberChar, hu c]
      have htext : c :: u ++ '.' :: f ++ cs = c :: u ++ '.' :: (f ++ cs) := by simp
      rw [first_eq_number hd]
      show number (c :: u ++ '.' :: f ++ cs) = _
      rw [htext]
      exact number_of_point hu hf (Or.inl hne) hcs
  | fraction hne hf =>
    cases hv
    rw [first_eq_number rfl]
    exact number_of_point (w := []) (by simp [IsDigits]) hf (Or.inr hne) hcs
  | function f =>
    obtain ⟨d, u, hdu, hd, hu⟩ := exists_name f
    rw [hdu] at hv ⊢
    cases hv
    have hf : Function.ofName? (String.ofList (c :: w)) = some f := by
      rw [← hdu, String.ofList_toList, Function.ofName?_name]
    exact first_word hd (List.all_eq_true.1 hu) hcs hf
  | symbol hs =>
    cases hv
    obtain ⟨rfl, hi⟩ := mem_symbols.1 hs
    exact first_symbol hi cs

/-! ## From the front of a text to lexemes -/

/-- Behind digits, a number goes on with a point only. -/
theorem stops_isNumberChar (h : Stops Char.isDigit rest)
    (hno : ∀ more, rest = '.' :: more → False) : Stops isNumberChar rest := by
  cases rest with
  | nil => exact .nil
  | cons d more =>
    refine .cons ?_
    have hd : d ≠ '.' := by
      rintro rfl
      exact hno more rfl
    simp [isNumberChar, h d rfl, hd]

/-- The text that a lexeme takes. -/
def taken : Lexeme → List Char
  | piece _ text _ => text
  | lonePoint _ => ['.']
  | secondPoint read _ => read

theorem number_append (cs : List Char) : (number cs).taken ++ (number cs).rest = cs := by
  have happend := List.takeWhile_append_dropWhile (p := Char.isDigit) (l := cs)
  unfold number
  dsimp only
  split
  · next behind hbehind =>
    have happend' := List.takeWhile_append_dropWhile (p := Char.isDigit) (l := behind)
    rw [hbehind] at happend
    split
    · next more hmore =>
      rw [hmore] at happend'
      rw [taken, rest, List.append_assoc, List.cons_append, happend', happend]
    · split
      · next h =>
        simp only [Bool.and_eq_true, List.isEmpty_iff] at h
        rw [h.2, List.nil_append] at happend'
        rw [h.1, List.nil_append] at happend
        rw [taken, rest, happend', List.singleton_append, happend]
      · rw [taken, rest, List.append_assoc, List.cons_append, happend', happend]
  · exact happend

/-- A lexeme and what it leaves are the text. -/
theorem taken_append_rest (c : Char) (cs : List Char) :
    (first c cs).taken ++ (first c cs).rest = c :: cs := by
  unfold first
  split
  · exact number_append (c :: cs)
  · split
    · exact List.takeWhile_append_dropWhile
    · rfl

theorem taken_ne_nil (c : Char) (cs : List Char) : (first c cs).taken ≠ [] := by
  intro h
  have happend := taken_append_rest c cs
  have hlt := rest_lt c cs
  rw [h, List.nil_append] at happend
  rw [happend] at hlt
  exact Nat.lt_irrefl _ hlt

/-- What is left behind a second point that is shown but not taken. -/
theorem exists_rest_of_secondPoint (h : first c cs = .secondPoint w rest) :
    ∃ more, rest = '.' :: more := by
  unfold first at h
  split at h
  · unfold number at h
    dsimp only at h
    split at h
    · split at h
      · next more _ =>
        cases h
        exact ⟨more, rfl⟩
      · split at h <;> cases h
    · cases h
  · split at h
    · rw [word] at h
      cases h
    · cases h

theorem isLexeme_of_number (h : number (c :: cs) = .piece kind w rest)
    (hc : isNumberChar c = true) : IsLexeme kind w ∧ Stops (goesOn kind) rest := by
  have happend := number_append (c :: cs)
  rw [h] at happend
  have hw := isDigits_takeWhile (c :: cs)
  unfold number at h
  dsimp only at h
  split at h
  · next behind hbehind =>
    have hf := isDigits_takeWhile behind
    split at h
    · cases h
    · next hno =>
      split at h
      · cases h
      · next hne =>
        cases h
        refine ⟨?_, stops_isNumberChar (Stops.of_dropWhile Char.isDigit behind) hno⟩
        by_cases hnil : (c :: cs).takeWhile Char.isDigit = []
        · rw [hnil] at hne ⊢
          exact .fraction (by simpa using hne) hf
        · exact .point hnil hw hf
  · next hno =>
    cases h
    refine ⟨.whole ?_ hw, stops_isNumberChar (Stops.of_dropWhile _ _) hno⟩
    intro hnil
    rw [isNumberChar, Bool.or_eq_true] at hc
    rcases hc with hc | hc
    · rw [List.takeWhile_cons_of_pos hc] at hnil
      cases hnil
    · rw [taken, hnil, List.nil_append] at happend
      exact hno cs (happend.trans (by simpa using hc))

theorem isLexeme_of_word (h : word cs = .piece kind w rest) (hi : kind ≠ .invalid) :
    IsLexeme kind w ∧ Stops (goesOn kind) rest := by
  unfold word at h
  dsimp only at h
  cases hname : Function.ofName? (String.ofList (cs.takeWhile isWordChar)) with
  | none =>
    rw [hname] at h
    cases h
    exact absurd rfl hi
  | some f =>
    rw [hname] at h
    cases h
    have hf : f.name.toList = cs.takeWhile isWordChar := by
      rw [name_of_ofName? hname, String.toList_ofList]
    rw [← hf]
    exact ⟨.function f, .of_dropWhile _ _⟩

/-- **What stands at the front of a text is a lexeme that ends there.** -/
theorem isLexeme_of_first (h : first c cs = .piece kind w rest) (hi : kind ≠ .invalid) :
    IsLexeme kind w ∧ Stops (goesOn kind) rest := by
  unfold first at h
  split at h
  · next hc => exact isLexeme_of_number h hc
  · split at h
    · exact isLexeme_of_word h hi
    · cases h
      refine ⟨.symbol (mem_symbols.2 ⟨rfl, hi⟩), fun d _ => ?_⟩
      cases hk : symbol c with
      | number | function f =>
        unfold symbol at hk
        split at hk <;> cases hk
      | _ => rfl

theorem exists_cons (h : IsLexeme kind w) : ∃ c u, w = c :: u ∧ Text.isBlank c = false := by
  cases h with
  | whole hne hw =>
    cases w with
    | nil => exact absurd rfl hne
    | cons c u => exact ⟨c, u, rfl, Text.isBlank_of_isDigit (hw c (by simp))⟩
  | @point u f hne hu hf =>
    cases u with
    | nil => exact absurd rfl hne
    | cons c u => exact ⟨c, _, rfl, Text.isBlank_of_isDigit (hu c (by simp))⟩
  | fraction hne hf => exact ⟨'.', _, rfl, rfl⟩
  | function f =>
    obtain ⟨c, u, hcu, hc, -⟩ := exists_name f
    exact ⟨c, u, hcu, Text.isBlank_of_isAlpha hc⟩
  | @symbol c _ hs =>
    obtain ⟨rfl, hi⟩ := mem_symbols.1 hs
    exact ⟨c, [], rfl, (classes_of_symbol hi).1⟩

theorem kind_ne (h : IsLexeme kind w) : kind ≠ .invalid ∧ kind ≠ .finish := by
  cases h with
  | whole _ _ | point _ _ _ | fraction _ _ | function _ => exact ⟨by simp, by simp⟩
  | symbol hs =>
    obtain ⟨rfl, hi⟩ := mem_symbols.1 hs
    exact ⟨hi, (classes_of_symbol hi).2.2.2⟩

/-- No piece of a text is its end, not even one outside the language. -/
theorem kind_ne_finish (h : first c cs = .piece kind w rest) : kind ≠ .finish := by
  rintro rfl
  exact (kind_ne (isLexeme_of_first h (by simp)).1).2 rfl

end Lexeme

end Reckon
