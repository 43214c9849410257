/-
  Scanning two texts with a blank between them.

  * `Lexeme.first_extend`: what a lexeme is does not depend on text behind it that neither a
    number nor a word goes on with;
  * `Scanner.next_extend` and `Scanner.next_extend_of_isFinish`: so the scanner does the same
    with a blank and more text behind it, except that it goes through the end;
  * `Scanner.tokens_extend_of_error` and `Scanner.tokens_extend_of_ok`: what this makes of an
    error, and of the tokens of the two texts;
  * `Scanner.tokens_shift`: the tokens of a text that stands further to the right;
  * `tokenize_append_blank`: the tokens of two strings with a blank between them.
-/
import Reckon.Proofs.Resumption
import Reckon.Proofs.Spacing.Scanning

namespace Reckon

variable {v cs : List Char} {c : Char} {p : Char → Bool}

/-! ## Text behind a lexeme -/

namespace Stops

theorem takeWhile_append_right (h : Stops p v) (u : List Char) :
    (u ++ v).takeWhile p = u.takeWhile p := by
  induction u with
  | nil => exact h.takeWhile_append (w := []) (by simp)
  | cons c u ih => rw [List.cons_append, List.takeWhile_cons, List.takeWhile_cons, ih]

theorem dropWhile_append_right (h : Stops p v) (u : List Char) :
    (u ++ v).dropWhile p = u.dropWhile p ++ v := by
  induction u with
  | nil => exact h.dropWhile_append (w := []) (by simp)
  | cons c u ih =>
    rw [List.cons_append, List.dropWhile_cons, List.dropWhile_cons, ih]
    split <;> rfl

end Stops

namespace Lexeme

/-- The lexeme with more text behind it. -/
def extend (v : List Char) : Lexeme → Lexeme
  | piece kind text rest => piece kind text (rest ++ v)
  | lonePoint rest => lonePoint (rest ++ v)
  | secondPoint read rest => secondPoint read (rest ++ v)

theorem word_extend (hv : Stops isWordChar v) (cs : List Char) :
    word (cs ++ v) = (word cs).extend v := by
  simp only [word, hv.takeWhile_append_right, hv.dropWhile_append_right]
  rfl

/-- A text begins with a point, or it does not even with `v` behind it. -/
theorem point_or_not (hv : Stops isNumberChar v) (u : List Char) :
    (∃ more, u = '.' :: more) ∨ (∀ more, u ≠ '.' :: more) ∧ ∀ more, u ++ v ≠ '.' :: more := by
  cases u with
  | nil =>
    refine Or.inr ⟨nofun, fun more hmore => ?_⟩
    rw [List.nil_append] at hmore
    have hno := hv '.' (by rw [hmore]; rfl)
    cases hno
  | cons d u =>
    by_cases hd : d = '.'
    · exact Or.inl ⟨u, by rw [hd]⟩
    · exact Or.inr ⟨fun _ h => hd (List.cons.inj h).1, fun _ h => hd (List.cons.inj h).1⟩

theorem number_extend (hv : Stops isNumberChar v) (cs : List Char) :
    number (cs ++ v) = (number cs).extend v := by
  have hdigit : Stops Char.isDigit v := hv.mono fun d hd => by simp [isNumberChar, hd]
  unfold number
  simp only [hdigit.takeWhile_append_right, hdigit.dropWhile_append_right]
  -- The point, and behind it the second one, is in what the digits leave, or in neither text.
  rcases point_or_not hv (cs.dropWhile Char.isDigit) with ⟨behind, hbehind⟩ | ⟨hno, hno'⟩
  · simp only [hbehind, List.cons_append, hdigit.takeWhile_append_right,
      hdigit.dropWhile_append_right]
    rcases point_or_not hv (behind.dropWhile Char.isDigit) with ⟨more, hmore⟩ | ⟨hno, hno'⟩
    · simp only [hmore, List.cons_append]
      rfl
    · split
      · next more hmore => exact absurd hmore (hno' more)
      · split <;> rfl
  · split
    · next more hmore => exact absurd hmore (hno' more)
    · rfl

/-- **No lexeme goes on into text that begins with none of its characters.** -/
theorem first_extend (hnumber : Stops isNumberChar v) (hword : Stops isWordChar v) (c : Char)
    (cs : List Char) : first c (cs ++ v) = (first c cs).extend v := by
  unfold first
  rw [← List.cons_append]
  split
  · exact number_extend hnumber (c :: cs)
  · split
    · exact word_extend hword (c :: cs)
    · rfl

end Lexeme

/-! ## Text behind a scanner -/

namespace Scanner

variable {s s' : Scanner} {t : Token}

/-- The scanner with more text in front of it. -/
def extend (v : List Char) (s : Scanner) : Scanner := ⟨s.position, s.rest ++ v⟩

theorem ofLexeme_extend (v : List Char) (n : Nat) (l : Lexeme) :
    ofLexeme n (l.extend v) = ((ofLexeme n l).1, (ofLexeme n l).2.extend v) := by
  cases l <;> rfl

/-- **Before the end, text behind a blank changes nothing.** -/
theorem next_extend (hc : Text.isBlank c = true) (b : List Char)
    (h : Scanned.isFinish s.next.1 = false) :
    (s.extend (c :: b)).next = (s.next.1, s.next.2.extend (c :: b)) := by
  rcases next_cases s with ⟨-, heq⟩ | ⟨a, d, ds, ha, hd, hrest, heq⟩
  · rw [heq] at h
    cases h
  · have hfirst := Lexeme.first_extend (v := c :: b) (.cons (Lexeme.isNumberChar_of_isBlank hc))
      (.cons (Lexeme.isWordChar_of_isBlank hc)) d ds
    rw [extend, hrest, List.append_assoc, List.cons_append, next_append_blanks ha,
      next_of_not_isBlank hd, hfirst, ofLexeme_extend, heq]

theorem next_extend_of_kind_ne (hc : Text.isBlank c = true) (b : List Char)
    (h : s.next = (.ok t, s')) (hf : t.kind ≠ .finish) :
    (s.extend (c :: b)).next = (.ok t, s'.extend (c :: b)) := by
  have hfinish : Scanned.isFinish s.next.1 = false := by
    rw [h]
    simpa [Scanned.isFinish, Token.isFinish] using hf
  rw [next_extend hc b hfinish, h]

/-- At the end, text behind a blank is scanned from there. -/
theorem next_extend_of_isFinish (hc : Text.isBlank c = true) (b : List Char) (hs : s.At cs)
    (h : Scanned.isFinish s.next.1 = true) :
    (s.extend (c :: b)).next = (⟨cs.length + 1, b⟩ : Scanner).next := by
  rcases next_cases s with ⟨hblank, -⟩ | ⟨a, d, ds, -, -, -, heq⟩
  · -- What is left is blank, and so it is with the blank behind it.
    obtain ⟨u, hu, hlen⟩ := hs
    have hblank' : ∀ d ∈ s.rest ++ [c], Text.isBlank d = true := by
      intro d hd
      rcases List.mem_append.1 hd with hd | hd
      · exact hblank d hd
      · rw [List.mem_singleton.1 hd]
        exact hc
    have hposition : s.position + (s.rest ++ [c]).length = cs.length + 1 := by
      rw [hu, List.length_append, List.length_append, hlen, List.length_singleton]
      omega
    rw [extend, List.append_cons, next_append_blanks hblank', hposition]
  · cases hl : Lexeme.first d ds with
    | piece kind w rest =>
      rw [heq, hl] at h
      exact absurd (of_decide_eq_true h) (Lexeme.kind_ne_finish hl)
    | lonePoint rest | secondPoint w rest =>
      rw [heq, hl] at h
      cases h

/-- Scanners that do the same next have the same tokens. -/
theorem tokens_congr {s' : Scanner} (h : s.next = s'.next) : s.tokens = s'.tokens := by
  rw [tokens_eq_match, h, ← tokens_eq_match]

/-- **An error is the same with text behind a blank.** -/
theorem tokens_extend_of_error (hc : Text.isBlank c = true) (b : List Char) {x : SyntaxError}
    (h : s.tokens = .error x) : (s.extend (c :: b)).tokens = .error x := by
  fun_induction Scanner.tokens s with
  | case1 s e s' hnext =>
    cases h
    have hfinish : Scanned.isFinish s.next.1 = false := by
      rw [hnext]
      rfl
    rw [tokens_eq_match, next_extend hc b hfinish, hnext]
  | case2 s t s' hnext hi =>
    cases h
    have hf : t.kind ≠ .finish := by simp [hi]
    exact tokens_of_next_invalid (next_extend_of_kind_ne hc b hnext hf) hi
  | case3 s t s' hnext hi hf => cases h
  | case4 s t s' hnext hi hf hlt ih =>
    rw [tokens_of_next (next_extend_of_kind_ne hc b hnext hf) hi hf]
    rw [ih (map_eq_error_iff.1 h)]
    rfl

/-- **Behind the tokens of a text, in front of its end, come those of the text behind a
    blank.** -/
theorem tokens_extend_of_ok (hc : Text.isBlank c = true) (b : List Char) {ts : List Token}
    (hs : s.At cs) (h : s.tokens = .ok ts) :
    ∃ us, ts = us ++ [.finish cs.length] ∧
      (s.extend (c :: b)).tokens = (⟨cs.length + 1, b⟩ : Scanner).tokens.map (us ++ ·) := by
  fun_induction Scanner.tokens s generalizing ts with
  | case1 s e s' hnext => cases h
  | case2 s t s' hnext hi => cases h
  | case3 s t s' hnext hi hf =>
    cases h
    have hfinish : Scanned.isFinish s.next.1 = true := by
      rw [hnext]
      simpa [Scanned.isFinish, Token.isFinish] using hf
    have hend := (covers_next hs).eq_finish hfinish
    rw [hnext] at hend
    cases hend
    refine ⟨[], rfl, ?_⟩
    rw [tokens_congr (next_extend_of_isFinish hc b hs hfinish)]
    exact (congrFun Except.map_id _).symm
  | case4 s t s' hnext hi hf hlt ih =>
    have hs' : s'.At cs := by
      have hbehind := (covers_next hs).behind
      rw [hnext] at hbehind
      exact hbehind
    rw [tokens_of_next (next_extend_of_kind_ne hc b hnext hf) hi hf]
    obtain ⟨us, hts, rfl⟩ := map_eq_ok_iff.1 h
    obtain ⟨vs, rfl, htokens⟩ := ih hs' hts
    refine ⟨t :: vs, rfl, ?_⟩
    rw [htokens]
    cases (⟨cs.length + 1, b⟩ : Scanner).tokens <;> rfl

/-- **The tokens of a text that stands further to the right are moved,** and so is its
    error. -/
theorem tokens_shift (k : Nat) (s : Scanner) :
    (s.shift k).tokens = (s.tokens.map (List.map (Token.shift k))).mapError (.shift k) := by
  fun_induction Scanner.tokens s with
  | case1 s e s' hnext =>
    rw [tokens_eq_match, next_shift, hnext]
    rfl
  | case2 s t s' hnext hi =>
    have hshift := next_shift k s
    rw [hnext] at hshift
    exact tokens_of_next_invalid hshift hi
  | case3 s t s' hnext hi hf =>
    have hshift := next_shift k s
    rw [hnext] at hshift
    exact tokens_of_next_finish hshift hf
  | case4 s t s' hnext hi hf hlt ih =>
    have hshift := next_shift k s
    rw [hnext] at hshift
    rw [tokens_of_next hshift hi hf, ih]
    cases s'.tokens <;> rfl

end Scanner

/-! ## Two strings with a blank between them -/

/-- **A blank separates: the tokens of two strings with a blank between them are those of the
    first without its end, and behind them those of the second, moved** by the characters in
    front of it. If the second has none, its error is moved, and if the first has none, its
    error stays as it is, whatever comes behind the blank. -/
theorem tokenize_append_blank (a b : String) {c : Char} (hc : Text.isBlank c = true) :
    (∀ ts, tokenize a = .ok ts → ∃ us, ts = us ++ [.finish a.length] ∧
        ((∃ vs, tokenize (a ++ String.singleton c ++ b) = .ok vs) ↔ ∃ vs, tokenize b = .ok vs) ∧
        (∀ vs, tokenize b = .ok vs → tokenize (a ++ String.singleton c ++ b) =
          .ok (us ++ vs.map (.shift (a.length + 1)))) ∧
        ∀ x, tokenize b = .error x →
          tokenize (a ++ String.singleton c ++ b) = .error (x.shift (a.length + 1))) ∧
      ∀ x, tokenize a = .error x → tokenize (a ++ String.singleton c ++ b) = .error x := by
  have hjoined : Scanner.ofString (a ++ String.singleton c ++ b) =
      (Scanner.ofString a).extend (c :: b.toList) := by
    simp [Scanner.ofString, Scanner.extend]
  have hbehind : (⟨a.toList.length + 1, b.toList⟩ : Scanner) =
      (Scanner.ofString b).shift (a.length + 1) := by
    simp [Scanner.ofString, Scanner.shift, String.length_toList]
  simp only [tokenize, hjoined]
  refine ⟨fun ts hts => ?_, fun x hx => Scanner.tokens_extend_of_error hc b.toList hx⟩
  obtain ⟨us, rfl, htokens⟩ :=
    Scanner.tokens_extend_of_ok hc b.toList (Scanner.at_ofString a) hts
  rw [hbehind, Scanner.tokens_shift] at htokens
  rw [htokens, String.length_toList]
  refine ⟨us, rfl, ?_, ?_, ?_⟩
  · cases (Scanner.ofString b).tokens with
    | ok vs => exact ⟨fun _ => ⟨vs, rfl⟩, fun _ => ⟨_, rfl⟩⟩
    | error x =>
      constructor
      · rintro ⟨vs, hvs⟩
        cases hvs
      · rintro ⟨vs, hvs⟩
        cases hvs
  · intro vs hvs
    rw [hvs]
    rfl
  · intro x hx
    rw [hx]
    rfl

/-- A number and a lone point, in either order, with an ideographic space between them. -/
theorem tokenize_append_ideographicSpace :
    tokenize "2\u30002" =
        .ok [Scanner.token 0 .number ['2'], Scanner.token 2 .number ['2'], .finish 3] ∧
      tokenize "2\u3000." = .error ⟨.malformedNumber ".", ⟨2, 3⟩⟩ ∧
      tokenize ".\u30002" = .error ⟨.malformedNumber ".", ⟨0, 1⟩⟩ := by
  have hc : Text.isBlank '\u3000' = true := by decide
  have hnumber : tokenize "2" = .ok [Scanner.token 0 .number ['2'], .finish 1] := by
    have hscans := (Scanner.Scans.digits (c := '2') (w := []) rfl (by simp) .nil 0).tokens_eq
    rw [List.append_nil, Scanner.tokens_nil] at hscans
    exact hscans
  have hpoint : tokenize "." = .error ⟨.malformedNumber ".", ⟨0, 1⟩⟩ := by
    rw [tokenize, Scanner.tokens_eq_match]
    rfl
  obtain ⟨us, hus, -, hok, -⟩ := (tokenize_append_blank "2" "2" hc).1 _ hnumber
  obtain ⟨-, -, -, -, herror⟩ := (tokenize_append_blank "2" "." hc).1 _ hnumber
  have hus' : [Scanner.token 0 .number ['2']] ++ [.finish 1] = us ++ [.finish 1] := hus
  obtain rfl := List.append_cancel_right hus'
  exact ⟨hok _ hnumber, herror _ hpoint, (tokenize_append_blank "." "2" hc).2 _ hpoint⟩

end Reckon
