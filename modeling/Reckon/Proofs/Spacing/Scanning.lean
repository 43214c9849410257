/-
  Scanning a text with more blanks in it.

  * `Text.splice p w s` is the text `s` with `w` put in at the offset `p`, and
    `Span.spaced` is where a span of `s` is then;
  * `Piece.exists_splice`: blanks that are put between the lexemes of some pieces
    leave pieces with the same lexemes, each at its new place;
  * `tokenize_splice`: so the tokens of a text with more blanks between them are the
    old ones, moved.
-/
import Reckon.Proofs.Factorisation
import Reckon.Proofs.Spacing.Reading

namespace Reckon

/-- A text with `w` put in at the offset `p`. -/
def Text.spliceChars (p : Nat) (w cs : List Char) : List Char := cs.take p ++ w ++ cs.drop p

/-- A string with another one put in at the offset `p`. -/
def Text.splice (p : Nat) (w s : String) : String :=
  String.ofList (spliceChars p w.toList s.toList)

/-- The place of a span after `k` characters were put in at the offset `p`. -/
def Span.spaced (p k : Nat) (s : Span) : Span := if p ≤ s.start then s.shift k else s

variable {p k n : Nat} {w u v cs last : List Char} {ps : List Piece}

namespace Text

theorem length_spliceChars (p : Nat) (w cs : List Char) :
    (spliceChars p w cs).length = cs.length + w.length := by
  simp only [spliceChars, List.length_append, List.length_take, List.length_drop]
  omega

theorem spliceChars_append_of_le (h : p ≤ u.length) (w v : List Char) :
    spliceChars p w (u ++ v) = spliceChars p w u ++ v := by
  simp [spliceChars, List.take_append_of_le_length h, List.drop_append_of_le_length h]

theorem spliceChars_length_add (u w v : List Char) (p : Nat) :
    spliceChars (u.length + p) w (u ++ v) = u ++ spliceChars p w v := by
  simp [spliceChars, List.take_length_add_append, List.drop_length_add_append]

theorem mem_spliceChars {c : Char} (h : c ∈ spliceChars p w cs) : c ∈ w ∨ c ∈ cs := by
  simp only [spliceChars, List.mem_append] at h
  rcases h with (h | h) | h
  · exact Or.inr (List.mem_of_mem_take h)
  · exact Or.inl h
  · exact Or.inr (List.mem_of_mem_drop h)

theorem isBlank_spliceChars (hw : ∀ c ∈ w, isBlank c = true) (hcs : ∀ c ∈ cs, isBlank c = true) :
    ∀ c ∈ spliceChars p w cs, isBlank c = true :=
  fun c hc => (mem_spliceChars hc).elim (hw c) (hcs c)

end Text

/-- A text that does not go on with a class, does not with characters put in that
    are none of it. -/
theorem Stops.spliceChars {q : Char → Bool} (h : Stops q cs) (hw : ∀ c ∈ w, q c = false) :
    Stops q (Text.spliceChars p w cs) := by
  cases w with
  | nil => simpa [Text.spliceChars] using h
  | cons d w =>
    have hd : q d = false := hw d (by simp)
    cases p with
    | zero => exact .cons hd
    | succ p =>
      cases cs with
      | nil => exact .cons hd
      | cons c cs => exact .cons (h c rfl)

theorem Lexeme.isNumberChar_of_isBlank {c : Char} (h : Text.isBlank c = true) :
    isNumberChar c = false := by
  have hdigit : c.isDigit = false :=
    Bool.eq_false_iff.2 fun hc => by simp [Text.isBlank_of_isDigit hc] at h
  have hpoint : c ≠ '.' := by
    rintro rfl
    cases h
  simp [isNumberChar, hdigit, hpoint]

theorem Lexeme.isWordChar_of_isBlank {c : Char} (h : Text.isBlank c = true) :
    isWordChar c = false := by
  have hdigit : c.isDigit = false :=
    Bool.eq_false_iff.2 fun hc => by simp [Text.isBlank_of_isDigit hc] at h
  have halpha : c.isAlpha = false :=
    Bool.eq_false_iff.2 fun hc => by simp [Text.isBlank_of_isAlpha hc] at h
  have hline : c ≠ '_' := by
    rintro rfl
    cases h
  simp [isWordChar, Char.isAlphanum, hdigit, halpha, hline]

/-- No lexeme goes on with a blank. -/
theorem goesOn_of_isBlank {c : Char} (h : Text.isBlank c = true) (kind : TokenKind) :
    goesOn kind c = false := by
  cases kind with
  | number => exact Lexeme.isNumberChar_of_isBlank h
  | function f => exact Lexeme.isWordChar_of_isBlank h
  | _ => rfl

namespace Span

theorem spaced_of_le {s : Span} (h : p ≤ s.start) : s.spaced p k = s.shift k := if_pos h

theorem spaced_of_lt {s : Span} (h : s.start < p) : s.spaced p k = s := if_neg (by omega)

end Span

namespace Scanner

variable {kind : TokenKind} {text : List Char}

theorem token_spaced_of_le (h : p ≤ n) :
    (token n kind text).mapSpan (.spaced p k) = token (n + k) kind text := by
  simp only [Token.mapSpan, token, Span.spaced_of_le (s := ⟨n, n + text.length⟩) h, Span.shift,
    Nat.add_right_comm]

theorem token_spaced_of_lt (h : n < p) :
    (token n kind text).mapSpan (.spaced p k) = token n kind text := by
  simp only [Token.mapSpan, token, Span.spaced_of_lt (s := ⟨n, n + text.length⟩) h]

end Scanner

theorem Token.finish_spaced (h : p ≤ n) :
    (finish n).mapSpan (.spaced p k) = finish (n + k) := by
  simp only [mapSpan, finish, Span.spaced_of_le (s := .point n) h]
  rfl

namespace Piece

/-- Tokens behind the offset are all moved. -/
theorem tokens_add (h : p ≤ n) (k : Nat) (ps : List Piece) :
    tokens (n + k) ps = (tokens n ps).map (.mapSpan (.spaced p k)) := by
  induction ps generalizing n with
  | nil => rfl
  | cons q ps ih =>
    have hle : p ≤ n + q.blanks.length := by omega
    rw [tokens, tokens, List.map_cons, Scanner.token_spaced_of_le hle, ← ih (by omega),
      Nat.add_right_comm n k, Nat.add_right_comm _ k]

/-- **Blanks between lexemes only move them.** -/
theorem exists_splice (hw : ∀ c ∈ w, Text.isBlank c = true)
    (hlast : ∀ c ∈ last, Text.isBlank c = true) (hps : Apart last ps)
    (hp : p ≤ (spelling last ps).length)
    (hout : ∀ t ∈ tokens n ps, ¬ (t.span.start < n + p ∧ n + p < t.span.stop)) :
    ∃ qs last', (∀ c ∈ last', Text.isBlank c = true) ∧ Apart last' qs ∧
      spelling last' qs = Text.spliceChars p w (spelling last ps) ∧
      tokens n qs = (tokens n ps).map (.mapSpan (.spaced (n + p) w.length)) := by
  induction ps generalizing n p with
  | nil => exact ⟨[], _, Text.isBlank_spliceChars hw hlast, trivial, rfl, rfl⟩
  | cons q ps ih =>
    obtain ⟨hstop, hps⟩ := hps
    rcases Nat.lt_or_ge q.blanks.length p with hlt | hle
    · -- The offset is behind the first lexeme, as it is not inside of it.
      have hq : ¬ (n + q.blanks.length < n + p ∧ n + p < n + q.blanks.length + q.text.length) :=
        hout _ List.mem_cons_self
      have hle : (q.blanks ++ q.text).length ≤ p := by
        rw [List.length_append]
        omega
      obtain ⟨p', rfl⟩ := Nat.exists_eq_add_of_le hle
      have hn : n + ((q.blanks ++ q.text).length + p') =
          n + q.blanks.length + q.text.length + p' := by
        rw [List.length_append]
        omega
      have hp' : p' ≤ (spelling last ps).length := by
        simp only [spelling, List.length_append] at hp
        omega
      rw [hn] at hout ⊢
      obtain ⟨qs, last', hlast', hqs, hspell, htokens⟩ :=
        ih hps hp' fun t ht => hout t (List.mem_cons_of_mem _ ht)
      refine ⟨q :: qs, last', hlast', ⟨?_, hqs⟩, ?_, ?_⟩
      · rw [hspell]
        exact hstop.spliceChars fun c hc => goesOn_of_isBlank (hw c hc) _
      · rw [spelling, hspell, spelling, Text.spliceChars_length_add]
      · rw [tokens, tokens, htokens, List.map_cons, Scanner.token_spaced_of_lt (by omega)]
    · -- The offset is within the first blanks, which take up the new ones.
      refine ⟨⟨Text.spliceChars p w q.blanks, q.kind, q.text, Text.isBlank_spliceChars hw q.isBlank,
        q.isLexeme⟩ :: ps, last, hlast, ⟨hstop, hps⟩, ?_, ?_⟩
      · simp only [spelling, List.append_assoc, Text.spliceChars_append_of_le hle]
      · have hlen : n + (Text.spliceChars p w q.blanks).length =
            n + q.blanks.length + w.length := by
          rw [Text.length_spliceChars, Nat.add_assoc]
        have hfirst : n + p ≤ n + q.blanks.length := by omega
        rw [tokens, tokens, hlen, List.map_cons, Scanner.token_spaced_of_le hfirst,
          Nat.add_right_comm _ w.length, tokens_add (hfirst.trans (Nat.le_add_right _ _))]

end Piece

/-- **The tokens of a text with more blanks between them are the old ones, moved.** -/
theorem tokenize_splice {s w : String} {ts : List Token}
    (hw : ∀ c ∈ w.toList, Text.isBlank c = true) (hts : tokenize s = .ok ts)
    (hp : p ≤ s.length) (hout : ∀ t ∈ ts, ¬ (t.span.start < p ∧ p < t.span.stop)) :
    tokenize (Text.splice p w s) = .ok (ts.map (.mapSpan (.spaced p w.length))) := by
  rw [← String.length_toList] at hp ⊢
  obtain ⟨ps, last, hlast, hps, hspell, rfl⟩ := Scanner.exists_pieces hts
  simp only [Scanner.ofString, Nat.zero_add] at hspell hout ⊢
  have hps' : ∀ t ∈ Piece.tokens 0 ps, ¬ (t.span.start < 0 + p ∧ 0 + p < t.span.stop) := by
    intro t ht
    rw [Nat.zero_add]
    exact hout t (List.mem_append_left _ ht)
  obtain ⟨qs, last', hlast', hqs, hspell', htokens⟩ :=
    Piece.exists_splice hw hlast hps (hspell ▸ hp) hps'
  have hspliced : Piece.spelling last' qs = (Text.splice p w s).toList := by
    rw [hspell', hspell, Text.splice, String.toList_ofList]
  have hfinish : (Text.splice p w s).toList.length = s.toList.length + w.toList.length := by
    rw [Text.splice, String.toList_ofList, Text.length_spliceChars]
  rw [Factorisation.scanned ⟨qs, last', hlast', hqs, hspliced⟩, Factorisation.tokens, htokens,
    hfinish, Nat.zero_add, List.map_append, List.map_singleton, Token.finish_spaced hp]

end Reckon
