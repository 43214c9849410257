/-
  The places of tokens in their text.

  * `Span.slice` is the piece of a text that a span covers, and `Span.Holds` says
    that a span is not empty, lies in the text, and covers this piece;
  * `Scanner.At cs s`: the scanner `s` has gone through a part of the text `cs`;
  * `Scanner.holds_token` and `Scanner.holds_error`: the next token, unless it is the
    end, or the next error covers the piece of text that it shows;
  * `Scanner.placed_of_tokens` and `Scanner.holds_of_tokens`: so do all tokens of a
    text, and the error of a text that has none.
-/
import Reckon.Proofs.Lexemes
import Reckon.Proofs.Place.Reading

namespace Reckon

/-- The piece of a text that a span covers. -/
def Span.slice (cs : List Char) (p : Span) : List Char := (cs.drop p.start).take p.length

/-- A span that is not empty, lies in a text, and covers this piece of it. -/
structure Span.Holds (cs : List Char) (p : Span) (w : List Char) : Prop where
  lt : p.start < p.stop
  le : p.stop ≤ cs.length
  slice : p.slice cs = w

variable {cs u w v : List Char} {x : SyntaxError} {t : Token}

theorem Span.slice_append (h : cs = u ++ (w ++ v)) :
    Span.slice cs ⟨u.length, u.length + w.length⟩ = w := by
  subst h
  simp [slice, length]

theorem Span.holds_append (hw : w ≠ []) (h : cs = u ++ (w ++ v)) :
    Span.Holds cs ⟨u.length, u.length + w.length⟩ w := by
  have hpos := List.length_pos_iff.2 hw
  refine ⟨?_, ?_, slice_append h⟩
  · dsimp only
    omega
  · simp only [h, List.length_append]
    omega

namespace Scanner

variable {s s' : Scanner} {ts : List Token}

/-- A scanner that has gone through a part of a text. -/
def At (cs : List Char) (s : Scanner) : Prop := ∃ u, cs = u ++ s.rest ∧ u.length = s.position

theorem at_ofString (text : String) : (ofString text).At text.toList := ⟨[], rfl, rfl⟩

/-- What the next piece of a text is, with the text in front of it. -/
theorem At.next (h : s.At cs) :
    (∃ n, cs.length = n ∧ s.next = (.ok (.finish n), ⟨n, []⟩)) ∨
      ∃ u c ds, cs = u ++ c :: ds ∧ s.next = ofLexeme u.length (.first c ds) := by
  obtain ⟨u, hu, hlen⟩ := h
  rcases next_cases s with ⟨-, heq⟩ | ⟨b, c, ds, -, -, hrest, heq⟩
  · refine Or.inl ⟨_, ?_, heq⟩
    rw [hu, List.length_append, hlen]
  · refine Or.inr ⟨u ++ b, c, ds, ?_, ?_⟩
    · rw [hu, hrest, List.append_assoc]
    · rw [heq, List.length_append, hlen]

/-- The next token covers its text, unless it is the end, and leaves the scanner
    behind it. -/
theorem holds_token (h : s.At cs) (hn : s.next = (.ok t, s')) :
    t = .finish cs.length ∨
      t.isFinish = false ∧ t.span.Holds cs t.text.toList ∧ s'.At cs := by
  rcases h.next with ⟨n, hlen, heq⟩ | ⟨u, c, ds, hcs, heq⟩
  · rw [heq] at hn
    cases hn
    exact Or.inl (by rw [hlen])
  · have happend := Lexeme.taken_append_rest c ds
    have hne := Lexeme.taken_ne_nil c ds
    rw [heq] at hn
    cases hl : Lexeme.first c ds with
    | lonePoint rest | secondPoint w rest =>
      rw [hl] at hn
      cases hn
    | piece kind w rest =>
      rw [hl, Lexeme.taken, Lexeme.rest] at happend
      rw [hl, Lexeme.taken] at hne
      rw [hl] at hn
      cases hn
      rw [← happend] at hcs
      have hkind := Lexeme.kind_ne_finish hl
      refine Or.inr ⟨by simpa [Token.isFinish] using hkind, ?_, u ++ w, ?_, by simp⟩
      · simpa using Span.holds_append hne hcs
      · rw [hcs, List.append_assoc]

/-- An error covers the piece of text that it shows. -/
theorem holds_error (h : s.At cs) (hn : s.next = (.error x, s')) :
    ∃ w, x.problem.shown? = some (String.ofList w) ∧ x.span.Holds cs w := by
  rcases h.next with ⟨n, -, heq⟩ | ⟨u, c, ds, hcs, heq⟩
  · rw [heq] at hn
    cases hn
  · have happend := Lexeme.taken_append_rest c ds
    rw [heq] at hn
    cases hl : Lexeme.first c ds with
    | piece kind w rest =>
      rw [hl] at hn
      cases hn
    | lonePoint rest =>
      rw [hl] at hn happend
      cases hn
      rw [← happend] at hcs
      exact ⟨['.'], rfl, Span.holds_append (w := ['.']) (by simp) hcs⟩
    | secondPoint w rest =>
      -- The second point is shown although it is left.
      obtain ⟨more, rfl⟩ := Lexeme.exists_rest_of_secondPoint hl
      rw [hl] at hn happend
      cases hn
      have hcs' : cs = u ++ ((w ++ ['.']) ++ more) := by
        rw [hcs, ← happend]
        simp [Lexeme.taken, Lexeme.rest]
      have hspan := Span.holds_append (by simp) hcs'
      refine ⟨w ++ ['.'], rfl, ?_⟩
      simpa [Nat.add_assoc] using hspan

/-- **The tokens of a text cover their texts,** and the first end among them stands
    where the text ends. -/
theorem placed_of_tokens (h : s.At cs) (hs : s.tokens = .ok ts) :
    (∀ t ∈ ts, t.isFinish = false → t.span.Holds cs t.text.toList) ∧
      ts.find? Token.isFinish = some (.finish cs.length) := by
  fun_induction Scanner.tokens s generalizing ts with
  | case1 s e s' hn => cases hs
  | case2 s t s' hn hi => cases hs
  | case3 s t s' hn hi hf =>
    cases hs
    rcases holds_token h hn with rfl | ⟨hno, -, -⟩
    · refine ⟨?_, rfl⟩
      intro t ht hno
      rw [List.mem_singleton.1 ht] at hno
      cases hno
    · simp [Token.isFinish, hf] at hno
  | case4 s t s' hn hi hf hlt ih =>
    rcases holds_token h hn with rfl | ⟨hno, hspan, hs'⟩
    · exact absurd rfl hf
    · obtain ⟨us, hts, rfl⟩ := map_eq_ok_iff.1 hs
      obtain ⟨hall, hfind⟩ := ih hs' hts
      refine ⟨?_, ?_⟩
      · intro t' ht' hno'
        rcases List.mem_cons.1 ht' with rfl | ht'
        · exact hspan
        · exact hall t' ht' hno'
      · rw [List.find?_cons_of_neg (by simp [hno]), hfind]

/-- **The error of a text covers the piece of text that it shows.** -/
theorem holds_of_tokens (h : s.At cs) (hs : s.tokens = .error x) :
    ∃ w, x.problem.shown? = some (String.ofList w) ∧ x.span.Holds cs w := by
  fun_induction Scanner.tokens s with
  | case1 s e s' hn =>
    cases hs
    exact holds_error h hn
  | case2 s t s' hn hi =>
    cases hs
    rcases holds_token h hn with rfl | ⟨-, hspan, -⟩
    · cases hi
    · exact ⟨t.text.toList, by simp [SyntaxProblem.shown?], hspan⟩
  | case3 s t s' hn hi hf => cases hs
  | case4 s t s' hn hi hf hlt ih =>
    rcases holds_token h hn with rfl | ⟨-, -, hs'⟩
    · exact absurd rfl hf
    · exact ih hs' (map_eq_error_iff.1 hs)

end Scanner

end Reckon
