/-
  Texts as blanks and lexemes.

  * `Piece` is a lexeme with the blanks in front of it, and `Factorisation cs` a way
    to write the text `cs` as such pieces and blanks at the end, where no lexeme
    goes on in what follows it;
  * `Factorisation.tokens` are the tokens of its lexemes, each at its place, and the
    end;
  * `Scanner.exists_pieces` and `Factorisation.scanned`: a text is cut into
    tokens exactly if it has a factorisation, and then they are its tokens;
  * `Factorisation.eq`: no text has two.
-/
import Reckon.Proofs.Number

namespace Reckon

/-- A lexeme and the blanks in front of it. -/
@[ext]
structure Piece where
  blanks : List Char
  kind : TokenKind
  text : List Char
  isBlank : ∀ c ∈ blanks, Text.isBlank c = true
  isLexeme : IsLexeme kind text

namespace Piece

/-- The text of some pieces with more text behind them. -/
def spelling (last : List Char) : List Piece → List Char
  | [] => last
  | p :: ps => p.blanks ++ p.text ++ spelling last ps

/-- No lexeme goes on in what follows it. -/
def Apart (last : List Char) : List Piece → Prop
  | [] => True
  | p :: ps => Stops (goesOn p.kind) (spelling last ps) ∧ Apart last ps

/-- The tokens of pieces that start at an offset. -/
def tokens (n : Nat) : List Piece → List Token
  | [] => []
  | p :: ps =>
    Scanner.token (n + p.blanks.length) p.kind p.text ::
      tokens (n + p.blanks.length + p.text.length) ps

theorem exists_of_mem_tokens {n : Nat} {ps : List Piece} {t : Token} (h : t ∈ tokens n ps) :
    ∃ m kind text, t = Scanner.token m kind text := by
  induction ps generalizing n with
  | nil => cases h
  | cons p ps ih =>
    rcases List.mem_cons.1 h with rfl | h
    · exact ⟨_, _, _, rfl⟩
    · exact ih h

end Piece

/-- A way to write a text as blanks and lexemes. -/
structure Factorisation (cs : List Char) where
  pieces : List Piece
  /-- The blanks behind the last lexeme. -/
  last : List Char
  isBlank_last : ∀ c ∈ last, Text.isBlank c = true
  apart : Piece.Apart last pieces
  spelling_eq : Piece.spelling last pieces = cs

/-- The tokens of a text with this factorisation. -/
def Factorisation.tokens {cs : List Char} (F : Factorisation cs) : List Token :=
  Piece.tokens 0 F.pieces ++ [.finish cs.length]

variable {cs last : List Char} {ps qs : List Piece} {n : Nat}

/-! ## What is scanned -/

theorem Text.isBlank_space : ∀ c ∈ [' '], isBlank c = true := by
  intro c hc
  rw [List.mem_singleton.1 hc]
  rfl

namespace Scanner

/-- The value of a token is a number and has no sign. -/
theorem unsigned_value (n : Nat) (kind : TokenKind) (text : List Char) :
    Double.Unsigned (token n kind text).value := by
  rw [token]
  dsimp only
  split
  · exact Number.unsigned_read text
  · exact Number.unsigned_zero

theorem Scans.blanks {b : List Char} (hb : ∀ c ∈ b, Text.isBlank c = true) {t : Token}
    {ts : List Token} {s : Scanner} (h : Scans ⟨n + b.length, cs⟩ (t :: ts) s) :
    Scans ⟨n, b ++ cs⟩ (t :: ts) s := by
  cases h with
  | cons h hi hf hs => exact .cons ((next_append_blanks hb n cs).trans h) hi hf hs

/-- A lexeme that ends where it stands is one token. -/
theorem Scans.lexeme {kind : TokenKind} {w : List Char} (h : IsLexeme kind w)
    (hcs : Stops (goesOn kind) cs) (n : Nat) :
    Scans ⟨n, w ++ cs⟩ [token n kind w] ⟨n + w.length, cs⟩ := by
  obtain ⟨c, u, rfl, hc⟩ := Lexeme.exists_cons h
  obtain ⟨hi, hf⟩ := Lexeme.kind_ne h
  exact piece hc (Lexeme.first_of_isLexeme h hcs) hi hf n

theorem tokens_of_blank (h : ∀ c ∈ last, Text.isBlank c = true) (n : Nat) :
    (⟨n, last⟩ : Scanner).tokens = .ok [.finish (n + last.length)] := by
  have hnext := next_append_blanks h n []
  rw [List.append_nil] at hnext
  exact tokens_of_next_finish (t := .finish (n + last.length)) (hnext.trans rfl) rfl

/-- Pieces that are apart are scanned one by one. -/
theorem exists_scans (h : Piece.Apart last ps) (n : Nat) :
    ∃ m, Scans ⟨n, Piece.spelling last ps⟩ (Piece.tokens n ps) ⟨m, last⟩ ∧
      m + last.length = n + (Piece.spelling last ps).length := by
  induction ps generalizing n with
  | nil => exact ⟨n, .nil _, rfl⟩
  | cons p ps ih =>
    obtain ⟨hstop, hps⟩ := h
    obtain ⟨m, hs, hm⟩ := ih hps (n + p.blanks.length + p.text.length)
    refine ⟨m, ?_, ?_⟩
    · have hp := (Scans.lexeme p.isLexeme hstop (n + p.blanks.length)).append hs
      rw [Piece.spelling, List.append_assoc]
      exact hp.blanks p.isBlank
    · simp only [Piece.spelling, List.length_append]
      omega

/-! ## What scanning finds -/

/-- The next token is the end, or it is that of a piece. -/
theorem exists_piece_of_next {s s' : Scanner} {t : Token} (h : s.next = (.ok t, s'))
    (hi : t.kind ≠ .invalid) :
    (t = .finish (s.position + s.rest.length) ∧ ∀ c ∈ s.rest, Text.isBlank c = true) ∨
      ∃ (p : Piece) (rest : List Char), s.rest = p.blanks ++ p.text ++ rest ∧
        Stops (goesOn p.kind) rest ∧ t = token (s.position + p.blanks.length) p.kind p.text ∧
        s' = ⟨s.position + p.blanks.length + p.text.length, rest⟩ := by
  rcases next_cases s with ⟨hblank, heq⟩ | ⟨b, c, cs, hblank, -, hrest, heq⟩
  · rw [heq] at h
    cases h
    exact Or.inl ⟨rfl, hblank⟩
  · rw [heq] at h
    cases hfirst : Lexeme.first c cs with
    | lonePoint rest | secondPoint read rest => rw [hfirst] at h; cases h
    | piece kind text rest =>
      rw [hfirst] at h
      cases h
      obtain ⟨hlex, hstop⟩ := Lexeme.isLexeme_of_first hfirst hi
      have hcs := Lexeme.taken_append_rest c cs
      rw [hfirst, Lexeme.taken, Lexeme.rest] at hcs
      refine Or.inr ⟨⟨b, kind, text, hblank, hlex⟩, rest, ?_, hstop, rfl, rfl⟩
      rw [List.append_assoc, hcs, hrest]

/-- **What is cut into tokens is blanks and lexemes.** -/
theorem exists_pieces {s : Scanner} {ts : List Token} (h : s.tokens = .ok ts) :
    ∃ ps last, (∀ c ∈ last, Text.isBlank c = true) ∧ Piece.Apart last ps ∧
      Piece.spelling last ps = s.rest ∧
      ts = Piece.tokens s.position ps ++ [.finish (s.position + s.rest.length)] := by
  fun_induction Scanner.tokens s generalizing ts with
  | case1 s e s' hnext => cases h
  | case2 s t s' hnext hi => cases h
  | case3 s t s' hnext hi hf =>
    cases h
    rcases exists_piece_of_next hnext hi with ⟨rfl, hblank⟩ | ⟨p, rest, -, -, rfl, -⟩
    · exact ⟨[], s.rest, hblank, trivial, rfl, rfl⟩
    · exact absurd hf (Lexeme.kind_ne p.isLexeme).2
  | case4 s t s' hnext hi hf hlt ih =>
    obtain ⟨us, hs', rfl⟩ := map_eq_ok_iff.1 h
    obtain ⟨ps, last, hlast, hps, hrest, rfl⟩ := ih hs'
    rcases exists_piece_of_next hnext hi with ⟨rfl, -⟩ | ⟨p, rest, hp, hstop, rfl, rfl⟩
    · exact absurd rfl hf
    · dsimp only at hrest
      refine ⟨p :: ps, last, hlast, ⟨by rw [hrest]; exact hstop, hps⟩, ?_, ?_⟩
      · rw [Piece.spelling, hrest, hp]
      · have hlen : s.position + s.rest.length =
            s.position + p.blanks.length + p.text.length + rest.length := by
          simp only [hp, List.length_append]
          omega
        rw [Piece.tokens, hlen]
        rfl

end Scanner

/-! ## One factorisation at most -/

namespace Piece

theorem spelling_cons (p : Piece) :
    spelling last (p :: ps) = p.blanks ++ (p.text ++ spelling last ps) := by
  rw [spelling, List.append_assoc]

/-- The first blanks and the first lexeme of a text are where they can be found. -/
theorem eq_of_append_eq {p q : Piece} {rest rest' : List Char}
    (hp : Stops (goesOn p.kind) rest) (hq : Stops (goesOn q.kind) rest')
    (h : p.blanks ++ (p.text ++ rest) = q.blanks ++ (q.text ++ rest')) :
    p = q ∧ rest = rest' := by
  obtain ⟨c, u, hu, hc⟩ := Lexeme.exists_cons p.isLexeme
  obtain ⟨d, v, hv, hd⟩ := Lexeme.exists_cons q.isLexeme
  have hstop : Stops Text.isBlank (p.text ++ rest) := by
    rw [hu]
    exact .cons hc
  have hstop' : Stops Text.isBlank (q.text ++ rest') := by
    rw [hv]
    exact .cons hd
  have hblanks : p.blanks = q.blanks := by
    have htake := congrArg (List.takeWhile Text.isBlank) h
    rwa [hstop.takeWhile_append p.isBlank, hstop'.takeWhile_append q.isBlank] at htake
  have htexts : p.text ++ rest = q.text ++ rest' := by
    rw [hblanks] at h
    exact List.append_cancel_left h
  -- The two lexemes begin with the same character, and scanning from it finds both.
  have hfirst := Lexeme.first_of_isLexeme (hu ▸ p.isLexeme) hp
  have hfirst' := Lexeme.first_of_isLexeme (hv ▸ q.isLexeme) hq
  rw [hu, hv, List.cons_append, List.cons_append] at htexts
  obtain ⟨rfl, htail⟩ := List.cons.inj htexts
  rw [htail, hfirst'] at hfirst
  simp only [Lexeme.piece.injEq] at hfirst
  obtain ⟨hkind, htext, hrest⟩ := hfirst
  exact ⟨Piece.ext hblanks hkind.symm (by rw [hu, hv, htext]), hrest.symm⟩

theorem eq_of_spelling_eq {last' : List Char} (hlast : ∀ c ∈ last, Text.isBlank c = true)
    (hlast' : ∀ c ∈ last', Text.isBlank c = true) (hps : Apart last ps) (hqs : Apart last' qs)
    (h : spelling last ps = spelling last' qs) : ps = qs ∧ last = last' := by
  -- A lexeme does not begin with a blank.
  have hblank : ∀ (p : Piece) (l : List Char) (rs : List Piece),
      ¬ ∀ c ∈ spelling l (p :: rs), Text.isBlank c = true := by
    intro p l rs hall
    obtain ⟨c, u, hu, hc⟩ := Lexeme.exists_cons p.isLexeme
    have hmem : c ∈ spelling l (p :: rs) := by simp [spelling, hu]
    rw [hall c hmem] at hc
    cases hc
  induction ps generalizing qs with
  | nil =>
    cases qs with
    | nil => exact ⟨rfl, h⟩
    | cons q qs => exact absurd (h ▸ hlast) (hblank q last' qs)
  | cons p ps ih =>
    cases qs with
    | nil => exact absurd (h ▸ hlast') (hblank p last ps)
    | cons q qs =>
      rw [spelling_cons, spelling_cons] at h
      obtain ⟨rfl, hrest⟩ := eq_of_append_eq hps.1 hqs.1 h
      obtain ⟨rfl, rfl⟩ := ih hps.2 hqs.2 hrest
      exact ⟨rfl, rfl⟩

end Piece

namespace Factorisation

/-- **A text has at most one factorisation.** -/
theorem eq (F G : Factorisation cs) : F = G := by
  obtain ⟨ps, last, hlast, hps, hspell⟩ := F
  obtain ⟨qs, last', hlast', hqs, hspell'⟩ := G
  obtain ⟨rfl, rfl⟩ := Piece.eq_of_spelling_eq hlast hlast' hps hqs (hspell.trans hspell'.symm)
  rfl

/-- **A text with a factorisation is cut into its tokens.** -/
theorem scanned {s : String} (F : Factorisation s.toList) : tokenize s = .ok F.tokens := by
  obtain ⟨m, hs, hm⟩ := Scanner.exists_scans F.apart 0
  rw [F.spelling_eq] at hs hm
  rw [tokenize, Scanner.ofString, hs.tokens_eq, Scanner.tokens_of_blank F.isBlank_last, hm,
    Nat.zero_add]
  rfl

theorem zero_le_value (F : Factorisation cs) : ∀ t ∈ F.tokens, 0 ≤ t.value := by
  intro t ht
  rcases List.mem_append.1 ht with ht | ht
  · obtain ⟨m, kind, text, rfl⟩ := Piece.exists_of_mem_tokens ht
    exact (Scanner.unsigned_value m kind text).zero_le
  · rw [List.mem_singleton.1 ht]
    exact Number.unsigned_zero.zero_le

end Factorisation

/-- **A text is cut into tokens exactly if it is blanks and lexemes none of which
    goes on in what follows it.** Its tokens are these lexemes, their values are not
    negative, and there is no other way to write it so. -/
theorem tokenize_eq_ok_iff (s : String) :
    (∀ ts, tokenize s = .ok ts ↔ ∃ F : Factorisation s.toList, ts = F.tokens) ∧
      (∀ F : Factorisation s.toList, ∀ t ∈ F.tokens, 0 ≤ t.value) ∧
      ∀ F G : Factorisation s.toList, F = G := by
  refine ⟨fun ts => ⟨fun h => ?_, ?_⟩, Factorisation.zero_le_value, Factorisation.eq⟩
  · obtain ⟨ps, last, hlast, hps, hspell, rfl⟩ := Scanner.exists_pieces h
    refine ⟨⟨ps, last, hlast, hps, hspell⟩, ?_⟩
    rw [Factorisation.tokens]
    simp [Scanner.ofString]
  · rintro ⟨F, rfl⟩
    exact F.scanned

/-- Two lexemes that stand side by side, and one with a blank in front of it. -/
def sineOfHalf : Factorisation "2sin .5".toList where
  pieces :=
    [⟨[], .number, ['2'], nofun, .whole (by simp) (by simp [IsDigits])⟩,
      ⟨[], .function .sin, ['s', 'i', 'n'], nofun, .function .sin⟩,
      ⟨[' '], .number, ['.', '5'], Text.isBlank_space, .fraction (by simp) (by simp [IsDigits])⟩]
  last := []
  isBlank_last := nofun
  apart := ⟨.cons rfl, .cons rfl, .nil, trivial⟩
  spelling_eq := rfl

theorem tokenize_sineOfHalf :
    tokenize "2sin .5" = .ok [Scanner.token 0 .number ['2'],
      Scanner.token 1 (.function .sin) ['s', 'i', 'n'], Scanner.token 5 .number ['.', '5'],
      .finish 7] ∧ 0 ≤ (Scanner.token 5 .number ['.', '5']).value := by
  obtain ⟨hok, hvalue, -⟩ := tokenize_eq_ok_iff "2sin .5"
  have hmem : Scanner.token 5 .number ['.', '5'] ∈ sineOfHalf.tokens := by
    simp [sineOfHalf, Factorisation.tokens, Piece.tokens]
  exact ⟨(hok _).2 ⟨sineOfHalf, rfl⟩, hvalue sineOfHalf _ hmem⟩

end Reckon
