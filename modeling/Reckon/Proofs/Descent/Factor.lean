/-
  What the production for a factor returns.

  Each production returns, sets the counter back, does what the reader does with the same
  tokens, and makes the same records.

  * `Follows p us`: no operator that a phrase of the kind `p` would have taken is ahead;
  * `Returns i p n us r`: how a production for the kind `p` may end that began before the
    tokens `us`, with `n` levels open: behind a derivation that the limit allows, with a record
    for each of its factors, or where the reader ends with the same error, with the same records;
  * `Leaves i p n us o`: what is left is the parser there, with `n` levels open again;
  * `Meets i f p rank us`: a production leaves that, whatever is open, and with any number of
    productions inside each other that is not too small;
  * `Closes i b n us r`: the same for a sum and the bracket behind it;
  * `meets_factor`: a factor is read so, if shorter factors and sums are, with one lemma for a
    sign, a group and a call.
-/
import Reckon.Proofs.Descent.Input

namespace Reckon

open Reader

variable {i : Input} {us rest : List Token} {t : Token} {n : Nat} {p : Phrase} {c : Chain}

/-- No operator that a phrase of a kind would have taken is ahead. -/
def Follows (p : Phrase) (us : List Token) : Prop :=
  ∀ t ∈ us.head?, ∀ op, BinaryOp.ofKind? t.kind = some op → op.precedence < p.precedence

theorem follows_factor (us : List Token) : Follows .factor us :=
  fun _ _ op _ => op.precedence_lt_factor

/-- Behind a sum there is no operator at all. -/
theorem Follows.ofKind? (h : Follows (.chain .sum) (t :: us)) : BinaryOp.ofKind? t.kind = none := by
  rw [Option.eq_none_iff_forall_not_mem]
  intro op hop
  exact absurd op.precedence_pos (Nat.not_lt.2 (Nat.le_of_lt_succ (h t rfl op hop)))

/-- How a production for a phrase of a kind may end that began before the tokens `us`, with `n`
    levels open: with an expression behind its tokens, and the records of its factors, or with the
    error and the records of the reader. -/
inductive Returns (i : Input) (p : Phrase) (n : Nat) (us : List Token) : Ending → Prop where
  | ok (d : Derivation p) {rest : List Token} (hus : us = d.tokens ++ rest)
      (hd : Within i.limit (n + d.cost)) (hrest : Follows p rest) :
      Returns i p n us ⟨.ok d.tree, rest, d.beginnings (i.index us)⟩
  | error {x : SyntaxError} {rest : List Token} {places : List Nat} (hrest : rest <:+ us)
      (hx : ∀ σ, Admits p σ → depth σ = n →
        i.ending ⟨.factor, σ⟩ us = ⟨.error x, rest, places⟩) :
      Returns i p n us ⟨.error x, rest, places⟩

/-- What a production leaves that began so is how it may end, with the counter set back. -/
abbrev Leaves (i : Input) (p : Phrase) (n : Nat) (us : List Token) (o : Option Outcome) : Prop :=
  ∃ r, o = some (i.outcome n r) ∧ Returns i p n us r

/-- A production leaves this wherever it begins before some tokens. As many productions inside
    each other are enough for it as there are six before each token, and `rank` before the first
    one. -/
def Meets (i : Input) (f : Nat → Parser → Option Outcome) (p : Phrase) (rank : Nat)
    (us : List Token) : Prop :=
  ∀ fuel n, 6 * us.length + rank ≤ fuel → Within i.limit n →
    Leaves i p n us (f fuel (i.standing us n))

/-- The production for a factor meets this, -/
abbrev MeetsFactor (i : Input) (us : List Token) : Prop := Meets i Parser.factor .factor 1 us

/-- and so does the production for a sum, which begins with five others. -/
abbrev MeetsSum (i : Input) (us : List Token) : Prop :=
  Meets i (Parser.chain .sum) (.chain .sum) 6 us

/-- A depth is within a limit, or the limit is less. -/
theorem within_or_lt (limit : Option Nat) (d : Nat) :
    Within limit d ∨ ∃ most, limit = some most ∧ most < d := by
  cases limit with
  | none => exact Or.inl (within_none d)
  | some most =>
    rcases Nat.lt_or_ge most d with h | h
    · exact Or.inr ⟨most, rfl, h⟩
    · exact Or.inl (within_some.2 h)

theorem Reader.Within.max {limit : Option Nat} {d d' : Nat} (h : Within limit d)
    (h' : Within limit d') : Within limit (max d d') :=
  fun most hl => Nat.max_le.2 ⟨h most hl, h' most hl⟩

/-! ## What the reader does at a token -/

section

variable {s s' : State}

/-- A token is taken whose depth is within the limit. -/
theorem ending_of_isStep (h : Step t s s') (hs : ∀ place, s.enter i.limit place = .ok ())
    (hw : Within i.limit s'.due) :
    i.ending s (t :: us) = (i.ending s' us).behind (i.begins s (t :: us)) :=
  Input.ending_cons_of_ok (hs _) (State.step_of_isStep_of_within h hw)

/-- A token fails whose depth is above the limit. -/
theorem ending_of_isStep_of_lt {most : Nat} (h : Step t s s')
    (hs : ∀ place, s.enter i.limit place = .ok ()) (hs' : s'.mode = .factor)
    (hl : i.limit = some most) (hlt : most < s'.due) :
    i.ending s (t :: us) =
      ⟨.error ⟨.nestingTooDeep most, t.span⟩, t :: us, i.begins s (t :: us)⟩ := by
  have hstep := State.step_of_isStep_of_lt h hs' hlt
  rw [← hl] at hstep
  exact Input.ending_cons_of_error (hs _) hstep

end

/-- Where a token would open one level too many, reading ends at that token. -/
theorem Returns.tooDeep {most : Nat} {o : Opening} (hl : i.limit = some most) (hlt : most < n + 1)
    (hstep : ∀ σ, Step t ⟨.factor, σ⟩ ⟨.factor, ⟨o, depth σ + 1⟩ :: σ⟩) :
    Returns i p n (t :: us)
      ⟨.error ⟨.nestingTooDeep most, t.span⟩, t :: us, [i.index (t :: us)]⟩ := by
  refine .error List.suffix_rfl fun σ _ hσ => ?_
  subst hσ
  exact ending_of_isStep_of_lt (hstep σ) (fun _ => rfl) rfl hl hlt

/-- Reading goes through a sum, and what is still open behind it closes to its expression. -/
theorem exists_ending_sum {σ : List Frame} (d : Derivation (.chain .sum))
    (hσ : Admits (.chain .sum) σ) (hd : Within i.limit (depth σ + d.cost))
    (htokens : us = d.tokens ++ rest) (hus : us <:+ i.before) : ∃ e τ,
    closeTighter 0 e τ = closeTighter 0 d.tree σ ∧
      i.ending ⟨.factor, σ⟩ us =
        (i.ending ⟨.complete e, τ⟩ rest).behind (d.beginnings (i.index us)) := by
  obtain ⟨e, τ, hreads⟩ := exists_reads d hσ
  refine ⟨e, τ, hreads.closes 0 (Phrase.precedence_pos _), ?_⟩
  rw [htokens] at hus ⊢
  exact hreads.ending hd hus

/-! ## Brackets -/

/-- What is wrong at a token where a bracket should be closed. -/
def Bracket.unclosed (shown : String) : Bracket → SyntaxProblem
  | group => .mismatchedParen shown
  | call _ => .expectedToken .rightParen shown

/-- What is wrong at the end of the input if a bracket is open. -/
def Bracket.unclosedAtEnd : Bracket → SyntaxProblem
  | group => .mismatchedParen "EOF"
  | call _ => .unexpectedEnd

section

variable {b : Bracket} {e v : Expr} {σ τ : List Frame} {m : Nat} {stop : Span}

theorem finish_of_unclosed (h : closeTighter 0 e τ = (v, ⟨.bracket b, m⟩ :: σ)) :
    State.finish stop ⟨.complete e, τ⟩ = .error ⟨b.unclosedAtEnd, stop⟩ := by
  cases b <;> simp only [State.finish, h] <;> rfl

theorem step_of_unclosed {limit : Option Nat} (hop : BinaryOp.ofKind? t.kind = none)
    (ht : t.kind ≠ .rightParen) (h : closeTighter 0 e τ = (v, ⟨.bracket b, m⟩ :: σ)) :
    State.step limit t ⟨.complete e, τ⟩ = .error ⟨b.unclosed t.shown, t.span⟩ := by
  change State.continueAfter limit t e τ = _
  unfold State.continueAfter
  rw [hop]
  dsimp only
  rw [h]
  cases hk : t.kind with
  | rightParen => exact absurd hk ht
  | _ => cases b <;> rfl

end

namespace Outcome

/-- Closes a bracket behind the sum in it. -/
def close (b : Bracket) (o : Outcome) : Outcome :=
  match b with
  | .group => o.closeGroup
  | .call f => o.closeCall f

variable (b : Bracket) {e : Expr} (places : List Nat)

theorem close_error {x : SyntaxError} : close b (i.outcome n ⟨.error x, rest, places⟩) =
    i.outcome n ⟨.error x, rest, places⟩ := by
  cases b <;> rfl

theorem close_nil : close b (i.outcome n ⟨.ok e, [], places⟩) =
    i.outcome n ⟨.error ⟨b.unclosedAtEnd, i.last.span⟩, [], places⟩ := by
  cases b with
  | group => simp [close, closeGroup, Input.outcome, Bracket.unclosedAtEnd]
  | call f =>
    simp [close, closeCall, Input.outcome, Bracket.unclosedAtEnd, Input.expect_standing_nil]

theorem close_rightParen (h : t :: us <:+ i.before) (ht : t.kind = .rightParen) :
    close b (i.outcome n ⟨.ok e, t :: us, places⟩) = i.outcome n ⟨.ok (b.close e), us, places⟩ := by
  cases b with
  | group => simp [close, closeGroup, Input.outcome, ht, Input.advance_standing h, Bracket.close]
  | call f => simp [close, closeCall, Input.outcome, Input.expect_standing h ht, Bracket.close]

theorem close_of_ne (h : t :: us <:+ i.before) (ht : t.kind ≠ .rightParen) :
    close b (i.outcome n ⟨.ok e, t :: us, places⟩) =
      i.outcome n ⟨.error ⟨b.unclosed t.shown, t.span⟩, t :: us, places⟩ := by
  cases b with
  | group => simp [close, closeGroup, Input.outcome, ht, Bracket.unclosed]
  | call f =>
    simp [close, closeCall, Input.outcome, Input.expect_standing_of_ne h ht, Bracket.unclosed]

end Outcome

/-- How a sum and the bracket behind it may end, with `n` levels open outside of the bracket:
    behind the bracket, or where the reader ends with the same error. -/
inductive Closes (i : Input) (b : Bracket) (n : Nat) (us : List Token) : Ending → Prop where
  | ok (d : Derivation (.chain .sum)) {r : Token} {rest : List Token} (hr : r.kind = .rightParen)
      (hus : us = d.tokens ++ r :: rest) (hd : Within i.limit (n + 1 + d.cost)) :
      Closes i b n us ⟨.ok (b.close d.tree), rest, d.beginnings (i.index us)⟩
  | error {x : SyntaxError} {rest : List Token} {places : List Nat} (hrest : rest <:+ us)
      (hx : ∀ σ, depth σ = n →
        i.ending ⟨.factor, ⟨.bracket b, depth σ + 1⟩ :: σ⟩ us = ⟨.error x, rest, places⟩) :
      Closes i b n us ⟨.error x, rest, places⟩

/-! ## Factors -/

section

variable {fuel : Nat} (h : t :: us <:+ i.before) (hfuel : 6 * us.length + 6 ≤ fuel)
include h hfuel

/-- A sign is taken, and then the factor behind it. -/
theorem returns_sign {sign : Sign} (ht : Sign.ofKind? t.kind = some sign)
    (ih : MeetsFactor i us) :
    Leaves i .factor n (t :: us) (Parser.factor (fuel + 1) (i.standing (t :: us) n)) := by
  have hstep : ∀ σ, Step t ⟨.factor, σ⟩ ⟨.factor, ⟨.sign sign, depth σ + 1⟩ :: σ⟩ :=
    fun σ => .sign rfl ht
  rw [Parser.factor, Input.entry_standing h]
  simp only [Input.current_standing_cons, ht]
  rcases within_or_lt i.limit (n + 1) with hw | ⟨most, hl, hlt⟩
  · obtain ⟨r, hrun, hret⟩ := ih fuel (n + 1) (by omega) hw
    rw [Input.descend_standing_of_within hw]
    dsimp only
    rw [Input.advance_standing h, hrun]
    refine ⟨⟨_, r.rest, i.index (t :: us) :: r.places⟩, rfl, ?_⟩
    cases hret with
    | ok d hus hd =>
      rw [Input.index_cons h]
      refine .ok (.signed sign t ht d) (by rw [hus]; rfl) ?_ (follows_factor _)
      rwa [Derivation.cost, ← Nat.add_assoc]
    | error hrest hx =>
      refine .error (hrest.trans (List.suffix_cons t us)) fun σ _ hσ => ?_
      subst hσ
      rw [ending_of_isStep (hstep σ) (fun _ => rfl) hw, hx _ (admits_factor _) rfl]
      rfl
  · rw [Input.descend_standing_of_lt hl hlt]
    exact ⟨_, rfl, .tooDeep hl hlt hstep⟩

omit h hfuel in
/-- Closing a bracket behind the sum in it. -/
theorem closes_of_returns (b : Bracket) {r : Ending} (hus : us <:+ i.before)
    (h : Returns i (.chain .sum) (n + 1) us r) :
    ∃ r', Outcome.close b (i.outcome n r) = i.outcome n r' ∧ Closes i b n us r' := by
  cases h with
  | error hrest hx =>
    refine ⟨_, Outcome.close_error b _, .error hrest fun σ hσ => ?_⟩
    exact hx _ trivial (by rw [← hσ]; rfl)
  | @ok d rest htokens hd hfollows =>
    -- Behind the sum, the reader has the bracket open and nothing else.
    have hopen : ∀ σ, depth σ = n → ∃ e τ,
        closeTighter 0 e τ = (d.tree, ⟨.bracket b, depth σ + 1⟩ :: σ) ∧
          i.ending ⟨.factor, ⟨.bracket b, depth σ + 1⟩ :: σ⟩ us =
            (i.ending ⟨.complete e, τ⟩ rest).behind (d.beginnings (i.index us)) := by
      rintro σ rfl
      exact exists_ending_sum (σ := ⟨.bracket b, depth σ + 1⟩ :: σ) d trivial hd htokens hus
    cases rest with
    | nil =>
      refine ⟨_, Outcome.close_nil b _, .error ⟨us, List.append_nil us⟩ fun σ hσ => ?_⟩
      obtain ⟨e, τ, hc, hending⟩ := hopen σ hσ
      rw [hending, Input.ending_nil rfl, finish_of_unclosed hc, Input.behind_complete]
    | cons r rest =>
      have hsuffix : r :: rest <:+ us := ⟨d.tokens, htokens.symm⟩
      by_cases hr : r.kind = .rightParen
      · exact ⟨_, Outcome.close_rightParen b _ (hsuffix.trans hus) hr, .ok d hr htokens hd⟩
      · refine ⟨_, Outcome.close_of_ne b _ (hsuffix.trans hus) hr,
          .error hsuffix fun σ hσ => ?_⟩
        obtain ⟨e, τ, hc, hending⟩ := hopen σ hσ
        have hfails : State.step i.limit r ⟨.complete e, τ⟩ = _ :=
          step_of_unclosed hfollows.ofKind? hr hc
        rw [hending, Input.ending_cons_of_error rfl hfails, Input.behind_complete]

/-- A group is taken up to its closing bracket. -/
theorem returns_group (ht : t.kind = .leftParen)
    (ih : MeetsSum i us) :
    Leaves i .factor n (t :: us) (Parser.factor (fuel + 1) (i.standing (t :: us) n)) := by
  have hstep : ∀ σ, Step t ⟨.factor, σ⟩ ⟨.factor, ⟨.bracket .group, depth σ + 1⟩ :: σ⟩ :=
    fun σ => .leftParen rfl ht
  rw [Parser.factor, Input.entry_standing h]
  simp only [Input.current_standing_cons, ht, Sign.ofKind?]
  rcases within_or_lt i.limit (n + 1) with hw | ⟨most, hl, hlt⟩
  · obtain ⟨r, hrun, hret⟩ := ih fuel (n + 1) (by omega) hw
    obtain ⟨r', hclose, hcloses⟩ := closes_of_returns .group (Input.suffix_of_cons h) hret
    rw [Input.descend_standing_of_within hw]
    dsimp only
    rw [Input.advance_standing h, hrun]
    refine ⟨r'.behind [i.index (t :: us)],
      congrArg (fun o : Outcome => some (o.behind [i.entry (i.index (t :: us))])) hclose, ?_⟩
    cases hcloses with
    | ok d hr hus hd =>
      rw [Input.index_cons h]
      refine .ok (.group t _ ht hr d) (by rw [hus]; simp [Derivation.tokens]) ?_ (follows_factor _)
      rwa [Derivation.cost, ← Nat.add_assoc]
    | error hrest hx =>
      refine .error (hrest.trans (List.suffix_cons t us)) fun σ _ hσ => ?_
      have hdue : Within i.limit (depth σ + 1) := by rwa [hσ]
      rw [ending_of_isStep (hstep σ) (fun _ => rfl) hdue, hx σ hσ]
      rfl
  · rw [Input.descend_standing_of_lt hl hlt]
    exact ⟨_, rfl, .tooDeep hl hlt hstep⟩

/-- The name of a function is taken, and its argument up to the closing bracket. -/
theorem returns_call {f : Function} (ht : t.kind = .function f) (hn : Within i.limit n)
    (ih : ∀ vs, vs <:+ i.before → vs.length < us.length → MeetsSum i vs) :
    Leaves i .factor n (t :: us) (Parser.factor (fuel + 1) (i.standing (t :: us) n)) := by
  have hus := Input.suffix_of_cons h
  have hname : ∀ σ, i.ending ⟨.factor, σ⟩ (t :: us) =
      (i.ending ⟨.name f, σ⟩ us).behind [i.index (t :: us)] :=
    fun σ => ending_of_isStep (.function rfl ht) (fun _ => rfl) (Within.mono hn (Nat.zero_le n))
  rw [Parser.factor, Input.entry_standing h]
  simp only [Input.current_standing_cons, ht, Sign.ofKind?]
  rw [Input.advance_standing h]
  cases us with
  | nil =>
    rw [Input.expect_standing_nil (by simp)]
    refine ⟨⟨_, [], [i.index [t]]⟩, rfl, .error ⟨[t], rfl⟩ fun σ _ _ => ?_⟩
    rw [hname, Input.ending_nil rfl]
    rfl
  | cons l vs =>
    by_cases hl : l.kind = .leftParen
    · rw [Input.expect_standing hus hl]
      dsimp only
      have hopen : ∀ σ, i.ending ⟨.factor, σ⟩ (t :: l :: vs) =
          (i.ending ⟨.argument, ⟨.bracket (.call f), depth σ + 1⟩ :: σ⟩ vs).behind
            [i.index (t :: l :: vs)] := by
        intro σ
        have hbracket : State.step i.limit l ⟨.name f, σ⟩ =
            .ok ⟨.argument, ⟨.bracket (.call f), depth σ + 1⟩ :: σ⟩ := if_pos hl
        rw [hname, Input.ending_cons_of_ok rfl hbracket]
        rfl
      rcases within_or_lt i.limit (n + 1) with hw | ⟨most, hl', hlt⟩
      · have hvs := Input.suffix_of_cons hus
        obtain ⟨r, hrun, hret⟩ :=
          ih vs hvs (Nat.lt_succ_self _) fuel (n + 1) (by simp at hfuel; omega) hw
        obtain ⟨r', hclose, hcloses⟩ := closes_of_returns (.call f) hvs hret
        rw [Input.descend_standing_of_within hw]
        dsimp only
        rw [hrun]
        refine ⟨r'.behind [i.index (t :: l :: vs)],
          congrArg (fun o : Outcome => some (o.behind [i.entry (i.index (t :: l :: vs))])) hclose,
          ?_⟩
        cases hcloses with
        | ok d hr htokens hd =>
          rw [Input.index_cons hus, Input.index_cons h]
          refine .ok (.call f t l _ ht hl hr d) (by rw [htokens]; simp [Derivation.tokens]) ?_
            (follows_factor _)
          rwa [Derivation.cost, ← Nat.add_assoc]
        | error hrest hx =>
          refine .error (hrest.trans ((List.suffix_cons l vs).trans (List.suffix_cons t _)))
            fun σ _ hσ => ?_
          have hdue : Within i.limit (depth σ + 1) := by rwa [hσ]
          rw [hopen, Input.ending_argument hdue, hx σ hσ]
          rfl
      · rw [Input.descend_standing_of_lt hl' hlt]
        refine ⟨⟨_, vs, [i.index (t :: l :: vs)]⟩, rfl,
          .error ((List.suffix_cons l vs).trans (List.suffix_cons t _)) fun σ _ hσ => ?_⟩
        subst hσ
        have henter : State.enter i.limit (place i.last.span vs)
            ⟨.argument, ⟨.bracket (.call f), depth σ + 1⟩ :: σ⟩ =
            .error ⟨.nestingTooDeep most, place i.last.span vs⟩ := by
          rw [hl']
          exact checkDepth_of_lt hlt _
        rw [hopen, Input.ending_of_enter henter]
        cases vs <;> rfl
    · rw [Input.expect_standing_of_ne hus hl]
      refine ⟨⟨_, l :: vs, [i.index (t :: l :: vs)]⟩, rfl,
        .error (List.suffix_cons t _) fun σ _ _ => ?_⟩
      have hfails : State.step i.limit l ⟨.name f, σ⟩ =
          .error ⟨.expectedToken .leftParen l.shown, l.span⟩ := if_neg hl
      rw [hname, Input.ending_cons_of_error rfl hfails]
      rfl

end

/-- **A factor is read, if shorter factors and sums are.** -/
theorem meets_factor (hus : us <:+ i.before)
    (ihf : ∀ vs, vs <:+ i.before → vs.length < us.length → MeetsFactor i vs)
    (ihs : ∀ vs, vs <:+ i.before → vs.length < us.length → MeetsSum i vs) :
    MeetsFactor i us := by
  intro fuel n hfuel hn
  obtain ⟨fuel, rfl⟩ : ∃ k, fuel = k + 1 := Nat.exists_eq_add_one.2 (by omega)
  cases us with
  | nil =>
    refine ⟨⟨.error ⟨.unexpectedEnd, i.last.span⟩, [], [i.index []]⟩, ?_,
      .error List.suffix_rfl fun σ _ _ => Input.ending_nil rfl⟩
    rw [Parser.factor, Input.entry_standing hus]
    simp [Sign.ofKind?, Input.outcome, Outcome.behind]
  | cons t us =>
    have htail := Input.suffix_of_cons hus
    have hlt : us.length < (t :: us).length := Nat.lt_succ_self _
    have htail6 : 6 * us.length + 6 ≤ fuel := by
      rw [List.length_cons] at hfuel
      omega
    cases hk : t.kind with
    | plus =>
      have ht : Sign.ofKind? t.kind = some .plus := by rw [hk]; rfl
      exact returns_sign hus htail6 ht (ihf us htail hlt)
    | minus =>
      have ht : Sign.ofKind? t.kind = some .minus := by rw [hk]; rfl
      exact returns_sign hus htail6 ht (ihf us htail hlt)
    | leftParen => exact returns_group hus htail6 hk (ihs us htail hlt)
    | function f =>
      exact returns_call hus htail6 hk hn fun vs hvs hv => ihs vs hvs (Nat.lt_succ_of_lt hv)
    | number =>
      refine ⟨⟨.ok (.number t.value), us, [i.index (t :: us)]⟩, ?_,
        .ok (.number t hk) rfl hn (follows_factor us)⟩
      rw [Parser.factor, Input.entry_standing hus]
      simp [hk, Sign.ofKind?, Input.advance_standing hus, Input.outcome, Outcome.behind]
    | finish => exact absurd hk (Input.kind_ne_finish_of_suffix hus)
    | star | slash | caret | rightParen | invalid =>
      -- What is no factor fails where it stands.
      refine ⟨⟨.error ⟨.invalidFactor t.shown, t.span⟩, t :: us, [i.index (t :: us)]⟩, ?_,
        .error List.suffix_rfl fun σ _ _ => Input.ending_cons_of_error rfl ?_⟩
      · rw [Parser.factor, Input.entry_standing hus]
        simp [hk, Sign.ofKind?, Input.outcome, Outcome.behind]
      · change State.beginFactor i.limit t σ = _
        rw [State.beginFactor, hk]
        rfl

end Reckon
