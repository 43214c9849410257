/-
  No production goes back.

  A parser has a copy of the token at its cursor, and there is an end ahead. No production
  takes an end, so that the cursor goes on wherever a token is taken.

  * `Parser.Sound p`: the copy is that of the token at the cursor, and an end is ahead;
  * `Parser.Reaches p q`: the parser `q` is sound, has the tokens of `p`, and is not further back;
  * `Outcome.Onward p o`: what a production leaves that began at `p`: a parser that is not further
    back, and records about tokens in between, each one further on than the one before;
  * `Onward.append`: it is so for two productions, one behind the other;
  * `Parser.Onwards f`: whatever the production `f` leaves is like this;
  * `Parser.onwards_productions`: each of them is, by induction on how many may be inside each
    other, with one lemma for each of them.
-/
import Reckon.Proofs.Descent

namespace Reckon

/-! ## The cursor -/

namespace Parser

variable {p q r : Parser}

/-- A parser with a copy of the token at its cursor, and with an end ahead. -/
structure Sound (p : Parser) : Prop where
  current : p.tokens[p.position]? = some p.current
  ahead : ∃ n t, p.position ≤ n ∧ p.tokens[n]? = some t ∧ t.isFinish = true

/-- A sound parser of the same tokens that is not further back. -/
structure Reaches (p q : Parser) : Prop where
  sound : q.Sound
  tokens : q.tokens = p.tokens
  le : p.position ≤ q.position

theorem Sound.reaches (h : p.Sound) : p.Reaches p := ⟨h, rfl, Nat.le_refl _⟩

theorem Reaches.trans (h : p.Reaches q) (h' : q.Reaches r) : p.Reaches r :=
  ⟨h'.sound, h'.tokens.trans h.tokens, Nat.le_trans h.le h'.le⟩

/-- The counter makes no difference. -/
theorem Reaches.withDepth (h : p.Reaches q) (n : Nat) : p.Reaches { q with depth := n } :=
  ⟨⟨h.sound.current, h.sound.ahead⟩, h.tokens, h.le⟩

theorem descend_cases (p : Parser) :
    (∃ x, p.descend = (.error x, { p with depth := p.depth + 1 })) ∨
      p.descend = (.ok (), { p with depth := p.depth + 1 }) := by
  rw [descend]
  cases Reader.checkDepth p.limit (p.depth + 1) p.current.span with
  | error x => exact Or.inl ⟨x, rfl⟩
  | ok u => exact Or.inr rfl

/-- **Where a token is taken that is no end, the cursor goes on.** -/
theorem Sound.advance (h : p.Sound) (hk : p.current.kind ≠ .finish) :
    p.Reaches p.advance ∧ p.position < p.advance.position := by
  obtain ⟨n, t, hn, ht, hfinish⟩ := h.ahead
  have hlt : p.position < n := by
    refine Nat.lt_of_le_of_ne hn fun heq => hk ?_
    rw [← heq, h.current] at ht
    cases ht
    simpa [Token.isFinish] using hfinish
  have hlen : n < p.tokens.length := (List.getElem?_eq_some_iff.1 ht).1
  have hnext := List.getElem?_eq_getElem (Nat.lt_of_le_of_lt (Nat.succ_le_of_lt hlt) hlen)
  rw [Parser.advance, hnext]
  exact ⟨⟨⟨hnext, n, t, hlt, ht, hfinish⟩, rfl, Nat.le_succ _⟩, Nat.lt_succ_self _⟩

/-- It goes on with any counter. -/
theorem Sound.advance_withDepth (h : p.Sound) (hk : p.current.kind ≠ .finish) (n : Nat) :
    p.Reaches (Parser.advance { p with depth := n }) ∧
      p.position < (Parser.advance { p with depth := n }).position := by
  have hn := h.reaches.withDepth n
  obtain ⟨hreaches, hlt⟩ := hn.sound.advance hk
  exact ⟨hn.trans hreaches, hlt⟩

theorem Sound.expect (h : p.Sound) {kind : TokenKind} (hk : kind ≠ .finish)
    {result : Except SyntaxError Unit} (he : p.expect kind = (result, q)) : p.Reaches q := by
  unfold Parser.expect at he
  split at he
  · next hkind =>
    cases he
    exact (h.advance (hkind ▸ hk)).1
  · split at he <;> cases he <;> exact h.reaches

end Parser

/-! ## Outcomes -/

namespace Outcome

/-- What a production leaves that began at `p`. -/
structure Onward (p : Parser) (o : Outcome) : Prop where
  reaches : p.Reaches o.parser
  /-- From one record to the next, the cursor goes on. -/
  ordered : o.records.Pairwise fun r r' => r.1 < r'.1
  within : ∀ r ∈ o.records, p.position ≤ r.1 ∧ r.1 ≤ o.parser.position
  /-- An expression ends behind all its factors. -/
  passed : ∀ e, o.result = .ok e → ∀ r ∈ o.records, r.1 < o.parser.position
  about : ∀ r ∈ o.records, ∃ t, p.tokens[r.1]? = some t ∧ r.2 = .factor t.span t.kind

namespace Onward

variable {p q q' : Parser} {o : Outcome} {e : Expr} {result result' : Except SyntaxError Expr}
  {rs : List (Nat × Record)}

theorem nil (h : p.Reaches q) (result : Except SyntaxError Expr) : Onward p ⟨result, q, []⟩ :=
  ⟨h, .nil, nofun, nofun, nofun⟩

/-- The record of a factor that begins at the cursor. -/
theorem entry (hp : p.Sound) (h : p.Reaches q)
    (hpassed : ∀ e, result = .ok e → p.position < q.position) :
    Onward p ⟨result, q, [p.entry]⟩ where
  reaches := h
  ordered := List.pairwise_singleton _ _
  within := List.forall_mem_singleton.2 ⟨Nat.le_refl _, h.le⟩
  passed e he := List.forall_mem_singleton.2 (hpassed e he)
  about := List.forall_mem_singleton.2 ⟨p.current, hp.current, rfl⟩

/-- **What comes behind an expression begins further on than all records of the expression.** -/
theorem append (h : Onward p ⟨.ok e, q, rs⟩) (hq : q.Reaches q') (h' : Onward q' o) :
    Onward p (o.behind rs) where
  reaches := h.reaches.trans (hq.trans h'.reaches)
  ordered := by
    refine List.pairwise_append.2 ⟨h.ordered, h'.ordered, fun r hr r' hr' => ?_⟩
    exact Nat.lt_of_lt_of_le (h.passed e rfl r hr) (Nat.le_trans hq.le (h'.within r' hr').1)
  within := by
    have hle := Nat.le_trans hq.le h'.reaches.le
    refine List.forall_mem_append.2 ⟨fun r hr => ?_, fun r hr => ?_⟩
    · exact ⟨(h.within r hr).1, Nat.le_trans (h.within r hr).2 hle⟩
    · exact ⟨Nat.le_trans (Nat.le_trans h.reaches.le hq.le) (h'.within r hr).1, (h'.within r hr).2⟩
  passed v hv := by
    have hle := Nat.le_trans hq.le h'.reaches.le
    exact List.forall_mem_append.2
      ⟨fun r hr => Nat.lt_of_lt_of_le (h.passed e rfl r hr) hle, h'.passed v hv⟩
  about := by
    refine List.forall_mem_append.2 ⟨h.about, fun r hr => ?_⟩
    rw [← h.reaches.tokens, ← hq.tokens]
    exact h'.about r hr

/-- A production that goes on before it calls another one. -/
theorem of_reaches (h : Onward q o) (hq : p.Reaches q) : Onward p o where
  reaches := hq.trans h.reaches
  ordered := h.ordered
  within r hr := ⟨Nat.le_trans hq.le (h.within r hr).1, (h.within r hr).2⟩
  passed := h.passed
  about r hr := hq.tokens ▸ h.about r hr

/-- A production may go on behind what it calls. -/
theorem move (h : Onward p ⟨result, q, rs⟩) (hq : q.Reaches q')
    (hresult : ∀ e, result' = .ok e → ∃ v, result = .ok v) : Onward p ⟨result', q', rs⟩ where
  reaches := h.reaches.trans hq
  ordered := h.ordered
  within r hr := ⟨(h.within r hr).1, Nat.le_trans (h.within r hr).2 hq.le⟩
  passed e he r hr := by
    obtain ⟨v, hv⟩ := hresult e he
    exact Nat.lt_of_lt_of_le (h.passed v hv r hr) hq.le
  about := h.about

theorem leave (h : Onward p o) (outer : Parser) : Onward p (o.leave outer) :=
  h.move (h.reaches.sound.reaches.withDepth _) fun e he => ⟨e, he⟩

theorem map (h : Onward p o) (f : Expr → Expr) : Onward p (o.map f) := by
  refine h.move h.reaches.sound.reaches fun e he => ?_
  cases hresult : o.result with
  | ok v => exact ⟨v, rfl⟩
  | error x =>
    rw [hresult] at he
    cases he

theorem closeGroup (h : Onward p o) : Onward p o.closeGroup := by
  obtain ⟨result, q, rs⟩ := o
  have hq := h.reaches.sound
  cases result with
  | error x => exact h
  | ok e =>
    by_cases hk : q.current.kind = .rightParen
    · simp only [Outcome.closeGroup, if_pos hk]
      exact h.move (hq.advance (by simp [hk])).1 fun v _ => ⟨e, rfl⟩
    · simp only [Outcome.closeGroup, if_neg hk]
      exact h.move hq.reaches nofun

theorem closeCall (h : Onward p o) (f : Function) : Onward p (o.closeCall f) := by
  obtain ⟨result, q, rs⟩ := o
  cases result with
  | error x => exact h
  | ok e =>
    cases he : q.expect .rightParen with
    | mk taken q' =>
      have hq' := h.reaches.sound.expect (by simp) he
      cases taken with
      | error x =>
        simp only [Outcome.closeCall, he]
        exact h.move hq' nofun
      | ok u =>
        simp only [Outcome.closeCall, he]
        exact h.move hq' fun v _ => ⟨e, rfl⟩

end Onward

end Outcome

/-! ## Productions -/

namespace Parser

open Outcome

variable {fuel : Nat} {c : Chain}

/-- Whatever a production leaves, it went on. -/
def Onwards (f : Parser → Option Outcome) : Prop :=
  ∀ p o, p.Sound → f p = some o → Onward p o

/-- What a factor leaves behind its first token. -/
theorem onward_behind_entry {p q : Parser} {o : Outcome} (hp : p.Sound) (hq : p.Reaches q)
    (hlt : p.position < q.position) (h : Onward q o) : Onward p (o.behind [p.entry]) := by
  have hentry : Onward p ⟨.ok (.number 0), q, [p.entry]⟩ := .entry hp hq fun _ _ => hlt
  exact hentry.append hq.sound.reaches h

/-- A factor makes its record, and goes on. -/
theorem onwards_factor (ihf : Onwards (factor fuel)) (ihs : Onwards (chain .sum fuel)) :
    Onwards (factor (fuel + 1)) := by
  intro p o hp ho
  rw [factor, Option.map_eq_some_iff] at ho
  obtain ⟨o, hbody, rfl⟩ := ho
  -- A factor that fails before it takes a token leaves nothing but its record.
  have hfails : ∀ x n, Onward p (Outcome.behind [p.entry] ⟨.error x, { p with depth := n }, []⟩) :=
    fun x n => .entry hp (hp.reaches.withDepth n) nofun
  cases hs : Sign.ofKind? p.current.kind with
  | some sign =>
    have hk : p.current.kind ≠ .finish := by
      intro hk
      rw [hk] at hs
      cases hs
    rcases p.descend_cases with ⟨x, hd⟩ | hd
    · simp only [hs, hd] at hbody
      cases hbody
      exact hfails x p.depth
    · simp only [hs, hd] at hbody
      obtain ⟨hq, hlt⟩ := hp.advance_withDepth hk (p.depth + 1)
      obtain ⟨o', ho', ho⟩ := Option.bind_eq_some_iff.1 hbody
      cases ho
      exact onward_behind_entry hp hq hlt (((ihf _ o' hq.sound ho').leave p).map _)
  | none =>
    simp only [hs] at hbody
    cases hk : p.current.kind with
    | number =>
      simp only [hk] at hbody
      cases hbody
      obtain ⟨hq, hlt⟩ := hp.advance (by simp [hk])
      exact .entry hp hq fun _ _ => hlt
    | leftParen =>
      rcases p.descend_cases with ⟨x, hd⟩ | hd
      · simp only [hk, hd] at hbody
        cases hbody
        exact hfails x p.depth
      · simp only [hk, hd] at hbody
        obtain ⟨hq, hlt⟩ := hp.advance_withDepth (by simp [hk]) (p.depth + 1)
        obtain ⟨o', ho', ho⟩ := Option.bind_eq_some_iff.1 hbody
        cases ho
        exact onward_behind_entry hp hq hlt ((ihs _ o' hq.sound ho').leave p).closeGroup
    | function f =>
      obtain ⟨hname, hlt⟩ := hp.advance (by simp [hk])
      cases he : p.advance.expect .leftParen with
      | mk taken q =>
        have hq := hname.sound.expect (by simp) he
        have hpq := hname.trans hq
        have hltq := Nat.lt_of_lt_of_le hlt hq.le
        simp only [hk, he] at hbody
        cases taken with
        | error x =>
          cases hbody
          exact .entry hp hpq nofun
        | ok u =>
          rcases q.descend_cases with ⟨x, hd⟩ | hd
          · simp only [hd] at hbody
            cases hbody
            exact .entry hp (hpq.withDepth q.depth) nofun
          · simp only [hd] at hbody
            obtain ⟨o', ho', ho⟩ := Option.bind_eq_some_iff.1 hbody
            cases ho
            have hr := hpq.withDepth (q.depth + 1)
            exact onward_behind_entry hp hr hltq (((ihs _ o' hr.sound ho').leave q).closeCall f)
    | _ =>
      simp only [hk] at hbody
      cases hbody
      exact hfails _ p.depth

/-- A power goes on from its base to its exponent. -/
theorem onwards_power (ihf : Onwards (factor fuel)) (ihp : Onwards (power fuel)) :
    Onwards (power (fuel + 1)) := by
  intro p o hp ho
  rw [power] at ho
  obtain ⟨⟨result, q, rs⟩, hbase, ho⟩ := Option.bind_eq_some_iff.1 ho
  have hb := ihf p _ hp hbase
  cases result with
  | error x =>
    cases ho
    exact hb
  | ok base =>
    by_cases hk : q.current.kind = .caret
    · have hq := hb.reaches.sound
      rcases q.descend_cases with ⟨x, hd⟩ | hd
      · simp only [if_pos hk, hd] at ho
        cases ho
        exact hb.move (hq.reaches.withDepth q.depth) nofun
      · simp only [if_pos hk, hd] at ho
        obtain ⟨hr, -⟩ := hq.advance_withDepth (by simp [hk]) (q.depth + 1)
        obtain ⟨o', ho', ho⟩ := Option.bind_eq_some_iff.1 ho
        cases ho
        exact hb.append hr (((ihp _ o' hr.sound ho').leave q).map _)
    · simp only [if_neg hk] at ho
      cases ho
      exact hb

theorem onwards_operand (ihp : Onwards (power fuel)) (ihc : Onwards (chain .product fuel)) :
    Onwards (operand c (fuel + 1)) := by
  intro p o hp ho
  cases c with
  | sum =>
    rw [operand] at ho
    exact ihc p o hp ho
  | product =>
    rw [operand] at ho
    exact ihp p o hp ho

/-- A chain goes on from its first operand to its links. -/
theorem onwards_chain (iho : Onwards (operand c fuel)) (ihl : ∀ e, Onwards (links c fuel e)) :
    Onwards (chain c (fuel + 1)) := by
  intro p o hp ho
  rw [chain] at ho
  obtain ⟨⟨result, q, rs⟩, hfirst, ho⟩ := Option.bind_eq_some_iff.1 ho
  have hf := iho p _ hp hfirst
  cases result with
  | error x =>
    cases ho
    exact hf.leave p
  | ok first =>
    have hq := hf.reaches.sound
    obtain ⟨o', ho', ho⟩ := Option.bind_eq_some_iff.1 ho
    cases ho
    exact hf.append hq.reaches ((ihl first q o' hq ho').leave p)

/-- The links of a chain go on from each operand to the next. -/
theorem onwards_links (iho : Onwards (operand c fuel)) (ihl : ∀ e, Onwards (links c fuel e))
    (left : Expr) : Onwards (links c (fuel + 1) left) := by
  intro p o hp ho
  rw [links] at ho
  cases hop : BinaryOp.ofKind? p.current.kind with
  | none =>
    simp only [hop] at ho
    cases ho
    exact .nil hp.reaches _
  | some op =>
    by_cases hmem : op ∈ c.operators
    · have hk : p.current.kind ≠ .finish := by
        intro hk
        rw [hk] at hop
        cases hop
      rcases p.descend_cases with ⟨x, hd⟩ | hd
      · simp only [hop, if_pos hmem, hd] at ho
        cases ho
        exact .nil (hp.reaches.withDepth _) _
      · simp only [hop, if_pos hmem, hd] at ho
        obtain ⟨hq, -⟩ := hp.advance_withDepth hk (p.depth + 1)
        obtain ⟨⟨result, r, rs⟩, hright, ho⟩ := Option.bind_eq_some_iff.1 ho
        have hr := (iho _ _ hq.sound hright).of_reaches hq
        cases result with
        | error x =>
          cases ho
          exact hr
        | ok right =>
          obtain ⟨o', ho', ho⟩ := Option.bind_eq_some_iff.1 ho
          cases ho
          exact hr.append hr.reaches.sound.reaches (ihl _ r o' hr.reaches.sound ho')
    · simp only [hop, if_neg hmem] at ho
      cases ho
      exact .nil hp.reaches _

/-- All productions go on. -/
structure AllOnwards (fuel : Nat) : Prop where
  factor : Onwards (factor fuel)
  power : Onwards (power fuel)
  operand : ∀ c, Onwards (operand c fuel)
  chain : ∀ c, Onwards (chain c fuel)
  links : ∀ c e, Onwards (links c fuel e)

/-- **No production goes back,** however many may be inside each other. -/
theorem onwards_productions (fuel : Nat) : AllOnwards fuel := by
  induction fuel with
  | zero =>
    refine ⟨?_, ?_, fun c => ?_, fun c => ?_, fun c e => ?_⟩ <;> intro p o _ ho
    · rw [factor] at ho; cases ho
    · rw [power] at ho; cases ho
    · rw [operand] at ho; cases ho
    · rw [chain] at ho; cases ho
    · rw [links] at ho; cases ho
  | succ fuel ih =>
    exact {
      factor := onwards_factor ih.factor (ih.chain .sum)
      power := onwards_power ih.factor ih.power
      operand := fun c => onwards_operand ih.power (ih.chain .product)
      chain := fun c => onwards_chain (ih.operand c) (ih.links c)
      links := fun c => onwards_links (ih.operand c) (ih.links c) }

/-- **Nor does a call.** -/
theorem onwards_parseWithin (fuel : Nat) : Onwards (parseWithin fuel) := by
  intro p o hp ho
  rw [parseWithin] at ho
  obtain ⟨⟨result, q, rs⟩, hsum, ho⟩ := Option.bind_eq_some_iff.1 ho
  have hs := (onwards_productions fuel).chain .sum p _ hp hsum
  cases result with
  | error x =>
    cases ho
    exact hs
  | ok e =>
    have hq := hs.reaches.sound.reaches
    dsimp only at ho
    split at ho <;> cases ho
    · exact hs
    all_goals exact hs.move hq nofun

end Parser

end Reckon
