/-
  What all productions of a recursive descent return.

  * `meets_power` and `meets_chain`: the productions for powers and chains return what the
    reader does, if those that they call do; a chain is read link by link (`returns_link`,
    `returns_links`);
  * `meets_productions` puts them together, by induction on what is ahead;
  * `Input.parseWithin_standing` and `Input.parse_standing`: a call returns what the reader
    returns, makes the same records, and leaves the parser where the reader stops, with nothing
    open;
  * `Input.exists_derivation_of_parse`: if it succeeds, the records are those of the factors of a
    derivation.
-/
import Reckon.Proofs.Descent.Factor

namespace Reckon

open Reader

variable {i : Input} {us rest : List Token} {t : Token} {n fuel : Nat} {c : Chain}

/-! ## Powers -/

theorem follows_power (h : (i.standing us n).current.kind ≠ .caret) : Follows .power us := by
  intro t ht op hop
  cases us with
  | nil => cases ht
  | cons r us =>
    cases ht
    cases op with
    | power =>
      have hk : t.kind = .caret := by
        revert hop
        cases t.kind <;> simp [BinaryOp.ofKind?]
      exact absurd hk h
    | _ => simp [BinaryOp.precedence, Phrase.precedence]

/-- Behind the base, `^` is taken, and then the exponent. -/
theorem returns_power (b : Derivation .factor) (ht : t.kind = .caret)
    (h : b.tokens ++ t :: us <:+ i.before) (hb : Within i.limit (n + b.cost))
    (hfuel : 6 * us.length + 2 ≤ fuel)
    (hrun : Parser.factor fuel (i.standing (b.tokens ++ t :: us) n) =
      some (i.outcome n ⟨.ok b.tree, t :: us, b.beginnings (i.index (b.tokens ++ t :: us))⟩))
    (ih : Meets i Parser.power .power 2 us) :
    Leaves i .power n (b.tokens ++ t :: us)
      (Parser.power (fuel + 1) (i.standing (b.tokens ++ t :: us) n)) := by
  have hk : BinaryOp.ofKind? t.kind = some .power := by rw [ht]; rfl
  -- The reader goes through the base, and `^` takes all of it.
  have hread : ∀ σ, Admits .power σ → depth σ = n → ∃ e τ,
      Step t ⟨.complete e, τ⟩ ⟨.factor, ⟨.operand b.tree .power, depth σ + 1⟩ :: σ⟩ ∧
        i.ending ⟨.factor, σ⟩ (b.tokens ++ t :: us) =
          (i.ending ⟨.complete e, τ⟩ (t :: us)).behind
            (b.beginnings (i.index (b.tokens ++ t :: us))) := by
    rintro σ hσ rfl
    obtain ⟨e, τ, hreads⟩ := exists_reads b (admits_factor σ)
    have hop : leftOperand .power e τ = (b.tree, σ, depth σ) := by
      rw [hreads.leftOperand_eq (BinaryOp.precedence_lt_factor _)]
      exact leftOperand_of_admits hσ
    exact ⟨e, τ, .operator hk hop, hreads.ending hb h⟩
  have hsuffix : t :: us <:+ b.tokens ++ t :: us := List.suffix_append _ _
  have htail : t :: us <:+ i.before := hsuffix.trans h
  rw [Parser.power, hrun]
  simp only [Option.bind_eq_bind, Option.bind_some, Input.outcome, Input.current_standing_cons, ht,
    if_true]
  rcases within_or_lt i.limit (n + 1) with hw | ⟨most, hl, hlt⟩
  · obtain ⟨r, hpower, hret⟩ := ih fuel (n + 1) hfuel hw
    rw [Input.descend_standing_of_within hw]
    dsimp only
    rw [Input.advance_standing htail, hpower]
    refine ⟨⟨_, r.rest, _⟩, congrArg some (Input.outcome_behind _ ⟨_, r.rest, _⟩).symm, ?_⟩
    cases hret with
    | ok d hus hd hrest =>
      rw [Input.index_append_cons h]
      refine .ok (.power b t ht d) (by rw [hus]; simp [Derivation.tokens]) ?_ hrest
      have hm : n + max b.cost (1 + d.cost) = max (n + b.cost) (n + 1 + d.cost) := by omega
      rw [Derivation.cost, hm]
      exact hb.max hd
    | error hrest hx =>
      refine .error ((hrest.trans (List.suffix_cons t us)).trans hsuffix) fun σ hσ hn => ?_
      obtain ⟨e, τ, hstep, hending⟩ := hread σ hσ hn
      have hdue : Within i.limit (depth σ + 1) := by rwa [hn]
      rw [hending, ending_of_isStep hstep (fun _ => rfl) hdue,
        hx _ (Nat.le_refl _) (congrArg (· + 1) hn)]
      rfl
  · rw [Input.descend_standing_of_lt hl hlt]
    refine ⟨⟨_, t :: us, _⟩, rfl, .error hsuffix fun σ hσ hn => ?_⟩
    obtain ⟨e, τ, hstep, hending⟩ := hread σ hσ hn
    have hdeep : i.ending ⟨.complete e, τ⟩ (t :: us) = _ :=
      ending_of_isStep_of_lt hstep (fun _ => rfl) rfl hl (by rwa [← hn] at hlt)
    rw [hending, hdeep, Input.behind_complete]
    rfl

/-- **A power is read, if its base and shorter powers are.** -/
theorem meets_power (hus : us <:+ i.before) (hf : MeetsFactor i us)
    (ih : ∀ vs, vs <:+ i.before → vs.length < us.length → Meets i Parser.power .power 2 vs) :
    Meets i Parser.power .power 2 us := by
  intro fuel n hfuel hn
  obtain ⟨fuel, rfl⟩ : ∃ k, fuel = k + 1 := Nat.exists_eq_add_one.2 (by omega)
  obtain ⟨r, hrun, hret⟩ := hf fuel n (by omega) hn
  cases hret with
  | error hrest hx =>
    refine ⟨_, ?_, .error hrest fun σ _ hσ => hx σ (admits_factor σ) hσ⟩
    rw [Parser.power, hrun]
    rfl
  | @ok b rest htokens hb hfollows =>
    have hsuffix : rest <:+ us := ⟨b.tokens, htokens.symm⟩
    by_cases hk : (i.standing rest n).current.kind = .caret
    · cases rest with
      | nil => rw [Input.current_standing_nil, Input.kind_last] at hk; cases hk
      | cons t vs =>
        have hlt : vs.length < us.length := hsuffix.length_le
        have hvs := Input.suffix_of_cons (hsuffix.trans hus)
        subst htokens
        exact returns_power b hk hus hb (by omega) hrun (ih vs hvs hlt)
    · refine ⟨_, ?_, .ok (.base b) htokens hb (follows_power hk)⟩
      rw [Parser.power, hrun]
      exact if_neg hk

/-! ## Chains -/

/-- How many productions are inside each other where an operand of a chain begins: a power and a
    factor in an operand of a product, and all these in an operand of a sum, with the chain. -/
def Chain.rank : Chain → Nat
  | sum => 5
  | product => 3

theorem Chain.rank_pos (c : Chain) : 0 < c.rank := by cases c <;> decide

theorem Chain.rank_le (c : Chain) : c.rank ≤ 5 := by cases c <;> decide

/-- The production for an operand of a chain returns so. -/
abbrev MeetsOperand (i : Input) (c : Chain) (us : List Token) : Prop :=
  Meets i (Parser.operand c) c.operand c.rank us

/-- What comes behind an operand and does not go on with its chain does not go on with the
    chain itself. -/
theorem Follows.of_operand (h : Follows c.operand us)
    (hc : ∀ t ∈ us.head?, ∀ op, BinaryOp.ofKind? t.kind = some op → op ∉ c.operators) :
    Follows (.chain c) us := by
  intro t ht op hop
  have hlt := h t ht op hop
  have hne : op.precedence ≠ c.precedence := by
    intro hp
    refine hc t ht op hop ?_
    revert hp
    cases c <;> cases op <;> simp [BinaryOp.precedence, Chain.precedence, Chain.operators]
  rw [c.precedence_operand] at hlt
  exact Nat.lt_of_le_of_ne (Nat.le_of_lt_succ hlt) hne

/-- Behind the front of a chain, an operator of the chain is taken. -/
theorem exists_step_link {front : Derivation (.chain c)} {op : BinaryOp} (hop : op ∈ c.operators)
    (ht : BinaryOp.ofKind? t.kind = some op) (hall : front.tokens ++ t :: us <:+ i.before)
    (hfront : Within i.limit (n + front.cost)) {σ : List Frame} (hσ : Admits (.chain c) σ)
    (hn : depth σ = n) : ∃ e τ,
    Step t ⟨.complete e, τ⟩
        ⟨.factor, ⟨.operand front.tree op, depth σ + front.links + 1⟩ :: σ⟩ ∧
      i.ending ⟨.factor, σ⟩ (front.tokens ++ t :: us) =
        (i.ending ⟨.complete e, τ⟩ (t :: us)).behind
          (front.beginnings (i.index (front.tokens ++ t :: us))) := by
  subst hn
  obtain ⟨e, τ, hreads⟩ := exists_reads front hσ
  exact ⟨e, τ, .operator ht (hreads.joins c op rfl hop), hreads.ending hfront hall⟩

/-- **A link is read, if its operand is:** there is an error, or the front of the chain gets
    longer. -/
theorem returns_link {front : Derivation (.chain c)} {op : BinaryOp} (hop : op ∈ c.operators)
    (ht : BinaryOp.ofKind? t.kind = some op) (hall : front.tokens ++ t :: us <:+ i.before)
    (hfront : Within i.limit (n + front.cost)) (hfuel : 6 * us.length + 5 ≤ fuel)
    (hoperand : MeetsOperand i c us) :
    (∃ m r, Parser.links c (fuel + 1) front.tree (i.standing (t :: us) (n + front.links)) =
        some (i.outcome m r) ∧
      Returns i (.chain c) n (front.tokens ++ t :: us)
        (r.behind (front.beginnings (i.index (front.tokens ++ t :: us))))) ∨
    ∃ d rest, us = d.tokens ++ rest ∧ Follows c.operand rest ∧
      Within i.limit (n + (Derivation.link c front op t hop ht d).cost) ∧
      Parser.links c (fuel + 1) front.tree (i.standing (t :: us) (n + front.links)) =
        (Parser.links c fuel (.binary op front.tree d.tree)
          (i.standing rest (n + (front.links + 1)))).bind
            fun o => some (o.behind ((d.beginnings (i.index us)).map i.entry)) := by
  have hsuffix : t :: us <:+ front.tokens ++ t :: us := List.suffix_append _ _
  rw [Parser.links]
  simp only [Input.current_standing_cons, ht, if_pos hop]
  rcases within_or_lt i.limit (n + front.links + 1) with hw | ⟨most, hl, hlt⟩
  · obtain ⟨r, hrun, hret⟩ := by
      have hrank := c.rank_le
      exact hoperand fuel _ (by omega) hw
    rw [Input.descend_standing_of_within hw]
    dsimp only
    rw [Input.advance_standing (hsuffix.trans hall), hrun]
    cases hret with
    | @error x rest places hrest hx =>
      refine Or.inl ⟨_, ⟨.error x, rest, places⟩, rfl,
        .error ((hrest.trans (List.suffix_cons t us)).trans hsuffix) fun σ hσ hn => ?_⟩
      obtain ⟨e, τ, hstep, hending⟩ := exists_step_link hop ht hall hfront hσ hn
      have hdue : Within i.limit (depth σ + front.links + 1) := by rwa [hn]
      have hright : Admits c.operand (⟨.operand front.tree op, depth σ + front.links + 1⟩ :: σ) :=
        Nat.le_of_eq (by rw [BinaryOp.right_of_mem hop])
      rw [hending, ending_of_isStep hstep (fun _ => rfl) hdue, hx _ hright (by rw [← hn]; rfl)]
      rfl
    | ok d htokens hd hrest =>
      refine Or.inr ⟨d, _, htokens, hrest, ?_, rfl⟩
      have hm : n + max front.cost (front.links + 1 + d.cost) =
          max (n + front.cost) (n + front.links + 1 + d.cost) := by omega
      rw [Derivation.cost, hm]
      exact hfront.max hd
  · rw [Input.descend_standing_of_lt hl hlt]
    refine Or.inl ⟨_, ⟨_, t :: us, []⟩, rfl, .error hsuffix fun σ hσ hn => ?_⟩
    obtain ⟨e, τ, hstep, hending⟩ := exists_step_link hop ht hall hfront hσ hn
    have hdeep : i.ending ⟨.complete e, τ⟩ (t :: us) = _ :=
      ending_of_isStep_of_lt hstep (fun _ => rfl) rfl hl (by rwa [← hn] at hlt)
    rw [hending, hdeep]
    rfl

/-- **The links of a chain are read behind its front,** if its operands are. Each link makes a
    new front, and the induction is on how many turns are left. -/
theorem returns_links (front : Derivation (.chain c)) (hall : front.tokens ++ us <:+ i.before)
    (hfront : Within i.limit (n + front.cost)) (hfollows : Follows c.operand us)
    (hfuel : 6 * us.length + 1 ≤ fuel)
    (ih : ∀ vs, vs <:+ i.before → vs.length < us.length → MeetsOperand i c vs) :
    ∃ m r, Parser.links c fuel front.tree (i.standing us (n + front.links)) =
        some (i.outcome m r) ∧
      Returns i (.chain c) n (front.tokens ++ us)
        (r.behind (front.beginnings (i.index (front.tokens ++ us)))) := by
  induction fuel generalizing us front with
  | zero => exact absurd hfuel (by omega)
  | succ fuel ihfuel =>
    have hus : us <:+ i.before := (List.suffix_append _ _).trans hall
    -- Where no operator of the chain is ahead, its front is all of it.
    have hstop : (∀ t ∈ us.head?, ∀ op, BinaryOp.ofKind? t.kind = some op → op ∉ c.operators) →
        Returns i (.chain c) n (front.tokens ++ us)
          (Ending.behind (front.beginnings (i.index (front.tokens ++ us)))
            ⟨.ok front.tree, us, []⟩) := by
      intro hc
      rw [Ending.behind, List.append_nil]
      exact .ok front rfl hfront (hfollows.of_operand hc)
    cases us with
    | nil =>
      refine ⟨n + front.links, ⟨.ok front.tree, [], []⟩, ?_, hstop (by simp)⟩
      rw [Parser.links]
      simp [BinaryOp.ofKind?, Input.outcome]
    | cons t us =>
      cases ht : BinaryOp.ofKind? t.kind with
      | none =>
        refine ⟨n + front.links, ⟨_, t :: us, []⟩, ?_, hstop fun r hr op hop => ?_⟩
        · rw [Parser.links]
          simp [ht, Input.outcome]
        · cases hr
          rw [ht] at hop
          cases hop
      | some op =>
        by_cases hop : op ∈ c.operators
        · have htail := Input.suffix_of_cons hus
          have hless : 6 * us.length + 5 ≤ fuel := by
            rw [List.length_cons] at hfuel
            omega
          rcases returns_link hop ht hall hfront hless (ih us htail (Nat.lt_succ_self _)) with
            hend | ⟨d, rest, htokens, hrest, hcost, hrun⟩
          · exact hend
          · have hsuffix : rest <:+ us := ⟨d.tokens, htokens.symm⟩
            have hle := hsuffix.length_le
            have hlt : rest.length < (t :: us).length := Nat.lt_succ_of_le hle
            have htokens' : front.tokens ++ t :: us =
                (Derivation.link c front op t hop ht d).tokens ++ rest := by
              rw [htokens]
              simp [Derivation.tokens]
            obtain ⟨m, r, hlinks, hret⟩ := ihfuel (.link c front op t hop ht d)
              (htokens' ▸ hall) hcost hrest (by omega)
              fun vs hvs hv => ih vs hvs (Nat.lt_trans hv hlt)
            refine ⟨m, r.behind (d.beginnings (i.index us)), ?_, ?_⟩
            · rw [hrun, Input.outcome_behind]
              exact congrArg (fun o : Option Outcome => o.bind fun o =>
                some (o.behind ((d.beginnings (i.index us)).map i.entry))) hlinks
            · rw [Ending.behind_behind, Input.index_append_cons hall]
              rwa [← htokens', Derivation.beginnings] at hret
        · refine ⟨n + front.links, ⟨_, t :: us, []⟩, ?_, hstop fun r hr op' hop' => ?_⟩
          · rw [Parser.links]
            simp [ht, hop, Input.outcome]
          · cases hr
            rw [ht] at hop'
            cases hop'
            exact hop

/-- **A chain is read, if its operands are.** -/
theorem meets_chain (hus : us <:+ i.before) (hoperand : MeetsOperand i c us)
    (ih : ∀ vs, vs <:+ i.before → vs.length < us.length → MeetsOperand i c vs) :
    Meets i (Parser.chain c) (.chain c) (c.rank + 1) us := by
  intro fuel n hfuel hn
  obtain ⟨fuel, rfl⟩ : ∃ k, fuel = k + 1 := Nat.exists_eq_add_one.2 (by omega)
  obtain ⟨r, hrun, hret⟩ := hoperand fuel n (by omega) hn
  rw [Parser.chain, hrun]
  cases hret with
  | error hrest hx =>
    refine ⟨_, rfl, .error hrest fun σ hσ hn => hx σ (hσ.tighter ?_) hn⟩
    rw [c.precedence_operand]
    exact Nat.le_succ _
  | @ok d rest htokens hd hfollows =>
    have hsuffix : rest <:+ us := ⟨d.tokens, htokens.symm⟩
    have hle := hsuffix.length_le
    have hless : 6 * rest.length + 1 ≤ fuel := by
      have hrank := c.rank_pos
      omega
    obtain ⟨m, r, hlinks, hreturns⟩ :=
      returns_links (.first c d) (htokens ▸ hus) hd hfollows hless
        fun vs hvs hv => ih vs hvs (Nat.lt_of_lt_of_le hv hle)
    refine ⟨r.behind (d.beginnings (i.index us)), ?_, by rwa [htokens]⟩
    rw [Input.outcome_behind]
    exact congrArg (fun o : Option Outcome => o.bind fun o =>
      some ((o.leave (i.standing us n)).behind ((d.beginnings (i.index us)).map i.entry))) hlinks

/-! ## All productions -/

theorem meetsOperand_sum (h : Meets i (Parser.chain .product) (.chain .product) 4 us) :
    MeetsOperand i .sum us := by
  intro fuel n hfuel hn
  have hrank : Chain.sum.rank = 5 := rfl
  obtain ⟨fuel, rfl⟩ : ∃ k, fuel = k + 1 := Nat.exists_eq_add_one.2 (by omega)
  rw [Parser.operand]
  exact h fuel n (by omega) hn

theorem meetsOperand_product (h : Meets i Parser.power .power 2 us) :
    MeetsOperand i .product us := by
  intro fuel n hfuel hn
  have hrank : Chain.product.rank = 3 := rfl
  obtain ⟨fuel, rfl⟩ : ∃ k, fuel = k + 1 := Nat.exists_eq_add_one.2 (by omega)
  rw [Parser.operand]
  exact h fuel n (by omega) hn

/-- What all productions return. -/
structure MeetsAll (i : Input) (us : List Token) : Prop where
  factor : MeetsFactor i us
  power : Meets i Parser.power .power 2 us
  product : Meets i (Parser.chain .product) (.chain .product) 4 us
  sum : MeetsSum i us

/-- **All productions return what the reader does.** The induction is on what is ahead, and
    before the same tokens the productions come one after the other, a factor first. -/
theorem meets_productions {us : List Token} (hus : us <:+ i.before) : MeetsAll i us := by
  have ih : ∀ vs, vs <:+ i.before → vs.length < us.length → MeetsAll i vs :=
    fun vs hvs hv => meets_productions hvs
  have hfactor := meets_factor hus (fun vs hvs hv => (ih vs hvs hv).factor)
    fun vs hvs hv => (ih vs hvs hv).sum
  have hpower := meets_power hus hfactor fun vs hvs hv => (ih vs hvs hv).power
  have hproduct := meets_chain hus (meetsOperand_product hpower)
    fun vs hvs hv => meetsOperand_product (ih vs hvs hv).power
  have hsum := meets_chain hus (meetsOperand_sum hproduct)
    fun vs hvs hv => meetsOperand_sum (ih vs hvs hv).product
  exact ⟨hfactor, hpower, hproduct, hsum⟩
termination_by us.length

/-! ## Calls -/

/-- What is wrong at a token behind the expression that a call reads. -/
def SyntaxProblem.behind (t : Token) : SyntaxProblem :=
  if t.kind = .rightParen then .mismatchedParen t.shown else .trailingInput t.shown

section

variable {e v : Expr} {τ : List Frame}

theorem finish_of_closed {stop : Span} (h : closeTighter 0 e τ = (v, [])) :
    State.finish stop ⟨.complete e, τ⟩ = .ok v := by
  simp only [State.finish, h]

theorem step_of_closed {limit : Option Nat} (hop : BinaryOp.ofKind? t.kind = none)
    (h : closeTighter 0 e τ = (v, [])) :
    State.step limit t ⟨.complete e, τ⟩ = .error ⟨.behind t, t.span⟩ := by
  change State.continueAfter limit t e τ = _
  unfold State.continueAfter
  rw [hop]
  dsimp only
  rw [h, SyntaxProblem.behind]
  cases t.kind <;> rfl

end

/-- **A call returns what the reader returns,** with the same records, and leaves the parser where
    the reader stops, with nothing open, if enough productions may be inside each other. -/
theorem Input.parseWithin_standing (hus : us <:+ i.before) (hfuel : 6 * us.length + 6 ≤ fuel) :
    (i.standing us 0).parseWithin fuel = some (i.outcome 0 (i.ending State.initial us)) := by
  have hzero : Within i.limit 0 := fun _ _ => Nat.zero_le _
  obtain ⟨r, hrun, hret⟩ := (meets_productions hus).sum fuel 0 hfuel hzero
  rw [Parser.parseWithin, hrun]
  cases hret with
  | error hrest hx =>
    have hending : i.ending State.initial us = _ := hx [] (admits_nil _) rfl
    rw [hending]
    rfl
  | @ok d rest htokens hd hfollows =>
    obtain ⟨e, τ, hc, hending⟩ := exists_ending_sum d (admits_nil _) hd htokens hus
    rw [State.initial, hending]
    cases rest with
    | nil =>
      rw [Input.ending_nil rfl, finish_of_closed hc, Input.behind_complete]
      simp [Input.outcome]
    | cons t vs =>
      have hsuffix : t :: vs <:+ us := ⟨d.tokens, htokens.symm⟩
      have hfinish := Input.kind_ne_finish_of_suffix (hsuffix.trans hus)
      have hfails : State.step i.limit t ⟨.complete e, τ⟩ = _ :=
        step_of_closed hfollows.ofKind? hc
      rw [Input.ending_cons_of_error rfl hfails, Input.behind_complete]
      revert hfinish
      simp only [Option.bind_eq_bind, Option.bind_some, Input.outcome, Input.current_standing_cons,
        SyntaxProblem.behind]
      cases t.kind <;> simp

/-- The tokens of a parser bound how many productions are inside each other. -/
theorem Input.le_height_standing (hus : us <:+ i.before) (n : Nat) :
    6 * us.length + 6 ≤ (i.standing us n).height := by
  have hle := hus.length_le
  have hlen : (i.standing us n).tokens.length = i.before.length + (i.behind.length + 1) := by
    simp [standing]
  rw [Parser.height, hlen]
  omega

theorem Input.parse_standing (hus : us <:+ i.before) :
    (i.standing us 0).parse = some (i.outcome 0 (i.ending State.initial us)) :=
  parseWithin_standing hus (le_height_standing hus 0)

/-- **A call that succeeds makes the records of a derivation,** and no others. -/
theorem Input.exists_derivation_of_parse {o : Outcome} {e : Expr} (hus : us <:+ i.before)
    (h : (i.standing us 0).parse = some o) (he : o.result = .ok e) :
    ∃ d : Derivation (.chain .sum), d.tokens = us ∧ d.tree = e ∧
      o.records = (d.beginnings (i.index us)).map i.entry := by
  have hzero : Within i.limit 0 := fun _ _ => Nat.zero_le _
  obtain ⟨r, hrun, hret⟩ := (meets_productions hus).sum _ 0 (le_height_standing hus 0) hzero
  rw [Parser.parse, Parser.parseWithin, hrun] at h
  cases hret with
  | error hrest hx =>
    cases h
    cases he
  | @ok d rest htokens hd hfollows =>
    cases rest with
    | nil =>
      have ho : i.outcome 0 ⟨.ok d.tree, [], d.beginnings (i.index us)⟩ = o := by
        simpa [Input.outcome] using h
      subst ho
      cases he
      exact ⟨d, by rw [htokens, List.append_nil], rfl, rfl⟩
    | cons t vs =>
      have hsuffix : t :: vs <:+ us := ⟨d.tokens, htokens.symm⟩
      have hfinish := Input.kind_ne_finish_of_suffix (hsuffix.trans hus)
      simp only [Option.bind_eq_bind, Option.bind_some, Input.outcome,
        Input.current_standing_cons] at h
      split at h
      · exact absurd ‹_› hfinish
      all_goals
        cases h
        cases he

end Reckon
