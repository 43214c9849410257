/-
  Where reading begins factors.

  Reading begins a factor at some of the tokens. Which ones these are can be told from a
  derivation, and also without one.

  * `Derivation.beginnings`: the places of the tokens that begin the factors of a derivation;
  * `TokenKind.beginsFactor` and `beginnings`: the same, told by nothing but a token and the one
    in front of it; `begins_tokens`: the two agree;
  * `Step.behind`: a token that is taken begins a factor iff it looks like one.
-/
import Reckon.Proofs.Reading

namespace Reckon

/-! ## The places of factors -/

namespace TokenKind

/-- Whether an operand may end with a token of this class. -/
def endsOperand : TokenKind → Bool
  | number | rightParen => true
  | _ => false

/-- Whether a factor begins at a token, behind one of the class `before` if there is one: at each
    number and each name of a function; at a bracket, unless it is that of a call; at plus and
    minus where they are signs, which is not behind an operand. -/
def beginsFactor (before : Option TokenKind) : TokenKind → Bool
  | number | function _ => true
  | leftParen => !before.any (·.function?.isSome)
  | plus | minus => !before.any endsOperand
  | _ => false

end TokenKind

/-- The places at which factors begin, among tokens of which the first one is at the place `n` and
    behind one of the class `before`. -/
def beginnings (before : Option TokenKind) (n : Nat) : List Token → List Nat
  | [] => []
  | t :: ts =>
    (if t.kind.beginsFactor before then [n] else []) ++ beginnings (some t.kind) (n + 1) ts

/-- The places of the tokens that begin the factors of a derivation, of which the first token is at
    the place `n`: numbers, signs, the brackets of groups, and names of functions. -/
def Derivation.beginnings : {p : Phrase} → Derivation p → Nat → List Nat
  | _, number _ _, n => [n]
  | _, signed _ _ _ d, n => n :: d.beginnings (n + 1)
  | _, group _ _ _ _ d, n => n :: d.beginnings (n + 1)
  | _, call _ _ _ _ _ _ _ d, n => n :: d.beginnings (n + 2)
  | _, base d, n => d.beginnings n
  | _, power b _ _ d, n => b.beginnings n ++ d.beginnings (n + b.tokens.length + 1)
  | _, first _ d, n => d.beginnings n
  | _, link _ front _ _ _ _ d, n =>
    front.beginnings n ++ d.beginnings (n + front.tokens.length + 1)

/-- Whether a phrase may begin behind a token of this class, or behind none. -/
def Opens (before : Option TokenKind) : Prop :=
  ∀ kind ∈ before, kind.endsOperand = false ∧ kind.function? = none

theorem opens_none : Opens none := nofun

theorem opens_some {kind : TokenKind} :
    Opens (some kind) ↔ kind.endsOperand = false ∧ kind.function? = none := by
  simp [Opens]

section

variable {before : Option TokenKind} {kind last : TokenKind} {t : Token} {n : Nat}

theorem opens_of_leftParen (h : kind = .leftParen) : Opens (some kind) := by
  rw [h]
  exact opens_some.2 ⟨rfl, rfl⟩

theorem opens_of_sign {sign : Sign} (h : Sign.ofKind? kind = some sign) : Opens (some kind) := by
  rw [opens_some]
  cases kind <;> simp_all [Sign.ofKind?, TokenKind.endsOperand, TokenKind.function?]

theorem opens_of_operator {op : BinaryOp} (h : BinaryOp.ofKind? kind = some op) :
    Opens (some kind) := by
  rw [opens_some]
  cases kind <;> simp_all [BinaryOp.ofKind?, TokenKind.endsOperand, TokenKind.function?]

/-- Where a phrase may begin, plus and minus are signs. -/
theorem beginsFactor_of_sign {sign : Sign} (hb : Opens before)
    (h : Sign.ofKind? kind = some sign) : kind.beginsFactor before = true := by
  cases kind with
  | plus | minus =>
    cases before with
    | none => rfl
    | some k => simp [TokenKind.beginsFactor, (opens_some.1 hb).1]
  | _ => cases h

theorem beginsFactor_of_leftParen (hb : Opens before) (h : kind = .leftParen) :
    kind.beginsFactor before = true := by
  subst h
  cases before with
  | none => rfl
  | some k => simp [TokenKind.beginsFactor, (opens_some.1 hb).2]

/-- Behind an operand, plus and minus are operators. -/
theorem beginsFactor_of_operator {op : BinaryOp} (hlast : last.endsOperand = true)
    (h : BinaryOp.ofKind? kind = some op) : kind.beginsFactor (some last) = false := by
  cases kind <;> simp_all [BinaryOp.ofKind?, TokenKind.beginsFactor]

theorem beginnings_cons_of_begins (h : t.kind.beginsFactor before = true) (n : Nat)
    (ts : List Token) :
    beginnings before n (t :: ts) = n :: beginnings (some t.kind) (n + 1) ts := by
  simp [beginnings, h]

theorem beginnings_cons_of_not_begins (h : t.kind.beginsFactor before = false) (n : Nat)
    (ts : List Token) :
    beginnings before n (t :: ts) = beginnings (some t.kind) (n + 1) ts := by
  simp [beginnings, h]

end

/-- Where a phrase may begin, some tokens begin factors at these places, and what stands behind
    them is behind an operand. -/
def Begins (us : List Token) (places : Nat → List Nat) : Prop :=
  ∃ last : TokenKind, last.endsOperand = true ∧ ∀ before, Opens before → ∀ n ts,
    beginnings before n (us ++ ts) = places n ++ beginnings (some last) (n + us.length) ts

namespace Begins

variable {us vs : List Token} {places places' : Nat → List Nat} {t l r : Token}

theorem number (ht : t.kind = .number) : Begins [t] fun n => [n] := by
  refine ⟨.number, rfl, fun before _ n ts => ?_⟩
  have hbegins : t.kind.beginsFactor before = true := by rw [ht]; rfl
  rw [List.singleton_append, beginnings_cons_of_begins hbegins, ht]
  rfl

theorem signed {sign : Sign} (ht : Sign.ofKind? t.kind = some sign) (h : Begins us places) :
    Begins (t :: us) fun n => n :: places (n + 1) := by
  obtain ⟨last, hlast, h⟩ := h
  refine ⟨last, hlast, fun before hb n ts => ?_⟩
  have hlen : n + (us.length + 1) = n + 1 + us.length := by omega
  rw [List.cons_append, beginnings_cons_of_begins (beginsFactor_of_sign hb ht),
    h _ (opens_of_sign ht), List.length_cons, hlen]
  rfl

/-- A closing bracket begins no factor, and it ends an operand. -/
theorem rightParen (hr : r.kind = .rightParen) (h : Begins us places) :
    Begins (us ++ [r]) places := by
  obtain ⟨last, -, h⟩ := h
  refine ⟨.rightParen, rfl, fun before hb n ts => ?_⟩
  have hnot : r.kind.beginsFactor (some last) = false := by rw [hr]; rfl
  rw [List.append_assoc, List.singleton_append, h before hb, beginnings_cons_of_not_begins hnot, hr,
    List.length_append]
  rfl

theorem group (hl : l.kind = .leftParen) (hr : r.kind = .rightParen) (h : Begins us places) :
    Begins (l :: (us ++ [r])) fun n => n :: places (n + 1) := by
  obtain ⟨last, hlast, h⟩ := h.rightParen hr
  refine ⟨last, hlast, fun before hb n ts => ?_⟩
  have hlen : n + ((us ++ [r]).length + 1) = n + 1 + (us ++ [r]).length := by omega
  rw [List.cons_append, beginnings_cons_of_begins (beginsFactor_of_leftParen hb hl),
    h _ (opens_of_leftParen hl), List.length_cons, hlen]
  rfl

theorem call {f : Function} (ht : t.kind = .function f) (hl : l.kind = .leftParen)
    (hr : r.kind = .rightParen) (h : Begins us places) :
    Begins (t :: l :: (us ++ [r])) fun n => n :: places (n + 2) := by
  obtain ⟨last, hlast, h⟩ := h.rightParen hr
  refine ⟨last, hlast, fun before _ n ts => ?_⟩
  have hname : t.kind.beginsFactor before = true := by rw [ht]; rfl
  have hbracket : l.kind.beginsFactor (some t.kind) = false := by rw [ht, hl]; rfl
  have hlen : n + ((us ++ [r]).length + 1 + 1) = n + 2 + (us ++ [r]).length := by omega
  rw [List.cons_append, List.cons_append, beginnings_cons_of_begins hname,
    beginnings_cons_of_not_begins hbracket, h _ (opens_of_leftParen hl), List.length_cons,
    List.length_cons, hlen]
  rfl

theorem binary {op : BinaryOp} (hl : Begins us places) (ht : BinaryOp.ofKind? t.kind = some op)
    (hr : Begins vs places') :
    Begins (us ++ t :: vs) fun n => places n ++ places' (n + us.length + 1) := by
  obtain ⟨last, hlast, hl⟩ := hl
  obtain ⟨last', hlast', hr⟩ := hr
  refine ⟨last', hlast', fun before hb n ts => ?_⟩
  have hlen : n + (us.length + (vs.length + 1)) = n + us.length + 1 + vs.length := by omega
  rw [List.append_assoc, List.cons_append, hl before hb,
    beginnings_cons_of_not_begins (beginsFactor_of_operator hlast ht), hr _ (opens_of_operator ht),
    List.length_append, List.length_cons, hlen, List.append_assoc]

end Begins

/-- **The tokens that begin the factors of a derivation are known by their neighbours.** -/
theorem begins_tokens {p : Phrase} (d : Derivation p) : Begins d.tokens d.beginnings := by
  induction d with
  | number t ht => exact .number ht
  | signed sign t ht d ih => exact ih.signed ht
  | group l r hl hr d ih => exact ih.group hl hr
  | call f t l r ht hl hr d ih => exact ih.call ht hl hr
  | base d ih | first c d ih => exact ih
  | power b t ht d ihb ihd =>
    have hop : BinaryOp.ofKind? t.kind = some .power := by rw [ht]; rfl
    exact ihb.binary hop ihd
  | link c front op t hop ht d ihf ihd => exact ihf.binary ht ihd

theorem Derivation.beginnings_eq {p : Phrase} (d : Derivation p) (n : Nat) :
    d.beginnings n = Reckon.beginnings none n d.tokens := by
  obtain ⟨last, -, h⟩ := begins_tokens d
  have h := h none opens_none n []
  rw [List.append_nil] at h
  rw [h, Reckon.beginnings, List.append_nil]

/-- The factors of `-(1+sin(2))`: not the plus between operands, nor the bracket of the call. -/
example :
    beginnings none 0
      ([.minus, .leftParen, .number, .plus, .function .sin, .leftParen, .number, .rightParen,
        .rightParen].map fun kind => ⟨kind, "", .point 0, 0⟩) = [0, 1, 2, 4, 6] := by
  decide

/-! ## The steps of the reader -/

namespace Reader

variable {before : Option TokenKind} {s s' : State} {t : Token}

/-- Whether what is expected goes with the class of the token in front of the cursor. -/
def Mode.Behind (before : Option TokenKind) : Mode → Prop
  | .factor | .argument => Opens before
  | .name f => before = some (.function f)
  | .complete _ => ∃ last, before = some last ∧ last.endsOperand = true

theorem opens_of_wantsFactor (h : s.mode.Behind before) (hs : s.wantsFactor = true) :
    Opens before := by
  obtain ⟨mode, σ⟩ := s
  cases mode with
  | factor | argument => exact h
  | name _ | complete _ => cases hs

/-- **A token that is taken begins a factor iff it looks like one.** -/
theorem Step.behind (h : Step t s s') (hs : s.mode.Behind before) :
    s.wantsFactor = t.kind.beginsFactor before ∧ s'.mode.Behind (some t.kind) := by
  cases h with
  | number hw ht =>
    rw [hw, ht]
    exact ⟨rfl, _, rfl, rfl⟩
  | sign hw ht =>
    rw [hw, beginsFactor_of_sign (opens_of_wantsFactor hs hw) ht]
    exact ⟨rfl, opens_of_sign ht⟩
  | leftParen hw ht =>
    rw [hw, beginsFactor_of_leftParen (opens_of_wantsFactor hs hw) ht]
    exact ⟨rfl, opens_of_leftParen ht⟩
  | function hw ht =>
    rw [hw, ht]
    exact ⟨rfl, rfl⟩
  | name ht =>
    cases hs
    refine ⟨?_, opens_of_leftParen ht⟩
    rw [ht]
    rfl
  | operator ht _ =>
    obtain ⟨last, rfl, hlast⟩ := hs
    exact ⟨(beginsFactor_of_operator hlast ht).symm, opens_of_operator ht⟩
  | rightParen ht _ =>
    obtain ⟨last, rfl, hlast⟩ := hs
    rw [ht]
    exact ⟨rfl, _, rfl, rfl⟩

end Reader

end Reckon
