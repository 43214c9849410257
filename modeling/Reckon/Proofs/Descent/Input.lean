/-
  What a parser does at its cursor.

  Wherever a parser stands before the first end of its tokens, all of its state but the
  counter follows from what lies ahead.

  * `Input` is what a parser reads, with its first end, and `Input.standing us n` is the parser
    that stands before the tokens `us` with `n` levels open;
  * `Input.advance_standing`, `Input.descend_standing_of_within` and so on: what changes a parser
    leads from one of them to another;
  * `Ending` is how reading ends, with the indices of the tokens at which factors were begun, and
    `Input.outcome` is the outcome of a production that ends so;
  * `Input.ending` is how the reader ends, and `Reads.ending`: reading goes through the tokens
    of a derivation that a limit allows, and the factors that it begins are those of the
    derivation.
-/
import Reckon.Proofs.Beginnings
import Reckon.Proofs.Descent
import Reckon.Proofs.Recognition.Complete

namespace Reckon

open Reader

/-! ## Inputs -/

/-- What a parser reads, up to its first end and behind it. -/
structure Input where
  before : List Token
  last : Token
  behind : List Token
  limit : Option Nat
  isFinish_before : ∀ t ∈ before, t.isFinish = false
  isFinish_last : last.isFinish = true

namespace Input

variable {i : Input} {us vs : List Token} {t : Token} {n : Nat}

/-- The index of the token at the cursor where the tokens `us` are ahead. -/
def index (i : Input) (us : List Token) : Nat := i.before.length - us.length

/-- The parser that stands before the tokens `us`, with `n` levels open. -/
def standing (i : Input) (us : List Token) (n : Nat) : Parser where
  tokens := i.before ++ i.last :: i.behind
  position := i.index us
  current := us.headD i.last
  depth := n
  limit := i.limit

@[simp] theorem current_standing_nil : (i.standing [] n).current = i.last := rfl

@[simp] theorem current_standing_cons : (i.standing (t :: us) n).current = t := rfl

@[simp] theorem kind_last (i : Input) : i.last.kind = .finish := by
  simpa [Token.isFinish] using i.isFinish_last

@[simp] theorem shown_last (i : Input) : i.last.shown = "EOF" := if_pos i.isFinish_last

theorem isFinish_of_suffix (h : t :: us <:+ i.before) : t.isFinish = false :=
  i.isFinish_before t (h.subset List.mem_cons_self)

theorem kind_ne_finish_of_suffix (h : t :: us <:+ i.before) : t.kind ≠ .finish := by
  have ht := isFinish_of_suffix h
  simpa [Token.isFinish] using ht

theorem suffix_of_cons (h : t :: us <:+ i.before) : us <:+ i.before :=
  (List.suffix_cons t us).trans h

theorem index_append (h : vs ++ us <:+ i.before) : i.index us = i.index (vs ++ us) + vs.length := by
  have hle := h.length_le
  simp only [index, List.length_append] at hle ⊢
  omega

theorem index_cons (h : t :: us <:+ i.before) : i.index us = i.index (t :: us) + 1 :=
  index_append (show [t] ++ us <:+ i.before from h)

theorem index_append_cons (h : vs ++ t :: us <:+ i.before) :
    i.index us = i.index (vs ++ t :: us) + vs.length + 1 := by
  rw [index_cons ((List.suffix_append vs _).trans h), index_append h]

/-- **The copy of the token at the cursor is that token.** -/
theorem getElem?_position (h : us <:+ i.before) :
    (i.standing us n).tokens[(i.standing us n).position]? = some (i.standing us n).current := by
  obtain ⟨vs, hvs⟩ := h
  have hpos : i.before.length - us.length = vs.length := by
    rw [← hvs, List.length_append, Nat.add_sub_cancel]
  change (i.before ++ i.last :: i.behind)[i.before.length - us.length]? = some (us.headD i.last)
  rw [hpos, ← hvs, List.append_assoc, List.getElem?_append_right (Nat.le_refl _), Nat.sub_self]
  cases us <;> rfl

theorem advance_standing (h : t :: us <:+ i.before) :
    (i.standing (t :: us) n).advance = i.standing us n := by
  have hget : (i.standing (t :: us) n).tokens[(i.standing (t :: us) n).position + 1]? =
      some (i.standing us n).current := by
    rw [← getElem?_position (n := n) (suffix_of_cons h)]
    exact congrArg (fun k => (i.before ++ i.last :: i.behind)[k]?) (index_cons h).symm
  rw [Parser.advance, hget]
  simp [standing, index_cons h]

theorem descend_standing_of_within (h : Reader.Within i.limit (n + 1)) :
    (i.standing us n).descend = (.ok (), i.standing us (n + 1)) :=
  congrArg (·, i.standing us (n + 1)) (Reader.checkDepth_of_within h _)

theorem descend_standing_of_lt {most : Nat} (hl : i.limit = some most) (h : most < n + 1) :
    (i.standing us n).descend =
      (.error ⟨.nestingTooDeep most, (us.headD i.last).span⟩, i.standing us (n + 1)) := by
  have hcheck := Reader.checkDepth_of_lt h (us.headD i.last).span
  rw [← hl] at hcheck
  exact congrArg (·, i.standing us (n + 1)) hcheck

theorem expect_standing {kind : TokenKind} (h : t :: us <:+ i.before) (ht : t.kind = kind) :
    (i.standing (t :: us) n).expect kind = (.ok (), i.standing us n) := by
  rw [Parser.expect, current_standing_cons, if_pos ht, advance_standing h]

theorem expect_standing_of_ne {kind : TokenKind} (h : t :: us <:+ i.before) (ht : t.kind ≠ kind) :
    (i.standing (t :: us) n).expect kind =
      (.error ⟨.expectedToken kind t.shown, t.span⟩, i.standing (t :: us) n) := by
  have hfinish : ¬ t.isFinish = true := by simp [isFinish_of_suffix h]
  rw [Parser.expect, current_standing_cons, if_neg ht, if_neg hfinish]

theorem expect_standing_nil {kind : TokenKind} (hk : kind ≠ .finish) :
    (i.standing [] n).expect kind = (.error ⟨.unexpectedEnd, i.last.span⟩, i.standing [] n) := by
  have hne : i.last.kind ≠ kind := by
    rw [kind_last]
    exact hk.symm
  rw [Parser.expect, current_standing_nil, if_neg hne, if_pos i.isFinish_last]

end Input

/-! ## How reading ends -/

/-- How reading ends: its result, what is left of the tokens, and the indices of the tokens at which
    it began factors, in order. -/
structure Ending where
  result : Except SyntaxError Expr
  rest : List Token
  places : List Nat

/-- The ending, where factors were begun before at some places. -/
def Ending.behind (places : List Nat) (r : Ending) : Ending :=
  { r with places := places ++ r.places }

theorem Ending.behind_behind (ms ns : List Nat) (r : Ending) :
    (r.behind ns).behind ms = r.behind (ms ++ ns) := by
  simp [behind]

namespace Input

variable {i : Input} {us : List Token} {t : Token}

/-- The record of a factor that begins at the token of some index. -/
def entry (i : Input) (n : Nat) : Nat × Record :=
  let t := (i.before ++ i.last :: i.behind)[n]?.getD i.last
  (n, .factor t.span t.kind)

theorem entry_standing (h : us <:+ i.before) (n : Nat) :
    (i.standing us n).entry = i.entry (i.index us) := by
  have hget : (i.before ++ i.last :: i.behind)[i.index us]? = some (i.standing us n).current :=
    getElem?_position h
  rw [entry, hget]
  rfl

/-- The outcome of a production that ends so, with `n` levels open. -/
def outcome (i : Input) (n : Nat) (r : Ending) : Outcome :=
  ⟨r.result, i.standing r.rest n, r.places.map i.entry⟩

theorem outcome_behind (places : List Nat) (r : Ending) :
    i.outcome n (r.behind places) = (i.outcome n r).behind (places.map i.entry) := by
  simp [outcome, Ending.behind, Outcome.behind]

/-- How the reader ends. -/
def ending (i : Input) (s : State) (us : List Token) : Ending :=
  let reading := s.run i.limit i.last.span us
  ⟨reading.result, reading.rest, reading.begun.map i.index⟩

/-- Where the reader begins a factor at its cursor, if it does. -/
def begins (i : Input) (s : State) (us : List Token) : List Nat := (s.begins us).map i.index

variable {s s' : State} {x : SyntaxError}

theorem ending_of_enter (h : s.enter i.limit (place i.last.span us) = .error x) :
    i.ending s us = ⟨.error x, us, []⟩ := by
  rw [ending, State.run_of_enter h]
  rfl

theorem ending_nil (h : s.enter i.limit i.last.span = .ok ()) :
    i.ending s [] = ⟨s.finish i.last.span, [], i.begins s []⟩ := by
  rw [ending, State.run_nil h]
  rfl

theorem ending_cons_of_error (h : s.enter i.limit t.span = .ok ())
    (ht : s.step i.limit t = .error x) :
    i.ending s (t :: us) = ⟨.error x, t :: us, i.begins s (t :: us)⟩ := by
  rw [ending, State.run_cons_of_error h ht]
  rfl

theorem ending_cons_of_ok (h : s.enter i.limit t.span = .ok ()) (ht : s.step i.limit t = .ok s') :
    i.ending s (t :: us) = (i.ending s' us).behind (i.begins s (t :: us)) := by
  rw [ending, State.run_cons_of_ok h ht]
  simp [ending, begins, Ending.behind]

/-- Behind an operand, the reader begins no factor. -/
theorem behind_complete (result : Except SyntaxError Expr) (rest us : List Token) (e : Expr)
    (σ : List Frame) (places : List Nat) :
    Ending.behind places ⟨result, rest, i.begins ⟨.complete e, σ⟩ us⟩ = ⟨result, rest, places⟩ :=
  congrArg (Ending.mk result rest) (List.append_nil places)

/-- Where the depth was checked before, it makes no difference whether the check is still
    due. -/
theorem ending_argument {σ : List Frame} (h : Within i.limit (depth σ)) (us : List Token) :
    i.ending ⟨.argument, σ⟩ us = i.ending ⟨.factor, σ⟩ us := by
  have henter : ∀ place, State.enter i.limit place ⟨.argument, σ⟩ = .ok () :=
    fun place => checkDepth_of_within h place
  cases us with
  | nil => rw [ending_nil (henter _), ending_nil rfl]; rfl
  | cons t us =>
    cases hs : State.step i.limit t ⟨.factor, σ⟩ with
    | error x => rw [ending_cons_of_error (henter _) hs, ending_cons_of_error rfl hs]; rfl
    | ok s' => rw [ending_cons_of_ok (henter _) hs, ending_cons_of_ok rfl hs]; rfl

end Input

namespace Reader

variable {i : Input} {s s' : State} {t : Token} {ts : List Token}

namespace State

/-- Under a limit, a token leads where it leads without one, if the depth there is within
    the limit. -/
theorem step_of_isStep_of_within {limit : Option Nat} (h : Step t s s')
    (hw : Within limit s'.due) : s.step limit t = .ok s' := by
  rw [step_eq, step_of_isStep h, Except.bind, checked_of_within fun _ => hw]

theorem step_of_isStep_of_lt {most : Nat} (h : Step t s s') (hs : s'.mode = .factor)
    (hd : most < s'.due) : s.step (some most) t = .error ⟨.nestingTooDeep most, t.span⟩ := by
  rw [step_eq, step_of_isStep h, Except.bind, checked_of_lt hs hd]

end State

/-- Reading goes through tokens that get no deeper than the limit, and begins a factor at each
    token that looks like it. -/
theorem ending_append {before : Option TokenKind} {us : List Token} (hs : s.after none ts = .ok s')
    (hw : Within i.limit (s.peak ts)) (hb : s.mode.Behind before) (hus : ts ++ us <:+ i.before) :
    i.ending s (ts ++ us) =
      (i.ending s' us).behind (beginnings before (i.index (ts ++ us)) ts) := by
  induction ts generalizing s before with
  | nil =>
    cases hs
    rfl
  | cons t ts ih =>
    obtain ⟨s₁, -, ht, hs₁⟩ := State.exists_of_after_cons hs
    rw [State.peak_cons ht] at hw
    have hw₁ : Within i.limit (s₁.peak ts) := hw.mono (Nat.le_max_right _ _)
    have he := State.enter_of_within (hw.mono (Nat.le_max_left _ _)) t.span
    have htaken := State.step_none_iff.1 ht
    have hstep := State.step_of_isStep_of_within htaken (hw₁.mono (State.due_le_peak s₁ ts))
    obtain ⟨hwants, hb₁⟩ := htaken.behind hb
    rw [List.cons_append] at hus ⊢
    rw [Input.ending_cons_of_ok he hstep, ih hs₁ hw₁ hb₁ (Input.suffix_of_cons hus),
      Input.index_cons hus, Ending.behind_behind, beginnings, Input.begins, State.begins, hwants]
    split <;> rfl

/-- **Reading goes through the tokens of a derivation that the limit allows,** and begins the
    factors of the derivation. -/
theorem Reads.ending {p : Phrase} {d : Derivation p} {σ τ : List Frame} {e : Expr}
    (h : Reads d σ e τ) (hw : Within i.limit (depth σ + d.cost)) {us : List Token}
    (hus : d.tokens ++ us <:+ i.before) :
    i.ending ⟨.factor, σ⟩ (d.tokens ++ us) =
      (i.ending ⟨.complete e, τ⟩ us).behind (d.beginnings (i.index (d.tokens ++ us))) := by
  have hpeak := h.leads.peak []
  have hdue : State.peak ⟨.complete e, τ⟩ [] = 0 := rfl
  rw [List.append_nil, hdue, Nat.max_zero] at hpeak
  rw [d.beginnings_eq]
  exact ending_append h.leads.after (by rwa [hpeak]) opens_none hus

end Reader

end Reckon
