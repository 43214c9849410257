/-
  Reading without a limit on the depth.

  * `State.after` is the state behind some tokens, and `result_run_none` says that
    reading is `State.after` and then `State.finish`;
  * `leftOperand` is what an operator takes from the stack as its left operand;
  * `Admits p σ`: a phrase of the kind `p` may begin on the stack `σ`; then an
    operator of its kind takes no more than the operand in front of it
    (`leftOperand_of_admits`);
  * `Step t s s'` lists what a token can do, and `State.step_none_iff` says that
    this is `State.step`.
-/
import Reckon.Proofs.Grammar

namespace Reckon.Reader

variable {σ : List Frame} {e : Expr} {t : Token} {op : BinaryOp} {n : Nat}

/-! ## Closing -/

@[simp] theorem closeTighter_sign (q : Nat) (e : Expr) (sign : Sign) (n : Nat) (σ : List Frame) :
    closeTighter q e (⟨.sign sign, n⟩ :: σ) = closeTighter q (.signed sign e) σ := rfl

@[simp] theorem closeTighter_bracket (q : Nat) (e : Expr) (b : Bracket) (n : Nat)
    (σ : List Frame) :
    closeTighter q e (⟨.bracket b, n⟩ :: σ) = (e, ⟨.bracket b, n⟩ :: σ) := rfl

theorem closeTighter_operand_lt {q : Nat} (h : q < op.precedence) (left : Expr) :
    closeTighter q e (⟨.operand left op, n⟩ :: σ) = closeTighter q (.binary op left e) σ := by
  rw [closeTighter, if_pos h]

theorem closeTighter_operand_le {q : Nat} (h : op.precedence ≤ q) (left : Expr) :
    closeTighter q e (⟨.operand left op, n⟩ :: σ) = (e, ⟨.operand left op, n⟩ :: σ) := by
  rw [closeTighter, if_neg (Nat.not_lt.2 h)]

theorem closeLink_joins {op' : BinaryOp} (hg : op.groupsLeft = true)
    (hp : op'.precedence = op.precedence) (left : Expr) :
    closeLink op e (⟨.operand left op', n⟩ :: σ) = (.binary op' left e, σ, n) := by
  simp [closeLink, hg, hp]

/-- Whether the innermost open thing is a link of the chain of an operator. -/
def IsLink (op : BinaryOp) : List Frame → Prop
  | ⟨.operand _ op', _⟩ :: _ => op.groupsLeft = true ∧ op'.precedence = op.precedence
  | _ => False

theorem exists_of_isLink (h : IsLink op σ) : ∃ left op' n below,
    σ = ⟨.operand left op', n⟩ :: below ∧ op.groupsLeft = true ∧
      op'.precedence = op.precedence := by
  match σ, h with
  | ⟨.operand left op', n⟩ :: below, ⟨hg, hp⟩ => exact ⟨left, op', n, below, rfl, hg, hp⟩

theorem closeLink_of_not_isLink (h : ¬ IsLink op σ) : closeLink op e σ = (e, σ, depth σ) := by
  unfold closeLink
  split
  · rw [if_neg (by simpa [IsLink] using h)]
    rfl
  · rfl

/-- What an operator takes from the stack as its left operand: the expression,
    the frames below, and the depth from which it goes on. -/
def leftOperand (op : BinaryOp) (e : Expr) (σ : List Frame) : Expr × List Frame × Nat :=
  closeLink op (closeTighter op.precedence e σ).1 (closeTighter op.precedence e σ).2

/-! ## What may begin on a stack -/

/-- Whether a phrase of a kind may begin on a stack: behind a sign this is a factor,
    and behind an operator it may be the right operand. -/
def Admits (p : Phrase) : List Frame → Prop
  | ⟨.sign _, _⟩ :: _ => p = .factor
  | ⟨.operand _ op, _⟩ :: _ => op.right.precedence ≤ p.precedence
  | _ => True

@[simp] theorem admits_nil (p : Phrase) : Admits p [] := trivial

theorem admits_factor (σ : List Frame) : Admits .factor σ := by
  match σ with
  | [] | ⟨.bracket _, _⟩ :: _ => trivial
  | ⟨.sign _, _⟩ :: _ => rfl
  | ⟨.operand _ op, _⟩ :: _ =>
    rw [Admits]
    exact Nat.le_trans op.precedence_right_le op.precedence_lt_factor

/-- Where a phrase may begin, one that binds more tightly may begin. -/
theorem Admits.tighter {p q : Phrase} (h : Admits p σ) (hq : p.precedence ≤ q.precedence) :
    Admits q σ := by
  match σ, h with
  | [], _ | ⟨.bracket _, _⟩ :: _, _ => trivial
  | ⟨.operand _ _, _⟩ :: _, h => exact Nat.le_trans h hq
  | ⟨.sign _, _⟩ :: _, h =>
    subst h
    match q, hq with
    | .factor, _ => rfl
    | .chain .sum, hq | .chain .product, hq => exact absurd hq (by decide)

theorem closeTighter_of_admits {p : Phrase} (hp : p ≠ .factor) (h : Admits p σ) :
    closeTighter p.precedence e σ = (e, σ) := by
  match σ, h with
  | [], _ | ⟨.bracket _, _⟩ :: _, _ => rfl
  | ⟨.sign _, _⟩ :: _, h => exact absurd h hp
  | ⟨.operand _ op, _⟩ :: _, h =>
    exact closeTighter_operand_le (Nat.le_trans op.precedence_le_right h) _

theorem not_isLink_of_admits (h : Admits op.phrase σ) : ¬ IsLink op σ := by
  intro hl
  obtain ⟨left, op', n, below, rfl, hg, hp⟩ := exists_of_isLink hl
  rw [← BinaryOp.groupsLeft_congr hp] at hg
  rw [Admits, BinaryOp.precedence_right hg, BinaryOp.precedence_phrase, hp] at h
  exact absurd h (Nat.not_succ_le_self _)

/-- **An operator takes no more than the operand in front of it,** where a phrase
    of its kind has only just begun. -/
theorem leftOperand_of_admits (h : Admits op.phrase σ) :
    leftOperand op e σ = (e, σ, depth σ) := by
  have hne : op.phrase ≠ .factor := by cases op <;> simp [BinaryOp.phrase]
  have hc := closeTighter_of_admits (e := e) hne h
  rw [BinaryOp.precedence_phrase] at hc
  rw [leftOperand, hc]
  exact closeLink_of_not_isLink (not_isLink_of_admits h)

/-! ## Steps -/

/-- What a token does that is taken. -/
inductive Step (t : Token) : State → State → Prop where
  | number {s : State} (hs : s.wantsFactor = true) (ht : t.kind = .number) :
      Step t s ⟨.complete (.number t.value), s.stack⟩
  | sign {s : State} {sign : Sign} (hs : s.wantsFactor = true)
      (ht : Sign.ofKind? t.kind = some sign) :
      Step t s ⟨.factor, ⟨.sign sign, depth s.stack + 1⟩ :: s.stack⟩
  | leftParen {s : State} (hs : s.wantsFactor = true) (ht : t.kind = .leftParen) :
      Step t s ⟨.factor, ⟨.bracket .group, depth s.stack + 1⟩ :: s.stack⟩
  | function {s : State} {f : Function} (hs : s.wantsFactor = true) (ht : t.kind = .function f) :
      Step t s ⟨.name f, s.stack⟩
  | name {f : Function} {σ : List Frame} (ht : t.kind = .leftParen) :
      Step t ⟨.name f, σ⟩ ⟨.argument, ⟨.bracket (.call f), depth σ + 1⟩ :: σ⟩
  | operator {e left : Expr} {σ below : List Frame} {op : BinaryOp} {n : Nat}
      (ht : BinaryOp.ofKind? t.kind = some op) (h : leftOperand op e σ = (left, below, n)) :
      Step t ⟨.complete e, σ⟩ ⟨.factor, ⟨.operand left op, n + 1⟩ :: below⟩
  | rightParen {e v : Expr} {σ below : List Frame} {b : Bracket} {n : Nat}
      (ht : t.kind = .rightParen) (h : closeTighter 0 e σ = (v, ⟨.bracket b, n⟩ :: below)) :
      Step t ⟨.complete e, σ⟩ ⟨.complete (b.close v), below⟩

namespace State

variable {s s' : State}

theorem step_of_wantsFactor (hs : s.wantsFactor = true) (limit : Option Nat) (t : Token) :
    s.step limit t = beginFactor limit t s.stack := by
  obtain ⟨mode, σ⟩ := s
  cases mode with
  | factor | argument => rfl
  | name _ | complete _ => cases hs

theorem step_of_isStep (h : Step t s s') : s.step none t = .ok s' := by
  cases h with
  | number hs ht =>
    rw [step_of_wantsFactor hs, beginFactor]
    simp only [ht]
  | sign hs ht =>
    rw [step_of_wantsFactor hs, beginFactor]
    cases hk : t.kind with
    | plus | minus => rw [hk] at ht; cases ht; rfl
    | _ => rw [hk] at ht; cases ht
  | leftParen hs ht =>
    rw [step_of_wantsFactor hs, beginFactor]
    simp only [ht]
    rfl
  | function hs ht =>
    rw [step_of_wantsFactor hs, beginFactor]
    simp only [ht]
  | name ht => exact if_pos ht
  | operator ht h =>
    rw [leftOperand] at h
    simp only [step, continueAfter, ht, h]
    rfl
  | rightParen ht h => simp only [step, continueAfter, ht, BinaryOp.ofKind?, h]

theorem isStep_of_beginFactor (hs : s.wantsFactor = true)
    (h : beginFactor none t s.stack = .ok s') : Step t s s' := by
  unfold beginFactor at h
  cases hk : t.kind with
  | number => simp only [hk] at h; cases h; exact .number hs hk
  | leftParen => simp only [hk] at h; cases h; exact .leftParen hs hk
  | function f => simp only [hk] at h; cases h; exact .function hs hk
  | plus => simp only [hk] at h; cases h; exact .sign hs (by rw [hk]; rfl)
  | minus => simp only [hk] at h; cases h; exact .sign hs (by rw [hk]; rfl)
  | star | slash | caret | rightParen | finish | invalid => simp only [hk] at h; cases h

theorem isStep_of_continueAfter {e : Expr} {σ : List Frame}
    (h : continueAfter none t e σ = .ok s') : Step t ⟨.complete e, σ⟩ s' := by
  unfold continueAfter at h
  split at h
  · next op ht =>
    cases h
    exact .operator ht rfl
  · split at h
    · next ht hc =>
      cases h
      exact .rightParen ht hc
    all_goals cases h

/-- **What a token can do.** -/
theorem step_none_iff : s.step none t = .ok s' ↔ Step t s s' := by
  refine ⟨fun h => ?_, step_of_isStep⟩
  obtain ⟨mode, σ⟩ := s
  cases mode with
  | factor | argument => exact isStep_of_beginFactor rfl h
  | complete e => exact isStep_of_continueAfter h
  | name f =>
    by_cases ht : t.kind = .leftParen
    · rw [step_of_isStep (.name ht)] at h
      cases h
      exact .name ht
    · simp only [step, if_neg ht] at h
      cases h

/-! ## Many steps -/

/-- What reading records where it stands. -/
def begins (s : State) (ts : List Token) : List (List Token) := if s.wantsFactor then [ts] else []

section

variable {limit : Option Nat} {stop : Span} {ts : List Token} {x : SyntaxError}

theorem run_of_enter (h : s.enter limit (place stop ts) = .error x) :
    s.run limit stop ts = ⟨.error x, ts, []⟩ := by
  cases ts <;> rw [run, h]

theorem run_nil (h : s.enter limit stop = .ok ()) :
    s.run limit stop [] = ⟨s.finish stop, [], s.begins []⟩ := by
  rw [run, place, h]
  rfl

theorem run_cons_of_error (h : s.enter limit t.span = .ok ()) (ht : s.step limit t = .error x) :
    s.run limit stop (t :: ts) = ⟨.error x, t :: ts, s.begins (t :: ts)⟩ := by
  rw [run, place, h]
  simp only [ht]
  rfl

theorem run_cons_of_ok (h : s.enter limit t.span = .ok ()) (ht : s.step limit t = .ok s') :
    s.run limit stop (t :: ts) =
      ⟨(s'.run limit stop ts).result, (s'.run limit stop ts).rest,
        s.begins (t :: ts) ++ (s'.run limit stop ts).begun⟩ := by
  rw [run, place, h]
  simp only [ht]
  rfl

end

@[simp] theorem enter_none (place : Span) (s : State) : s.enter none place = .ok () := by
  obtain ⟨mode, σ⟩ := s
  cases mode <;> rfl

/-- The state behind some tokens, under a limit. -/
def after (limit : Option Nat) (s : State) (ts : List Token) : Except SyntaxError State :=
  ts.foldlM (fun s t => (s.enter limit t.span).bind fun _ => s.step limit t) s

theorem after_cons (limit : Option Nat) (s : State) (t : Token) (ts : List Token) :
    s.after limit (t :: ts) = ((s.enter limit t.span).bind fun _ => s.step limit t).bind
      (·.after limit ts) := rfl

theorem exists_of_after_cons {limit : Option Nat} {ts : List Token}
    (h : s.after limit (t :: ts) = .ok s') :
    ∃ s₁, s.enter limit t.span = .ok () ∧ s.step limit t = .ok s₁ ∧ s₁.after limit ts = .ok s' := by
  rw [after_cons] at h
  cases he : s.enter limit t.span with
  | error x =>
    rw [he] at h
    cases h
  | ok u =>
    rw [he, Except.bind] at h
    cases ht : s.step limit t with
    | error x =>
      rw [ht] at h
      cases h
    | ok s₁ =>
      rw [ht] at h
      exact ⟨s₁, rfl, rfl, h⟩

theorem after_cons_of_isStep (h : Step t s s') (ts : List Token) :
    s.after none (t :: ts) = s'.after none ts := by
  rw [after_cons, enter_none, Except.bind, step_of_isStep h]
  rfl

theorem after_append {limit : Option Nat} {ts : List Token} (h : s.after limit ts = .ok s')
    (us : List Token) : s.after limit (ts ++ us) = s'.after limit us := by
  rw [after, List.foldlM_append, ← after, h]
  rfl

/-- **Reading without a limit goes through all tokens and then ends,** if nothing is
    wrong on the way. -/
theorem result_run_none (stop : Span) (s : State) (ts : List Token) :
    (s.run none stop ts).result = (s.after none ts).bind (·.finish stop) := by
  induction ts generalizing s with
  | nil => rw [run_nil (enter_none _ _)]; rfl
  | cons t ts ih =>
    rw [after_cons, enter_none, Except.bind]
    cases h : s.step none t with
    | error e => rw [run_cons_of_error (enter_none _ _) h]; rfl
    | ok s' => rw [run_cons_of_ok (enter_none _ _) h, ih]; rfl

/-! ## The deepest place -/

/-- The depth that is checked where a factor must begin. -/
def due (s : State) : Nat := if s.wantsFactor then depth s.stack else 0

/-- The greatest depth that reading some tokens without a limit takes. -/
def peak (s : State) : List Token → Nat
  | [] => s.due
  | t :: ts => max s.due (match s.step none t with
    | .ok s' => s'.peak ts
    | .error _ => 0)

theorem peak_cons (h : s.step none t = .ok s') (ts : List Token) :
    s.peak (t :: ts) = max s.due (s'.peak ts) := by
  rw [peak, h]

theorem peak_cons_of_error {x : SyntaxError} (h : s.step none t = .error x) (ts : List Token) :
    s.peak (t :: ts) = s.due := by
  rw [peak, h]
  exact Nat.max_eq_left (Nat.zero_le _)

theorem due_le_peak (s : State) (ts : List Token) : s.due ≤ s.peak ts := by
  cases ts with
  | nil => exact Nat.le_refl _
  | cons t ts => exact Nat.le_max_left _ _

/-- Reading some tokens leads from one state to another, and takes the depth `m`. -/
structure Leads (s : State) (ts : List Token) (m : Nat) (s' : State) : Prop where
  after : s.after none ts = .ok s'
  peak : ∀ us, s.peak (ts ++ us) = max m (s'.peak us)

namespace Leads

variable {s'' : State} {ts us : List Token} {m m' : Nat}

theorem single (h : Step t s s') : Leads s [t] s.due s' where
  after := after_cons_of_isStep h []
  peak us := peak_cons (step_of_isStep h) us

theorem append (h : Leads s ts m s') (h' : Leads s' us m' s'') :
    Leads s (ts ++ us) (max m m') s'' where
  after := by rw [after_append h.after, h'.after]
  peak vs := by rw [List.append_assoc, h.peak, h'.peak, Nat.max_assoc]

theorem cons (h : Step t s s') (h' : Leads s' us m s'') :
    Leads s (t :: us) (max s.due m) s'' :=
  (single h).append h'

/-- Where a factor must begin, it makes no difference whether the check of the
    depth is still due. -/
theorem argument {σ : List Frame} (h : Leads ⟨.factor, σ⟩ ts m s') (hts : ts ≠ []) :
    Leads ⟨.argument, σ⟩ ts m s' := by
  cases ts with
  | nil => exact absurd rfl hts
  | cons t ts => exact ⟨h.after, h.peak⟩

end Leads

end State

end Reckon.Reader
