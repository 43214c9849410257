/-
  Reading with a limit on the depth.

  A limit only ever cuts a reading short, at the first place that is too deep.

  * `State.step_eq`: under a limit, a token does what it does without one, and then
    the depth is checked;
  * `State.run_eq_of_within` and `State.result_run_of_lt_peak`: a reading that
    stays within the limit is the reading without a limit, and any other one stops
    with the error of the limit;
  * `State.rest_suffix_of_looser`: under a looser limit it goes at least as far;
  * `State.problem_run_none`: without a limit there is no error of a limit;
  * `State.bounded_after` and `State.peak_le`: no reading gets deeper than it has
    tokens.
-/
import Reckon.Proofs.Reading

namespace Reckon.Reader

/-- Whether a depth is within a limit. -/
def Within (limit : Option Nat) (depth : Nat) : Prop := ∀ most ∈ limit, depth ≤ most

/-- Whether the second limit allows whatever the first one does. -/
def Looser (limit limit' : Option Nat) : Prop := ∀ depth, Within limit depth → Within limit' depth

theorem within_none (depth : Nat) : Within none depth := nofun

theorem within_some {most depth : Nat} : Within (some most) depth ↔ depth ≤ most := by
  simp [Within]

theorem looser_none (limit : Option Nat) : Looser limit none := fun depth _ => within_none depth

theorem looser_some {most most' : Nat} (h : most ≤ most') : Looser (some most) (some most') := by
  intro depth hd
  exact within_some.2 (Nat.le_trans (within_some.1 hd) h)

theorem Within.mono {limit : Option Nat} {d d' : Nat} (h : Within limit d) (hd : d' ≤ d) :
    Within limit d' :=
  fun most hm => Nat.le_trans hd (h most hm)

theorem checkDepth_of_within {limit : Option Nat} {depth : Nat} (h : Within limit depth)
    (place : Span) : checkDepth limit depth place = .ok () := by
  cases limit with
  | none => rfl
  | some most => exact if_pos (within_some.1 h)

theorem checkDepth_of_lt {most depth : Nat} (h : most < depth) (place : Span) :
    checkDepth (some most) depth place = .error ⟨.nestingTooDeep most, place⟩ :=
  if_neg (Nat.not_le.2 h)

theorem within_of_checkDepth {limit : Option Nat} {depth : Nat} {place : Span}
    (h : checkDepth limit depth place = .ok ()) : Within limit depth := by
  cases limit with
  | none => exact within_none depth
  | some most =>
    rcases Nat.lt_or_ge most depth with hlt | hle
    · rw [checkDepth_of_lt hlt] at h
      cases h
    · exact within_some.2 hle

namespace State

variable {limit limit' : Option Nat} {s s' : State} {t : Token} {ts : List Token}

/-! ## The check at a step -/

/-- The check of the depth at the token that opened something. -/
def checked (limit : Option Nat) (place : Span) (s : State) : Except SyntaxError State :=
  match s.mode with
  | .factor => (checkDepth limit (depth s.stack) place).map fun _ => s
  | _ => .ok s

theorem openAt_eq (limit : Option Nat) (place : Span) (outer : Nat) (opening : Opening)
    (stack : List Frame) :
    (openAt limit place outer opening stack).map (State.mk .factor) =
      checked limit place ⟨.factor, ⟨opening, outer + 1⟩ :: stack⟩ := by
  rw [openAt, checked, depth]
  cases checkDepth limit (outer + 1) place <;> rfl

@[simp] theorem checked_none (place : Span) (s : State) : checked none place s = .ok s := by
  obtain ⟨mode, σ⟩ := s
  cases mode <;> rfl

theorem beginFactor_eq (limit : Option Nat) (t : Token) (σ : List Frame) :
    beginFactor limit t σ = (beginFactor none t σ).bind (checked limit t.span) := by
  unfold beginFactor
  cases t.kind with
  | leftParen | plus | minus => simp only [Sign.ofKind?, openAt_eq, checked_none]; rfl
  | _ => rfl

theorem continueAfter_eq (limit : Option Nat) (t : Token) (e : Expr) (σ : List Frame) :
    continueAfter limit t e σ = (continueAfter none t e σ).bind (checked limit t.span) := by
  unfold continueAfter
  split
  · simp only [openAt_eq, checked_none]; rfl
  · split <;> rfl

/-- **Under a limit, a token does what it does without one, and then the depth is
    checked.** -/
theorem step_eq (limit : Option Nat) (t : Token) (s : State) :
    s.step limit t = (s.step none t).bind (checked limit t.span) := by
  obtain ⟨mode, σ⟩ := s
  cases mode with
  | factor | argument => exact beginFactor_eq limit t σ
  | complete e => exact continueAfter_eq limit t e σ
  | name f =>
    by_cases ht : t.kind = .leftParen
    · simp only [step, if_pos ht]; rfl
    · simp only [step, if_neg ht]; rfl

/-! What is due is checked in one of two places: at the token that made the depth
    grow, or, for the argument of a function, where it begins. -/

theorem enter_of_within (h : Within limit s.due) (place : Span) : s.enter limit place = .ok () := by
  obtain ⟨mode, σ⟩ := s
  cases mode with
  | argument => exact checkDepth_of_within h place
  | _ => rfl

theorem enter_of_lt {most : Nat} (hs : s.mode = .factor → s.due ≤ most) (h : most < s.due)
    (place : Span) : s.enter (some most) place = .error ⟨.nestingTooDeep most, place⟩ := by
  obtain ⟨mode, σ⟩ := s
  cases mode with
  | factor => exact absurd (hs rfl) (Nat.not_le.2 h)
  | argument => exact checkDepth_of_lt h place
  | name _ | complete _ => exact absurd h (Nat.not_lt_zero _)

theorem checked_of_within (h : s.mode = .factor → Within limit s.due) (place : Span) :
    checked limit place s = .ok s := by
  obtain ⟨mode, σ⟩ := s
  cases mode with
  | factor =>
    have hd : Within limit (depth σ) := h rfl
    rw [checked, checkDepth_of_within hd]
    rfl
  | _ => rfl

theorem checked_of_lt {most : Nat} (hs : s.mode = .factor) (h : most < s.due) (place : Span) :
    checked (some most) place s = .error ⟨.nestingTooDeep most, place⟩ := by
  obtain ⟨mode, σ⟩ := s
  cases hs
  have hd : most < depth σ := h
  rw [checked, checkDepth_of_lt hd]
  rfl

theorem enter_of_looser (hl : Looser limit limit') {place : Span}
    (h : s.enter limit place = .ok ()) : s.enter limit' place = .ok () := by
  obtain ⟨mode, σ⟩ := s
  cases mode with
  | argument => exact checkDepth_of_within (hl _ (within_of_checkDepth h)) place
  | _ => rfl

theorem checked_of_looser (hl : Looser limit limit') {place : Span}
    (h : checked limit place s = .ok s') : checked limit' place s = .ok s' := by
  obtain ⟨mode, σ⟩ := s
  cases mode with
  | factor =>
    rw [checked] at h
    cases hd : checkDepth limit (depth σ) place with
    | error x =>
      rw [hd] at h
      cases h
    | ok u =>
      rw [hd] at h
      rw [checked, checkDepth_of_within (hl _ (within_of_checkDepth hd)) place]
      exact h
  | _ => exact h

/-- What a token can do under a limit, it can do under a looser one. -/
theorem step_of_looser (hl : Looser limit limit') (h : s.step limit t = .ok s') :
    s.step limit' t = .ok s' := by
  rw [step_eq] at h ⊢
  cases hnone : s.step none t with
  | error x =>
    rw [hnone] at h
    cases h
  | ok s₁ =>
    rw [hnone] at h
    exact checked_of_looser hl h

theorem isStep_of_step (h : s.step limit t = .ok s') : Step t s s' :=
  step_none_iff.1 (step_of_looser (looser_none limit) h)

/-! ## The run -/

/-- **A reading that stays within the limit is the reading without a limit.** -/
theorem run_eq_of_within (stop : Span) (h : Within limit (s.peak ts)) :
    s.run limit stop ts = s.run none stop ts := by
  induction ts generalizing s with
  | nil => rw [run_nil (enter_of_within h _), run_nil (enter_none _ _)]
  | cons t ts ih =>
    have he := enter_of_within (h.mono (due_le_peak s (t :: ts))) t.span
    have hstep := step_eq limit t s
    cases hnone : s.step none t with
    | error x =>
      rw [hnone] at hstep
      rw [run_cons_of_error he hstep, run_cons_of_error (enter_none _ _) hnone]
    | ok s₁ =>
      rw [hnone] at hstep
      rw [peak_cons hnone] at h
      have h₁ : Within limit (s₁.peak ts) := h.mono (Nat.le_max_right _ _)
      have hd : Within limit s₁.due := h₁.mono (due_le_peak s₁ ts)
      rw [Except.bind, checked_of_within fun _ => hd] at hstep
      rw [run_cons_of_ok he hstep, run_cons_of_ok (enter_none _ _) hnone, ih h₁]

/-- **Any other reading stops with the error of the limit.** What the first token
    finds open was checked before, except at the argument of a function. -/
theorem result_run_of_lt_peak {most : Nat} (stop : Span) (hs : s.mode = .factor → s.due ≤ most)
    (h : most < s.peak ts) :
    (s.run (some most) stop ts).result =
      .error ⟨.nestingTooDeep most, place stop (s.run (some most) stop ts).rest⟩ := by
  induction ts generalizing s with
  | nil => rw [run_of_enter (enter_of_lt hs h _)]
  | cons t ts ih =>
    by_cases hdue : s.due ≤ most
    · have he := enter_of_within (within_some.2 hdue) t.span
      have hstep := step_eq (some most) t s
      cases hnone : s.step none t with
      | error x =>
        rw [peak_cons_of_error hnone] at h
        exact absurd hdue (Nat.not_le.2 h)
      | ok s₁ =>
        rw [peak_cons hnone] at h
        rw [hnone, Except.bind] at hstep
        -- A depth that is too great at a factor was found at the token before it.
        by_cases hs₁ : s₁.mode = .factor → s₁.due ≤ most
        · rw [checked_of_within fun hm => within_some.2 (hs₁ hm)] at hstep
          rw [run_cons_of_ok he hstep]
          exact ih hs₁ (by omega)
        · rw [Classical.not_imp, Nat.not_le] at hs₁
          rw [checked_of_lt hs₁.1 hs₁.2] at hstep
          rw [run_cons_of_error he hstep]
          rfl
    · rw [run_of_enter (enter_of_lt hs (Nat.not_le.1 hdue) _)]

/-! ## How far it goes -/

theorem rest_nil (limit : Option Nat) (stop : Span) (s : State) :
    (s.run limit stop []).rest = [] := by
  cases he : s.enter limit stop with
  | error x => rw [run_of_enter he]
  | ok u => rw [run_nil he]

/-- Reading stops at a token, or it goes on behind it. -/
theorem rest_cons (limit : Option Nat) (stop : Span) (s : State) (t : Token) (ts : List Token) :
    (s.run limit stop (t :: ts)).rest = t :: ts ∨
      ∃ s', s.enter limit t.span = .ok () ∧ s.step limit t = .ok s' ∧
        (s.run limit stop (t :: ts)).rest = (s'.run limit stop ts).rest := by
  cases he : s.enter limit t.span with
  | error x => exact Or.inl (by rw [run_of_enter he])
  | ok u =>
    cases ht : s.step limit t with
    | error x => exact Or.inl (by rw [run_cons_of_error he ht])
    | ok s' => exact Or.inr ⟨s', rfl, rfl, by rw [run_cons_of_ok he ht]⟩

theorem rest_suffix (limit : Option Nat) (stop : Span) (s : State) (ts : List Token) :
    (s.run limit stop ts).rest <:+ ts := by
  induction ts generalizing s with
  | nil => exact ⟨[], rest_nil limit stop s⟩
  | cons t ts ih =>
    rcases rest_cons limit stop s t ts with h | ⟨s', -, -, h⟩
    · exact ⟨[], h⟩
    · rw [h]
      exact (ih s').trans (List.suffix_cons t ts)

/-- **Under a looser limit, reading goes at least as far.** -/
theorem rest_suffix_of_looser (hl : Looser limit limit') (stop : Span) (s : State)
    (ts : List Token) : (s.run limit' stop ts).rest <:+ (s.run limit stop ts).rest := by
  induction ts generalizing s with
  | nil => exact ⟨[], by rw [List.nil_append, rest_nil, rest_nil]⟩
  | cons t ts ih =>
    rcases rest_cons limit stop s t ts with h | ⟨s', he, hs, h⟩
    · rw [h]
      exact rest_suffix limit' stop s (t :: ts)
    · rw [h, run_cons_of_ok (enter_of_looser hl he) (step_of_looser hl hs)]
      exact ih s'

/-! ## No limit -/

theorem problem_step_none {x : SyntaxError} (h : s.step none t = .error x) (most : Nat) :
    x.problem ≠ .nestingTooDeep most := by
  obtain ⟨mode, σ⟩ := s
  cases mode with
  | factor | argument =>
    simp only [step, beginFactor] at h
    split at h
    any_goals cases h
    split at h <;> cases h
    simp
  | name f =>
    simp only [step] at h
    split at h <;> cases h
    simp
  | complete e =>
    simp only [step, continueAfter] at h
    split at h
    · cases h
    · split at h <;> cases h <;> simp

theorem problem_finish {stop : Span} {x : SyntaxError} (h : s.finish stop = .error x) (most : Nat) :
    x.problem ≠ .nestingTooDeep most := by
  unfold finish at h
  split at h
  · split at h <;> cases h <;> simp
  · cases h
    simp

/-- **Without a limit, there is no error of a limit.** -/
theorem problem_run_none {stop : Span} {x : SyntaxError}
    (h : (s.run none stop ts).result = .error x) (most : Nat) :
    x.problem ≠ .nestingTooDeep most := by
  induction ts generalizing s with
  | nil =>
    rw [run_nil (enter_none _ _)] at h
    exact problem_finish h most
  | cons t ts ih =>
    cases hs : s.step none t with
    | error y =>
      rw [run_cons_of_error (enter_none _ _) hs] at h
      cases h
      exact problem_step_none hs most
    | ok s' =>
      rw [run_cons_of_ok (enter_none _ _) hs] at h
      exact ih h

end State

/-! ## How deep it gets -/

/-- Nothing on a stack is deeper than `n`. -/
def Bounded (n : Nat) (σ : List Frame) : Prop := ∀ frame ∈ σ, frame.depth ≤ n

namespace Bounded

variable {n : Nat} {σ : List Frame}

theorem depth_le (h : Bounded n σ) : depth σ ≤ n := by
  cases σ with
  | nil => exact Nat.zero_le n
  | cons frame σ => exact h frame List.mem_cons_self

theorem mono {m : Nat} (h : Bounded n σ) (hm : n ≤ m) : Bounded m σ :=
  fun frame hf => Nat.le_trans (h frame hf) hm

theorem suffix {below : List Frame} (h : Bounded n σ) (hs : below <:+ σ) : Bounded n below :=
  fun frame hf => h frame (hs.subset hf)

theorem push {k : Nat} (h : Bounded n σ) (hk : k ≤ n) (opening : Opening) :
    Bounded (n + 1) (⟨opening, k + 1⟩ :: σ) := by
  intro frame hf
  rcases List.mem_cons.1 hf with rfl | hf
  · exact Nat.succ_le_succ hk
  · exact Nat.le_succ_of_le (h frame hf)

end Bounded

theorem closeTighter_suffix (q : Nat) (e : Expr) (σ : List Frame) :
    (closeTighter q e σ).2 <:+ σ := by
  induction σ generalizing e with
  | nil => exact List.suffix_rfl
  | cons frame σ ih =>
    obtain ⟨opening, n⟩ := frame
    cases opening with
    | sign sign => exact (ih _).trans (List.suffix_cons _ _)
    | bracket b => exact List.suffix_rfl
    | operand left op =>
      by_cases h : q < op.precedence
      · rw [closeTighter_operand_lt h]
        exact (ih _).trans (List.suffix_cons _ _)
      · exact ⟨[], by rw [List.nil_append, closeTighter_operand_le (Nat.not_lt.1 h)]⟩

theorem bounded_leftOperand {n : Nat} {σ : List Frame} (h : Bounded n σ) (op : BinaryOp)
    (e : Expr) : Bounded n (leftOperand op e σ).2.1 ∧ (leftOperand op e σ).2.2 ≤ n := by
  have hc : Bounded n (closeTighter op.precedence e σ).2 := h.suffix (closeTighter_suffix _ _ _)
  unfold leftOperand closeLink
  split
  · next left op' d below heq =>
    rw [heq] at hc
    split
    · exact ⟨hc.suffix (List.suffix_cons _ _), hc.depth_le⟩
    · exact ⟨hc, hc.depth_le⟩
  · exact ⟨hc, hc.depth_le⟩

variable {s s' : State} {t : Token} {n : Nat}

/-- A token goes at most one deeper. -/
theorem Step.bounded (hs : Step t s s') (h : Bounded n s.stack) : Bounded (n + 1) s'.stack := by
  cases hs with
  | number _ _ | function _ _ => exact h.mono (Nat.le_succ n)
  | sign _ _ | leftParen _ _ | name _ => exact h.push h.depth_le _
  | @operator e left σ below op d _ hl =>
    have hb := bounded_leftOperand h op e
    rw [hl] at hb
    exact hb.1.push hb.2 _
  | @rightParen e v σ below b d _ hc =>
    have hb := closeTighter_suffix 0 e σ
    rw [hc] at hb
    exact (h.suffix ((List.suffix_cons _ _).trans hb)).mono (Nat.le_succ n)

namespace State

theorem bounded_after {limit : Option Nat} {ts : List Token} (h : Bounded n s.stack)
    (hs : s.after limit ts = .ok s') : Bounded (n + ts.length) s'.stack := by
  induction ts generalizing s n with
  | nil => cases hs; exact h
  | cons t ts ih =>
    obtain ⟨s₁, -, ht, hs₁⟩ := exists_of_after_cons hs
    have hb := ih ((isStep_of_step ht).bounded h) hs₁
    rwa [List.length_cons, ← Nat.add_assoc, Nat.add_right_comm]

theorem due_le (h : Bounded n s.stack) : s.due ≤ n := by
  unfold due
  split
  · exact h.depth_le
  · exact Nat.zero_le n

/-- **No reading gets deeper than it has tokens.** -/
theorem peak_le (h : Bounded n s.stack) (ts : List Token) : s.peak ts ≤ n + ts.length := by
  induction ts generalizing s n with
  | nil => exact due_le h
  | cons t ts ih =>
    have hd : s.due ≤ n := due_le h
    rw [List.length_cons]
    cases hs : s.step none t with
    | error x =>
      rw [peak_cons_of_error hs]
      omega
    | ok s' =>
      have hp := ih ((step_none_iff.1 hs).bounded h)
      rw [peak_cons hs]
      omega

end State

end Reckon.Reader
