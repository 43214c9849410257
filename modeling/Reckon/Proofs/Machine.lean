/-
  Evaluating an expression on a stack.

  A tree is evaluated as its nodes are evaluated one after the other, operands before
  their operation, by a machine that keeps the values that are still to be used on a
  stack.

  * `Expr.subtrees` are the subtrees in post-order, the left operand first, and
    `Expr.code` is what their nodes do, in this order;
  * `Instruction.step` is what an instruction does to the stack, and `exec` runs a list of
    them up to the first that has no value;
  * `Faults i σ f` lists when an instruction has none;
  * `Expr.exec_code_append`: running the code of an expression leaves its value on the
    stack, or stops with its fault;
  * `Expr.exists_faultsFirst`: the fault is that of the first subtree that has no value;
  * `Expr.exec_code`: the two evaluations are one.
-/
import Reckon.Expr
import Reckon.Proofs.Number.Comparison

namespace Reckon

open Decimal Double

/-! ## The machine -/

/-- What the node of an expression does. -/
inductive Instruction where
  /-- Puts a literal on the stack. -/
  | literal (value : Float)
  | binary (op : BinaryOp)
  | signed (sign : Sign)
  | call (f : Function)
deriving DecidableEq, Repr

/-- Why the machine stops early. -/
inductive Halt where
  | fault (f : ArithmeticFault)
  /-- There are fewer values on the stack than the instruction takes. -/
  | underflow
deriving DecidableEq, Repr

/-- What an instruction does to the stack, whose first value is the last one put there. -/
def Instruction.step : Instruction → List Float → Except Halt (List Float)
  | literal value, σ => .ok (value :: σ)
  | binary op, y :: x :: σ => ((op.apply x y).mapError .fault).map (· :: σ)
  | signed sign, x :: σ => .ok (sign.apply x :: σ)
  | call f, x :: σ => ((f.apply x).mapError .fault).map (· :: σ)
  | _, _ => .error .underflow

/-- Runs instructions from left to right, up to the first that fails. -/
def exec : List Instruction → List Float → Except Halt (List Float)
  | [], σ => .ok σ
  | i :: code, σ => (i.step σ).bind (exec code)

/-- When an instruction has no value: a division if its right operand is a zero, a root if
    its operand is below zero, and a logarithm if it is not above zero. -/
inductive Faults : Instruction → List Float → ArithmeticFault → Prop where
  | division {x y : Float} {σ : List Float} (hy : (Datum.ofFloat y).sign? = some .eq) :
      Faults (.binary .divide) (y :: x :: σ) .divisionByZero
  | root {x : Float} {σ : List Float} (hx : (Datum.ofFloat x).sign? = some .lt) :
      Faults (.call .sqrt) (x :: σ) (.negativeRoot x)
  | log {x : Float} {σ : List Float}
      (hx : (Datum.ofFloat x).sign? = some .lt ∨ (Datum.ofFloat x).sign? = some .eq) :
      Faults (.call .log) (x :: σ) (.nonPositiveLog x)

namespace Expr

/-- What the node at the root does. -/
def instruction : Expr → Instruction
  | number value => .literal value
  | binary op _ _ => .binary op
  | signed sign _ => .signed sign
  | call f _ => .call f

/-- The subtrees, operands before their operation, the left one first. -/
def subtrees : Expr → List Expr
  | number value => [number value]
  | binary op left right => left.subtrees ++ right.subtrees ++ [binary op left right]
  | signed sign operand => operand.subtrees ++ [signed sign operand]
  | call f argument => argument.subtrees ++ [call f argument]

/-- The instructions of the nodes, operands before their operation, the left one first. -/
def code : Expr → List Instruction
  | number value => [.literal value]
  | binary op left right => left.code ++ right.code ++ [.binary op]
  | signed sign operand => operand.code ++ [.signed sign]
  | call f argument => argument.code ++ [.call f]

theorem code_eq_map (e : Expr) : e.code = e.subtrees.map instruction := by
  induction e with
  | number value => rfl
  | binary op left right ihl ihr => simp only [code, subtrees, ihl, ihr, List.map_append]; rfl
  | signed sign operand ih => simp only [code, subtrees, ih, List.map_append]; rfl
  | call f argument ih => simp only [code, subtrees, ih, List.map_append]; rfl

end Expr

/-! ## Faults -/

variable {i : Instruction} {σ σ' : List Float} {f : ArithmeticFault} {e s : Expr} {x y : Float}

theorem BinaryOp.apply_eq_error_iff {op : BinaryOp} :
    op.apply x y = .error f ↔ Faults (.binary op) (y :: x :: σ) f := by
  constructor
  · intro h
    cases op with
    | divide =>
      rw [apply] at h
      split at h
      · next hy =>
        cases h
        exact .division (beq_zero_iff.1 hy)
      · cases h
    | add | subtract | multiply | power => cases h
  · rintro ⟨hy⟩
    exact if_pos (beq_zero_iff.2 hy)

theorem Function.apply_eq_error_iff {g : Function} :
    g.apply x = .error f ↔ Faults (.call g) (x :: σ) f := by
  constructor
  · intro h
    cases g with
    | sqrt =>
      rw [apply] at h
      split at h
      · next hx =>
        cases h
        exact .root (lt_zero_iff.1 hx)
      · cases h
    | log =>
      rw [apply] at h
      split at h
      · next hx =>
        cases h
        exact .log (le_zero_iff.1 hx)
      · cases h
    | sin | cos | tan | exp => cases h
  · intro h
    cases h with
    | root hx => exact if_pos (lt_zero_iff.2 hx)
    | log hx => exact if_pos (le_zero_iff.2 hx)

/-- **An instruction has no value exactly in the cases of `Faults`.** -/
theorem step_eq_fault_iff : i.step σ = .error (.fault f) ↔ Faults i σ f := by
  match i, σ with
  | .literal value, σ => exact ⟨nofun, nofun⟩
  | .binary op, [] | .binary op, [_] => exact ⟨nofun, nofun⟩
  | .binary op, y :: x :: σ =>
    rw [← op.apply_eq_error_iff, Instruction.step]
    cases op.apply x y <;> simp [Except.mapError, Except.map]
  | .signed sign, [] | .signed sign, x :: σ => exact ⟨nofun, nofun⟩
  | .call g, [] => exact ⟨nofun, nofun⟩
  | .call g, x :: σ =>
    rw [← g.apply_eq_error_iff, Instruction.step]
    cases g.apply x <;> simp [Except.mapError, Except.map]

/-- The operand that an instruction tests is a number. -/
theorem Faults.not_isNaN (h : Faults i (x :: σ) f) : x.isNaN = false := by
  rw [Bool.eq_false_iff]
  intro hnan
  have hsign : (Datum.ofFloat x).sign? = none := by
    rw [ofFloat_of_isNaN hnan]
    rfl
  cases h with
  | division hx | root hx =>
    rw [hsign] at hx
    cases hx
  | log hx =>
    rw [hsign] at hx
    rcases hx with hx | hx <;> cases hx

theorem not_faults_root_of_zero (hx : (x == 0) = true) : ¬ Faults (.call .sqrt) (x :: σ) f := by
  intro h
  cases h with
  | root hneg =>
    rw [beq_zero_iff.1 hx] at hneg
    cases hneg

/-! ## Running the code of an expression -/

theorem exec_append (code code' : List Instruction) (σ : List Float) :
    exec (code ++ code') σ = (exec code σ).bind (exec code') := by
  induction code generalizing σ with
  | nil => rfl
  | cons i code ih =>
    rw [List.cons_append, exec, exec]
    cases i.step σ with
    | error h => rfl
    | ok σ' => exact ih σ'

namespace Expr

/-- **Running the code of an expression leaves its value on the stack, or stops with its
    fault.** -/
theorem exec_code_append (e : Expr) (rest : List Instruction) (σ : List Float) :
    exec (e.code ++ rest) σ =
      (e.evaluate.mapError .fault).bind fun v => exec rest (v :: σ) := by
  induction e generalizing rest σ with
  | number value => rfl
  | binary op left right ihl ihr =>
    rw [code, List.append_assoc, List.append_assoc, ihl, evaluate]
    cases left.evaluate with
    | error f => rfl
    | ok x =>
      change exec (right.code ++ _) (x :: σ) = _
      rw [ihr]
      cases right.evaluate with
      | error f => rfl
      | ok y =>
        change ((op.apply x y).mapError Halt.fault).map (· :: σ) >>= exec rest = _
        change _ = ((op.apply x y).mapError Halt.fault).bind fun v => exec rest (v :: σ)
        cases op.apply x y <;> rfl
  | signed sign operand ih =>
    rw [code, List.append_assoc, ih, evaluate]
    cases operand.evaluate <;> rfl
  | call g argument ih =>
    rw [code, List.append_assoc, ih, evaluate]
    cases argument.evaluate with
    | error f => rfl
    | ok x =>
      change ((g.apply x).mapError Halt.fault).map (· :: σ) >>= exec rest = _
      change _ = ((g.apply x).mapError Halt.fault).bind fun v => exec rest (v :: σ)
      cases g.apply x <;> rfl

theorem exec_code_of_ok {v : Float} (h : e.evaluate = .ok v) (σ : List Float) :
    exec e.code σ = .ok (v :: σ) := by
  have hrun := e.exec_code_append [] σ
  rw [List.append_nil, h] at hrun
  exact hrun

/-! ## Which fault it is -/

/-- A subtree without value leaves the whole tree without one. -/
theorem exists_error_of_mem_subtrees (hs : s ∈ e.subtrees) (h : s.evaluate = .error f) :
    ∃ f', e.evaluate = .error f' := by
  induction e with
  | number value =>
    rw [subtrees, List.mem_singleton] at hs
    exact ⟨f, hs ▸ h⟩
  | binary op left right ihl ihr =>
    rw [subtrees, List.mem_append, List.mem_append, List.mem_singleton] at hs
    rw [evaluate]
    rcases hs with (hs | hs) | rfl
    · obtain ⟨f', hf'⟩ := ihl hs
      exact ⟨f', by rw [hf']; rfl⟩
    · obtain ⟨f', hf'⟩ := ihr hs
      rw [hf']
      cases left.evaluate with
      | error f₁ => exact ⟨f₁, rfl⟩
      | ok x => exact ⟨f', rfl⟩
    · exact ⟨f, h⟩
  | signed sign operand ih =>
    rw [subtrees, List.mem_append, List.mem_singleton] at hs
    rcases hs with hs | rfl
    · obtain ⟨f', hf'⟩ := ih hs
      exact ⟨f', by rw [evaluate, hf']; rfl⟩
    · exact ⟨f, h⟩
  | call g argument ih =>
    rw [subtrees, List.mem_append, List.mem_singleton] at hs
    rcases hs with hs | rfl
    · obtain ⟨f', hf'⟩ := ih hs
      exact ⟨f', by rw [evaluate, hf']; rfl⟩
    · exact ⟨f, h⟩

/-- Where a tree has a value, so have all its subtrees. -/
theorem exists_ok_of_mem_subtrees {v : Float} (h : e.evaluate = .ok v) (hs : s ∈ e.subtrees) :
    ∃ u, s.evaluate = .ok u := by
  cases hu : s.evaluate with
  | ok u => exact ⟨u, rfl⟩
  | error f =>
    obtain ⟨f', hf'⟩ := exists_error_of_mem_subtrees hs hu
    rw [h] at hf'
    cases hf'

/-- The subtree `s`, behind the subtrees `pre`, is the first one without value: with those
    before it on the stack, its own instruction has the fault `f`. -/
structure FaultsFirst (e : Expr) (σ : List Float) (f : ArithmeticFault) (pre : List Expr)
    (s : Expr) (post : List Expr) : Prop where
  subtrees : e.subtrees = pre ++ s :: post
  before : ∀ u ∈ pre, ∃ v, u.evaluate = .ok v
  evaluate : s.evaluate = .error f
  faults : ∃ σ', exec (pre.map instruction) σ = .ok σ' ∧ Faults s.instruction σ' f

/-- **The fault of a tree is that of the first of its subtrees that has no value.** -/
theorem exists_faultsFirst (h : e.evaluate = .error f) (σ : List Float) :
    ∃ pre s post, FaultsFirst e σ f pre s post := by
  induction e generalizing σ with
  | number value => cases h
  | binary op left right ihl ihr =>
    rw [evaluate] at h
    cases hl : left.evaluate with
    | error f₁ =>
      rw [hl] at h
      cases h
      obtain ⟨pre, s, post, hs, hbefore, hf, hfaults⟩ := ihl hl σ
      exact ⟨pre, s, post ++ right.subtrees ++ [binary op left right],
        by simp [subtrees, hs], hbefore, hf, hfaults⟩
    | ok x =>
      have hexec : exec (left.subtrees.map instruction) σ = .ok (x :: σ) := by
        rw [← code_eq_map, exec_code_of_ok hl]
      rw [hl] at h
      change right.evaluate.bind (op.apply x) = _ at h
      cases hr : right.evaluate with
      | error f₁ =>
        rw [hr] at h
        cases h
        obtain ⟨pre, s, post, hs, hbefore, hf, σ', hσ', hfaults⟩ := ihr hr (x :: σ)
        refine ⟨left.subtrees ++ pre, s, post ++ [binary op left right],
          by simp [subtrees, hs], ?_, hf, σ', ?_, hfaults⟩
        · intro u hu
          rcases List.mem_append.1 hu with hu | hu
          · exact exists_ok_of_mem_subtrees hl hu
          · exact hbefore u hu
        · rw [List.map_append, exec_append, hexec]
          exact hσ'
      | ok y =>
        rw [hr] at h
        change op.apply x y = .error f at h
        refine ⟨left.subtrees ++ right.subtrees, binary op left right, [], rfl, ?_, ?_,
          y :: x :: σ, ?_, op.apply_eq_error_iff.1 h⟩
        · intro u hu
          rcases List.mem_append.1 hu with hu | hu
          · exact exists_ok_of_mem_subtrees hl hu
          · exact exists_ok_of_mem_subtrees hr hu
        · rw [evaluate, hl, hr]
          exact h
        · rw [List.map_append, exec_append, hexec, ← code_eq_map]
          exact exec_code_of_ok hr (x :: σ)
  | signed sign operand ih =>
    rw [evaluate] at h
    cases hv : operand.evaluate with
    | error f₁ =>
      rw [hv] at h
      cases h
      obtain ⟨pre, s, post, hs, hbefore, hf, hfaults⟩ := ih hv σ
      exact ⟨pre, s, post ++ [signed sign operand], by simp [subtrees, hs], hbefore, hf, hfaults⟩
    | ok x =>
      rw [hv] at h
      cases h
  | call g argument ih =>
    rw [evaluate] at h
    cases hv : argument.evaluate with
    | error f₁ =>
      rw [hv] at h
      cases h
      obtain ⟨pre, s, post, hs, hbefore, hf, hfaults⟩ := ih hv σ
      exact ⟨pre, s, post ++ [call g argument], by simp [subtrees, hs], hbefore, hf, hfaults⟩
    | ok x =>
      rw [hv] at h
      refine ⟨argument.subtrees, call g argument, [], rfl,
        fun u hu => exists_ok_of_mem_subtrees hv hu, ?_, x :: σ, ?_, g.apply_eq_error_iff.1 h⟩
      · rw [evaluate, hv]
        exact h
      · rw [← code_eq_map]
        exact exec_code_of_ok hv σ

/-- An instruction of the code that has no value where it is reached stops the machine. -/
theorem evaluate_of_faults {pre post : List Instruction} (hcode : e.code = pre ++ i :: post)
    (hpre : exec pre [] = .ok σ) (h : Faults i σ f) : e.evaluate = .error f := by
  have hstop : exec (pre ++ i :: post) [] = .error (.fault f) := by
    rw [exec_append, hpre]
    change (i.step σ).bind (exec post) = _
    rw [step_eq_fault_iff.2 h]
    rfl
  cases hv : e.evaluate with
  | ok v =>
    rw [← hcode, exec_code_of_ok hv] at hstop
    cases hstop
  | error f₁ =>
    have hrun := e.exec_code_append [] []
    rw [List.append_nil, hcode, hstop, hv] at hrun
    cases hrun
    rfl

theorem FaultsFirst.evaluate_eq {pre post : List Expr} (h : FaultsFirst e [] f pre s post) :
    e.evaluate = .error f := by
  obtain ⟨σ, hσ, hf⟩ := h.faults
  have hcode : e.code = pre.map instruction ++ s.instruction :: post.map instruction := by
    rw [code_eq_map, h.subtrees, List.map_append]
    rfl
  exact evaluate_of_faults hcode hσ hf

/-- A tree has a value iff no instruction of its code lacks one where it is reached. -/
theorem exists_evaluate_eq_ok_iff : (∃ v, e.evaluate = .ok v) ↔
    ∀ pre i post σ, e.code = pre ++ i :: post → exec pre [] = .ok σ → ∀ f, ¬ Faults i σ f := by
  constructor
  · rintro ⟨v, hv⟩ pre i post σ hcode hpre f hf
    rw [evaluate_of_faults hcode hpre hf] at hv
    cases hv
  · intro h
    cases hv : e.evaluate with
    | ok v => exact ⟨v, rfl⟩
    | error f =>
      obtain ⟨pre, s, post, hs, -, -, σ, hσ, hf⟩ := exists_faultsFirst hv []
      refine absurd hf (h (pre.map instruction) s.instruction (post.map instruction) σ ?_ hσ f)
      rw [code_eq_map, hs, List.map_append]
      rfl

/-- **Evaluating an expression and running its code are one.** They give the same value or
    the same fault; instructions fault in the cases of `Faults` and in no other, never for an
    operand that is not a number, and a root not for a zero of either sign. So there is a
    value iff no instruction faults, a fault of a subtree is one of the whole tree, and of
    several the first in post-order is reported. -/
theorem exec_code (e : Expr) :
    exec e.code [] = (e.evaluate.map ([·])).mapError .fault ∧
      (∀ i σ f, Instruction.step i σ = .error (.fault f) ↔ Faults i σ f) ∧
      (∀ i x σ f, Faults i (x :: σ) f → x.isNaN = false) ∧
      (∀ x σ f, (x == 0) = true → ¬ Faults (.call .sqrt) (x :: σ) f) ∧
      ((∃ v, e.evaluate = .ok v) ↔ ∀ pre i post σ, e.code = pre ++ i :: post →
        exec pre [] = .ok σ → ∀ f, ¬ Faults i σ f) ∧
      (∀ s ∈ e.subtrees, (∃ f, s.evaluate = .error f) → ∃ f, e.evaluate = .error f) ∧
      ∀ f, e.evaluate = .error f ↔ ∃ pre s post, FaultsFirst e [] f pre s post := by
  refine ⟨?_, fun i σ f => step_eq_fault_iff, fun i x σ f h => h.not_isNaN,
    fun x σ f hx => not_faults_root_of_zero hx, exists_evaluate_eq_ok_iff, ?_, fun f => ⟨?_, ?_⟩⟩
  · have hrun := e.exec_code_append [] []
    rw [List.append_nil] at hrun
    rw [hrun]
    cases e.evaluate <;> rfl
  · rintro s hs ⟨f, hf⟩
    exact exists_error_of_mem_subtrees hs hf
  · intro h
    exact exists_faultsFirst h []
  · rintro ⟨pre, s, post, h⟩
    exact h.evaluate_eq

/-- The fault of `log(0) + 1 / 0` is that of the logarithm, with the zero that it was
    given. -/
example : (Expr.binary .add (.call .log (.number 0))
    (.binary .divide (.number 1) (.number 0))).evaluate = .error (.nonPositiveLog 0) := by
  rfl

end Expr

end Reckon
