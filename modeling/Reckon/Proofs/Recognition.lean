/-
  Reading recognises the grammar.

  * `result_run_initial`: reading some tokens from the start gives an expression
    iff they are a sum with this expression;
  * `read_eq_ok_iff_derives`: so it is for the tokens before the end of an input,
    and no tokens are a sum in two ways.
-/
import Reckon.Proofs.Recognition.Complete
import Reckon.Proofs.Recognition.Sound

namespace Reckon.Reader

theorem result_run_initial (stop : Span) (ts : List Token) (e : Expr) :
    (State.initial.run none stop ts).result = .ok e ↔ Derives (.chain .sum) ts e := by
  rw [State.result_run_none]
  constructor
  · intro h
    cases hs : State.initial.after none ts with
    | error e => rw [hs] at h; cases h
    | ok s =>
      rw [hs] at h
      have hinit : State.initial.Spells [] := .nil
      exact derives_of_finish (spells_after hinit hs) h
  · rintro ⟨d, rfl, rfl⟩
    obtain ⟨s, hs, he⟩ := exists_leads d stop
    rw [hs.after]
    exact he

theorem derives_unique {ts : List Token} {e e' : Expr} (h : Derives (.chain .sum) ts e)
    (h' : Derives (.chain .sum) ts e') : e = e' := by
  have he := (result_run_initial (.point 0) ts e).2 h
  rw [(result_run_initial (.point 0) ts e').2 h'] at he
  cases he
  rfl

/-! ## Inputs that end once -/

section

variable {ts : List Token} {last : Token} (hts : ∀ t ∈ ts, t.isFinish = false)
  (hlast : last.isFinish = true)
include hts hlast

theorem takeWhile_append_finish :
    (ts ++ [last]).takeWhile (fun t => !t.isFinish) = ts := by
  rw [List.takeWhile_append_of_pos (fun t ht => by simp [hts t ht])]
  simp [hlast]

theorem find?_append_finish : (ts ++ [last]).find? Token.isFinish = some last := by
  rw [List.find?_append, List.find?_eq_none.2 (fun t ht => by simp [hts t ht])]
  simp [hlast]

theorem ofTokens_append_finish (limit : Option Nat) :
    ofTokens (ts ++ [last]) limit = ⟨ts, last.span, limit⟩ := by
  rw [ofTokens, takeWhile_append_finish hts hlast, stopOf, find?_append_finish hts hlast]

end

/-- **Reading accepts the sums of the grammar, with their expressions, and nothing
    else; no tokens are a sum in two ways.** -/
theorem read_eq_ok_iff_derives (ts : List Token) (last : Token)
    (hts : ∀ t ∈ ts, t.isFinish = false) (hlast : last.isFinish = true) :
    (∀ e, (ofTokens (ts ++ [last]) none).read.result = .ok e ↔ Derives (.chain .sum) ts e) ∧
      ∀ e e', Derives (.chain .sum) ts e → Derives (.chain .sum) ts e' → e = e' := by
  refine ⟨fun e => ?_, fun e e' => derives_unique⟩
  rw [ofTokens_append_finish hts hlast, read]
  exact result_run_initial _ _ _

/-- The tokens of `-2^3`. -/
def signedPower : List Token :=
  [⟨.minus, "-", ⟨0, 1⟩, 0⟩, ⟨.number, "2", ⟨1, 2⟩, 2⟩, ⟨.caret, "^", ⟨2, 3⟩, 0⟩,
    ⟨.number, "3", ⟨3, 4⟩, 3⟩]

/-- A sign binds tighter than a power: `-2^3` is a power of `-2`. -/
theorem derives_signedPower :
    (∀ t ∈ signedPower, t.isFinish = false) ∧ (Token.finish 4).isFinish = true ∧
      Derives (.chain .sum) signedPower (.binary .power (.signed .minus (.number 2)) (.number 3)) :=
  ⟨by decide, rfl, ((read_eq_ok_iff_derives signedPower (.finish 4) (by decide) rfl).1 _).1 rfl⟩

end Reckon.Reader
