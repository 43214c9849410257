/-
  The height of the expressions that a limit on the depth accepts.

  A limit bounds the height of an expression, but not by itself: the base of a
  power, the operands of a product and those of a sum may each spend the whole
  limit, so that every bracket adds the lengths of two chains to the height.

  * `depth_le_and_exists_depth_eq`: the height that a limit allows, and that it is
    reached.
-/
import Reckon.Calculator
import Reckon.Proofs.Cost
import Reckon.Proofs.Height.Bound
import Reckon.Proofs.Height.Deepest

namespace Reckon

variable {L : Nat}

theorem depth_le_of_read {ts : List Token} {e : Expr}
    (h : (Reader.ofTokens ts (some L)).read.result = .ok e) : e.depth ≤ L * L + 3 * L + 1 := by
  obtain ⟨d, -, rfl, hle⟩ := (Reader.result_run_some L _ _ e).1 h
  exact Nat.le_trans d.depth_tree_le (Phrase.height_mono (.chain .sum) hle)

/-- The text of a derivation is read under each limit that it keeps. -/
theorem parse_of_scans {text : String} {d : Derivation (.chain .sum)} {n : Nat}
    (h : Scanner.Scans (.ofString text) d.tokens ⟨n, []⟩) (hL : d.cost ≤ L) :
    (⟨some L⟩ : Calculator).parse text = .ok d.tree := by
  have ht : tokenize text = .ok (d.tokens ++ [.finish n]) := by
    rw [tokenize, h.tokens_eq, Scanner.tokens_nil]
    rfl
  rw [Calculator.parse, ht]
  show (Reader.ofTokens (d.tokens ++ [.finish n]) (some L)).read.result = .ok d.tree
  rw [Reader.ofTokens_append_finish (fun t => h.isFinish_of_mem) rfl]
  exact (Reader.result_run_some L _ _ _).2 ⟨d, rfl, rfl, hL⟩

theorem exists_parse_depth_eq (L : Nat) : ∃ text e,
    (⟨some L⟩ : Calculator).parse text = .ok e ∧ e.depth = L * L + 3 * L + 1 := by
  obtain ⟨d, n, hs, hk, -, hh⟩ := measures_deepest L 0 [] .nil
  refine ⟨String.ofList (deepest L), d.tree, parse_of_scans (n := n) ?_ (Nat.le_of_eq hk), hh⟩
  rw [List.append_nil] at hs
  rw [Scanner.ofString, String.toList_ofList]
  exact hs

/-- **Under a limit `L`, no expression is higher than `L * L + 3 * L + 1`, and one
    is as high as that.** -/
theorem depth_le_and_exists_depth_eq (L : Nat) :
    (∀ ts e, (Reader.ofTokens ts (some L)).read.result = .ok e → e.depth ≤ L * L + 3 * L + 1) ∧
      ∃ text e, (⟨some L⟩ : Calculator).parse text = .ok e ∧ e.depth = L * L + 3 * L + 1 :=
  ⟨fun _ _ => depth_le_of_read, exists_parse_depth_eq L⟩

end Reckon
