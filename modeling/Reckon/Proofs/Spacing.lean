/-
  Blanks between tokens.

  * `Reader.read_ofTokens_mapSpan`: tokens of a text that were moved are read as
    before, and an error is moved;
  * `Calculator.parse_splice`: so blanks that are put in where no token stands change
    no expression and no value, and move an error that lies behind them.
-/
import Reckon.Proofs.Place
import Reckon.Proofs.Spacing.Scanning

namespace Reckon

/-- The failure at another place; a fault has none. -/
def Failure.mapSpan (g : Span → Span) : Failure → Failure
  | unreadable x => unreadable (x.mapSpan g)
  | faulty a => faulty a

namespace Reader

variable {g : Span → Span} {ts : List Token} {t : Token}

theorem find?_mapSpan (h : ts.find? Token.isFinish = some t) :
    (ts.map (.mapSpan g)).find? Token.isFinish = some (t.mapSpan g) := by
  have hcomp : Token.isFinish ∘ Token.mapSpan g = Token.isFinish := rfl
  rw [List.find?_map, hcomp, h]
  rfl

/-- **Tokens that were moved are read as before,** and what is left is moved. -/
theorem read_ofTokens_mapSpan (h : ts.find? Token.isFinish = some t) (limit : Option Nat) :
    (ofTokens (ts.map (.mapSpan g)) limit).read = (ofTokens ts limit).read.mapSpan g := by
  have hstop : stopOf (ts.map (.mapSpan g)) = g (stopOf ts) := by
    rw [stopOf_of_find? h, stopOf_of_find? (find?_mapSpan h)]
    rfl
  simp only [read, ofTokens, hstop, List.takeWhile_map]
  exact State.run_mapSpan _ _ _

end Reader

namespace Calculator

/-- **Blanks between tokens change nothing but the place of an error,** which is moved by
    their number if it is not in front of them. -/
theorem parse_splice (c : Calculator) {p : Nat} {s w : String} {ts : List Token}
    (hw : ∀ a ∈ w.toList, Text.isBlank a = true) (hts : tokenize s = .ok ts)
    (hp : p ≤ s.length) (hout : ∀ t ∈ ts, ¬ (t.span.start < p ∧ p < t.span.stop)) :
    c.parse (Text.splice p w s) = (c.parse s).mapError (.mapSpan (.spaced p w.length)) ∧
      c.evaluate (Text.splice p w s) =
        (c.evaluate s).mapError (.mapSpan (.spaced p w.length)) := by
  have hparse : c.parse (Text.splice p w s) =
      (c.parse s).mapError (.mapSpan (.spaced p w.length)) := by
    have hfind := (Scanner.placed_of_tokens (Scanner.at_ofString s) hts).2
    rw [parse, parse, tokenize_splice hw hts hp hout, hts]
    exact congrArg Reading.result (Reader.read_ofTokens_mapSpan hfind c.limit)
  refine ⟨hparse, ?_⟩
  cases he : c.parse s with
  | error x =>
    rw [he] at hparse
    rw [evaluate_of_parse_error hparse, evaluate_of_parse_error he]
    rfl
  | ok e =>
    rw [he] at hparse
    rw [evaluate_of_parse_ok hparse, evaluate_of_parse_ok he]
    cases e.evaluate <;> rfl

theorem parse_splice_unopenedBracket :
    (⟨some 4⟩ : Calculator).parse "2)" = .error ⟨.mismatchedParen ")", ⟨1, 2⟩⟩ ∧
      (⟨some 4⟩ : Calculator).parse (Text.splice 1 " \u3000" "2)") =
        .error ⟨.mismatchedParen ")", ⟨3, 4⟩⟩ := by
  have hscans : Scanner.Scans ⟨0, ['2', ')']⟩
      [Scanner.token 0 .number ['2'], Scanner.token 1 .rightParen [')']] ⟨2, []⟩ :=
    (Scanner.Scans.digits (w := []) rfl (by simp) (.cons rfl) 0).append
      (.symbol (by decide) 1 [])
  have hts : tokenize "2)" = .ok [Scanner.token 0 .number ['2'],
      Scanner.token 1 .rightParen [')'], .finish 2] := by
    have hend : (⟨2, []⟩ : Scanner).tokens = .ok [.finish 2] := Scanner.tokens_of_blank (by simp) 2
    have htokens := hscans.tokens_eq
    rw [hend] at htokens
    exact htokens
  have hparse : (⟨some 4⟩ : Calculator).parse "2)" =
      .error ⟨.mismatchedParen ")", ⟨1, 2⟩⟩ := by
    rw [parse, hts]
    rfl
  have hw : ∀ a ∈ " \u3000".toList, Text.isBlank a = true := by
    simp [Text.isBlank, Text.inRanges, Text.blankRanges]
  obtain ⟨hsplice, -⟩ := parse_splice ⟨some 4⟩ hw hts (p := 1) (by decide)
    (by simp [Scanner.token, Token.finish, Span.point])
  rw [hparse] at hsplice
  exact ⟨hparse, hsplice⟩

end Calculator

end Reckon
