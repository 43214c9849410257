/-
  The place of a failure in its text.

  * `Calculator.StopsAtEnd`: the text is cut into tokens, and no token is left where
    reading stops;
  * `Places cs atEnd x`: the error `x` is at the end of the text `cs`, or at a piece
    of it that it shows;
  * `Calculator.places_of_parse`: so is every error of a text;
  * `Calculator.span_of_evaluate_eq_error`: what a failed evaluation says about its
    place.
-/
import Reckon.Calculator
import Reckon.Proofs.Place.Scanning

namespace Reckon

/-- The piece of text that a failure shows. -/
def Failure.shown? : Failure → Option String
  | unreadable x => x.problem.shown?
  | faulty _ => none

/-- An error is at the end of a text, which it shows as `EOF`, or at a piece of the
    text, which it shows as it is. -/
def Places (cs : List Char) (atEnd : Prop) (x : SyntaxError) : Prop :=
  (atEnd ∧ Marks x (.point cs.length) "EOF") ∨
    ∃ w, ¬ atEnd ∧ x.span.Holds cs w ∧ Marks x x.span (String.ofList w)

/-- Tokens with an end among them end there. -/
theorem Reader.stopOf_of_find? {ts : List Token} {t : Token}
    (h : ts.find? Token.isFinish = some t) : stopOf ts = t.span := by
  rw [stopOf, h]

namespace Calculator

variable {c : Calculator} {s : String} {x : SyntaxError}

/-- Whether reading a text stops at its end. -/
def StopsAtEnd (c : Calculator) (s : String) : Prop :=
  ∃ ts, tokenize s = .ok ts ∧ (Reader.ofTokens ts c.limit).read.rest = []

theorem places_of_read {ts : List Token} (hts : tokenize s = .ok ts)
    (h : (Reader.ofTokens ts c.limit).read.result = .error x) :
    Places s.toList (c.StopsAtEnd s) x := by
  obtain ⟨hall, hfind⟩ := Scanner.placed_of_tokens (Scanner.at_ofString s) hts
  have hstop : Reader.stopOf ts = .point s.toList.length := Reader.stopOf_of_find? hfind
  have hmarks := Reader.State.marks_run h
  have hsuffix := Reader.State.rest_suffix c.limit (Reader.stopOf ts) .initial
    (Reader.ofTokens ts c.limit).tokens
  have hends : c.StopsAtEnd s ↔ (Reader.ofTokens ts c.limit).read.rest = [] := by
    constructor
    · rintro ⟨us, hus, hrest⟩
      rw [hts] at hus
      cases hus
      exact hrest
    · intro hrest
      exact ⟨ts, hts, hrest⟩
  change Marks x (Reader.place (Reader.stopOf ts) (Reader.ofTokens ts c.limit).read.rest)
    (Reader.State.shownAt (Reader.ofTokens ts c.limit).read.rest) at hmarks
  change (Reader.ofTokens ts c.limit).read.rest <:+ (Reader.ofTokens ts c.limit).tokens at hsuffix
  rw [Places, hends]
  cases hrest : (Reader.ofTokens ts c.limit).read.rest with
  | nil =>
    rw [hrest, Reader.place, hstop] at hmarks
    exact Or.inl ⟨rfl, hmarks⟩
  | cons t us =>
    rw [hrest] at hmarks hsuffix
    have hmem : t ∈ ts.takeWhile fun t => !t.isFinish := hsuffix.subset (by simp)
    have hno : t.isFinish = false := by
      have hp := List.all_eq_true.1 List.all_takeWhile t hmem
      simpa using hp
    have hholds := hall t (List.takeWhile_subset _ hmem) hno
    have hspan : x.span = t.span := hmarks.span
    have hshown : t.shown = String.ofList t.text.toList := by simp [Token.shown, hno]
    refine Or.inr ⟨t.text.toList, by simp, by rw [hspan]; exact hholds, rfl, ?_⟩
    rw [← hshown]
    exact hmarks.shown

/-- **The error of a text is at its end or at a piece of it.** -/
theorem places_of_parse (h : c.parse s = .error x) : Places s.toList (c.StopsAtEnd s) x := by
  rw [parse] at h
  cases hts : tokenize s with
  | error y =>
    rw [hts] at h
    cases h
    obtain ⟨w, hw, hspan⟩ := Scanner.holds_of_tokens (Scanner.at_ofString s) hts
    refine Or.inr ⟨w, ?_, hspan, rfl, ?_⟩
    · rintro ⟨ts, hts', -⟩
      rw [hts] at hts'
      cases hts'
    · rw [hw]
      rintro v hv
      exact (Option.some.inj hv).symm
  | ok ts =>
    rw [hts] at h
    exact places_of_read hts h

theorem evaluate_of_parse_error (h : c.parse s = .error x) :
    c.evaluate s = .error (.unreadable x) := by
  rw [evaluate, h]
  rfl

theorem evaluate_of_parse_ok {e : Expr} (h : c.parse s = .ok e) :
    c.evaluate s = e.evaluate.mapError .faulty := by
  rw [evaluate, h]
  rfl

end Calculator

theorem Span.marker_toList (p : Span) : p.marker.toList =
    List.replicate p.start ' ' ++ List.replicate (max 1 (p.stop - p.start)) '^' :=
  String.toList_ofList

/-- The marker line of a place in a text is at most one longer than the text. -/
theorem Places.length_marker_le {cs : List Char} {atEnd : Prop} {x : SyntaxError}
    (h : Places cs atEnd x) : x.span.marker.toList.length ≤ cs.length + 1 := by
  rw [Span.marker_toList, List.length_append, List.length_replicate, List.length_replicate]
  rcases h with ⟨-, hm⟩ | ⟨w, -, hspan, -⟩
  · rw [hm.span]
    simp [Span.point]
  · have hlt := hspan.lt
    have hle := hspan.le
    omega

/-- **A failed evaluation has a place exactly if its text is no expression.** Then the
    place lies in the text, and is not empty unless reading stopped at the end of
    the text; what the failure shows is what stands there; and the marker line is at
    most one longer than the text. -/
theorem Calculator.span_of_evaluate_eq_error (c : Calculator) (s : String) (f : Failure)
    (h : c.evaluate s = .error f) :
    (f.isSyntactic = true ↔ ∃ x, c.parse s = .error x) ∧
      (f.isSyntactic = true ↔ f.span?.isSome = true) ∧
      ∀ p ∈ f.span?,
        p.start ≤ p.stop ∧ p.stop ≤ s.length ∧
        (c.StopsAtEnd s → p = .point s.length) ∧ (¬ c.StopsAtEnd s → p.start < p.stop) ∧
        (∀ w ∈ f.shown?,
          w = if p = .point s.length then "EOF" else String.ofList (p.slice s.toList)) ∧
        ∃ line ∈ f.marker?,
          line.toList = List.replicate p.start ' ' ++
            List.replicate (max 1 (p.stop - p.start)) '^' ∧
          line.toList.length ≤ s.length + 1 := by
  cases hp : c.parse s with
  | ok e =>
    rw [evaluate_of_parse_ok hp] at h
    cases hv : e.evaluate with
    | ok v =>
      rw [hv] at h
      cases h
    | error a =>
      rw [hv] at h
      cases h
      exact ⟨by simp [Failure.isSyntactic], by simp, nofun⟩
  | error x =>
    rw [evaluate_of_parse_error hp] at h
    cases h
    have hplaces := places_of_parse hp
    refine ⟨by simp [Failure.isSyntactic], by simp, ?_⟩
    rintro p hspan
    obtain rfl : x.span = p := Option.some.inj hspan
    have hline := hplaces.length_marker_le
    rw [← String.length_toList]
    rcases hplaces with ⟨hend, hm⟩ | ⟨w, hend, hholds, hm⟩
    · have hpoint := hm.span
      refine ⟨?_, ?_, fun _ => hpoint, absurd hend, ?_, _, rfl, Span.marker_toList _, hline⟩
      · rw [hpoint]
        exact Nat.le_refl _
      · rw [hpoint]
        exact Nat.le_refl _
      · intro v hv
        rw [if_pos hpoint]
        exact hm.shown v hv
    · have hlt := hholds.lt
      have hne : x.span ≠ .point s.toList.length := by
        intro hpoint
        rw [hpoint, Span.point] at hlt
        exact Nat.lt_irrefl _ hlt
      refine ⟨Nat.le_of_lt hlt, hholds.le, fun hyes => absurd hyes hend, fun _ => hlt, ?_, _, rfl,
        Span.marker_toList _, hline⟩
      intro v hv
      rw [if_neg hne, hholds.slice]
      exact hm.shown v hv

theorem Calculator.span_of_unknownCharacter :
    (⟨some 4⟩ : Calculator).evaluate "2 $" = .error (.unreadable ⟨.unknownCharacter "$", ⟨2, 3⟩⟩) ∧
      "$" = String.ofList ((⟨2, 3⟩ : Span).slice "2 $".toList) := by
  have h : (⟨some 4⟩ : Calculator).evaluate "2 $" =
      .error (.unreadable ⟨.unknownCharacter "$", ⟨2, 3⟩⟩) := by
    refine evaluate_of_parse_error ?_
    have htwo : Scanner.Scans ⟨0, ['2', ' ', '$']⟩ [Scanner.token 0 .number ['2']]
        ⟨1, [' ', '$']⟩ := .digits (w := []) rfl (by simp) (.cons rfl) 0
    have hdollar : (⟨1, [' ', '$']⟩ : Scanner).tokens =
        .error ⟨.unknownCharacter "$", ⟨2, 3⟩⟩ := by
      rw [Scanner.tokens]
      rfl
    have htokens : tokenize "2 $" = .error ⟨.unknownCharacter "$", ⟨2, 3⟩⟩ := by
      have hs := htwo.tokens_eq
      rw [hdollar] at hs
      exact hs
    rw [parse, htokens]
    rfl
  obtain ⟨-, -, hspan⟩ := span_of_evaluate_eq_error _ _ _ h
  obtain ⟨-, -, -, -, hshown, -⟩ := hspan _ rfl
  exact ⟨h, (hshown "$" rfl).trans (if_neg (by decide))⟩

end Reckon
