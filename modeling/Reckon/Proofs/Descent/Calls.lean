/-
  Many calls on one parser.

  A call may end anywhere, also in the middle of productions that have raised the counter.
  The next one starts where it ended.

  * `exists_ofTokens_eq`: a new parser stands at the front of an input, and a new reader has
    the same tokens ahead;
  * `Input.exists_after_eq`: so it is behind any number of calls;
  * `Parser.answer_eq`: a parser and a reader return the same, call after call;
  * `Parser.calls_keep_nothing`: what a call returns depends on nothing but the tokens from the
    cursor up to the first end, and on the limit.
-/
import Mathlib.Logic.Function.Iterate
import Reckon.Proofs.Descent.Reading

namespace Reckon

open Reader

variable {us : List Token} {last : Token}

/-! ## New parsers and readers -/

/-- **A new parser stands at the front of an input,** and a new reader has the same tokens. -/
theorem exists_ofTokens_eq (ts : List Token) (limit : Option Nat) : ∃ i : Input,
    ended ts = i.before ++ i.last :: i.behind ∧
      Parser.ofTokens ts limit = i.standing i.before 0 ∧
      Reader.ofTokens ts limit = ⟨i.before, i.last.span, i.limit⟩ := by
  obtain ⟨last, behind, hlast, hspan, hended⟩ := exists_ended_eq ts
  have hbefore : ∀ t ∈ ts.takeWhile fun t => !t.isFinish, t.isFinish = false := by
    intro t ht
    simpa using List.all_eq_true.1 List.all_takeWhile t ht
  refine ⟨⟨_, last, behind, limit, hbefore, hlast⟩, hended, ?_, ?_⟩
  · rw [Parser.ofTokens, hended, Input.standing]
    simp only [Input.index, Nat.sub_self]
    cases ts.takeWhile fun t => !t.isFinish <;> rfl
  · rw [Reader.ofTokens, hspan]

/-- A reader has the tokens up to the first end. -/
theorem ofTokens_append_cons (hus : ∀ t ∈ us, t.isFinish = false) (hlast : last.isFinish = true)
    (vs : List Token) (limit : Option Nat) :
    Reader.ofTokens (us ++ last :: vs) limit = ⟨us, last.span, limit⟩ := by
  have htake : (us ++ last :: vs).takeWhile (fun t => !t.isFinish) = us := by
    rw [List.takeWhile_append_of_pos fun t ht => by simp [hus t ht]]
    simp [hlast]
  have hfind : (us ++ last :: vs).find? Token.isFinish = some last := by
    rw [List.find?_append, List.find?_eq_none.2 fun t ht => by simp [hus t ht]]
    simp [hlast]
  simp [Reader.ofTokens, stopOf, htake, hfind]

/-- What stands behind an end makes no difference to a reader. -/
theorem ofTokens_congr (hlast : last.isFinish = true) (us vs vs' : List Token)
    (limit : Option Nat) :
    Reader.ofTokens (us ++ last :: vs) limit = Reader.ofTokens (us ++ last :: vs') limit := by
  cases hfind : us.find? Token.isFinish with
  | none =>
    have hus : ∀ t ∈ us, t.isFinish = false := by simpa using hfind
    rw [ofTokens_append_cons hus hlast, ofTokens_append_cons hus hlast]
  | some first =>
    obtain ⟨hfirst, front, behind, rfl, hfront⟩ := List.find?_eq_some_iff_append.1 hfind
    have hall : ∀ t ∈ front, t.isFinish = false := fun t ht => by simpa using hfront t ht
    simp only [List.append_assoc, List.cons_append]
    rw [ofTokens_append_cons hall hfirst, ofTokens_append_cons hall hfirst]

/-- Nor does the end that is put behind tokens without one. -/
theorem ofTokens_ended (ts : List Token) (limit : Option Nat) :
    Reader.ofTokens (ended ts) limit = Reader.ofTokens ts limit := by
  obtain ⟨i, hended, -, hreader⟩ := exists_ofTokens_eq ts limit
  have hlimit : limit = i.limit := congrArg Reader.limit hreader
  rw [hended, ofTokens_append_cons i.isFinish_before i.isFinish_last, hreader, hlimit]

/-! ## Call after call -/

namespace Input

variable {i : Input}

/-- The reader that has the tokens `us` ahead. -/
def reader (i : Input) (us : List Token) : Reader := ⟨us, i.last.span, i.limit⟩

/-- At the end, a reader reads nothing more. -/
theorem read_reader_nil (i : Input) :
    (i.reader []).read.result = .error ⟨.unexpectedEnd, i.last.span⟩ := rfl

theorem iterate_advance_reader_nil (i : Input) (k : Nat) :
    Reader.advance^[k] (i.reader []) = i.reader [] :=
  Function.iterate_fixed rfl k

/-- **Parser and reader stay together, call after call.** -/
theorem exists_after_eq (hus : us <:+ i.before) (k : Nat) : ∃ vs, vs <:+ us ∧
    (i.standing us 0).after k = some (i.standing vs 0) ∧
      Reader.advance^[k] (i.reader us) = i.reader vs := by
  induction k with
  | zero => exact ⟨us, List.suffix_rfl, rfl, rfl⟩
  | succ k ih =>
    obtain ⟨vs, hvs, hparser, hreader⟩ := ih
    refine ⟨(i.reader vs).read.rest, (State.rest_suffix _ _ _ _).trans hvs, ?_, ?_⟩
    · rw [Parser.after, hparser, Option.bind_some, parse_standing (hvs.trans hus)]
      rfl
    · rw [Function.iterate_succ_apply', hreader]
      rfl

/-- What a parser has ahead, up to the first end and behind it. -/
theorem drop_standing (h : us <:+ i.before) (n : Nat) :
    (i.standing us n).tokens.drop (i.standing us n).position = us ++ i.last :: i.behind := by
  obtain ⟨vs, hvs⟩ := h
  have hpos : i.before.length - us.length = vs.length := by
    rw [← hvs, List.length_append, Nat.add_sub_cancel]
  change (i.before ++ _).drop (i.before.length - us.length) = _
  rw [hpos, ← hvs, List.append_assoc, List.drop_left]

/-- The first end is behind all that a parser takes. -/
theorem findIdx_isFinish (i : Input) :
    (i.before ++ i.last :: i.behind).findIdx Token.isFinish = i.before.length := by
  rw [List.findIdx_append]
  simp [List.findIdx_cons, i.isFinish_last, List.findIdx_eq_length.2 i.isFinish_before]

end Input

namespace Parser

/-- **A parser returns what a reader returns, call after call.** -/
theorem answer_eq (ts : List Token) (limit : Option Nat) (k : Nat) :
    answer ts limit k = some (Reader.advance^[k] (Reader.ofTokens ts limit)).read.result := by
  obtain ⟨i, -, hparser, hreader⟩ := exists_ofTokens_eq ts limit
  obtain ⟨vs, hvs, hafter, hiterate⟩ := i.exists_after_eq List.suffix_rfl k
  rw [answer, hparser, hafter, Option.bind_some, Input.parse_standing hvs, hreader]
  exact congrArg (fun r : Reader => some r.read.result) hiterate.symm

/-- **A parser keeps nothing from one call to the next but its place.** However many calls came
    before, and however they ended: the next call returns, and more productions inside each
    other would not change what. The counter is back at zero, and each further call returns
    what it returns on a new parser of the tokens from the cursor on. The cursor never moves
    back and never gets behind the first end; once it is there, each call fails there. Nothing
    behind the first end makes a difference, and an end that is missing is put behind the
    last token. -/
theorem calls_keep_nothing (ts : List Token) (limit : Option Nat) (k : Nat) :
    ∃ (p : Parser) (o : Outcome), (ofTokens ts limit).after k = some p ∧ p.parse = some o ∧
      (∀ fuel, p.height ≤ fuel → p.parseWithin fuel = some o) ∧
      o.result = (Reader.advance^[k] (Reader.ofTokens ts limit)).read.result ∧
      (p.tokens = ended ts ∧ p.tokens[p.position]? = some p.current ∧ p.depth = 0 ∧
        p.limit = limit) ∧
      (∀ j, answer ts limit (k + j) = answer (p.tokens.drop p.position) limit j) ∧
      p.position ≤ o.parser.position ∧
      o.parser.position ≤ (ended ts).findIdx Token.isFinish ∧
      (p.current.isFinish = true →
        ∀ j, answer ts limit (k + j) = some (.error ⟨.unexpectedEnd, p.current.span⟩)) ∧
      (∀ us last vs vs', ts = us ++ last :: vs → last.isFinish = true →
        answer ts limit k = answer (us ++ last :: vs') limit k) ∧
      ((∀ t ∈ ts.getLast?, t.isFinish = false) → answer ts limit k =
        answer (ts ++ [.finish ((ts.getLast?.map (·.span.stop)).getD 0)]) limit k) := by
  obtain ⟨i, hended, hparser, hreader⟩ := exists_ofTokens_eq ts limit
  have hlimit : limit = i.limit := congrArg Reader.limit hreader
  obtain ⟨vs, hvs, hafter, hiterate⟩ := i.exists_after_eq List.suffix_rfl k
  have hparse := Input.parse_standing hvs
  have hrest := (State.rest_suffix i.limit i.last.span State.initial vs).length_le
  -- Further calls on a reader that had `k` of them.
  have hfurther : ∀ j, answer ts limit (k + j) =
      some (Reader.advance^[j] (i.reader vs)).read.result := by
    intro j
    rw [answer_eq, hreader, Nat.add_comm, Function.iterate_add_apply]
    exact congrArg (fun r : Reader => some (Reader.advance^[j] r).read.result) hiterate
  refine ⟨i.standing vs 0, _, by rw [hparser, hafter], hparse, fun fuel hfuel => ?_, ?_,
    ⟨hended.symm, Input.getElem?_position hvs, rfl, hlimit.symm⟩, fun j => ?_, ?_, ?_,
    fun hfinish j => ?_, fun us last behind behind' hts hlast => ?_, fun hlast => ?_⟩
  · exact Input.parseWithin_standing hvs (Nat.le_trans (Input.le_height_standing hvs 0) hfuel)
  · rw [hreader]
    exact congrArg (fun r : Reader => r.read.result) hiterate.symm
  · rw [hfurther, answer_eq, Input.drop_standing hvs, ofTokens_append_cons
      (fun t ht => i.isFinish_before t (hvs.subset ht)) i.isFinish_last, hlimit]
    rfl
  · exact Nat.sub_le_sub_left hrest _
  · rw [hended, i.findIdx_isFinish]
    exact Nat.sub_le _ _
  · rw [hfurther]
    cases vs with
    | nil => rw [i.iterate_advance_reader_nil, i.read_reader_nil]; rfl
    | cons t vs =>
      rw [Input.current_standing_cons, Input.isFinish_of_suffix hvs] at hfinish
      cases hfinish
  · rw [answer_eq, answer_eq, hts, ofTokens_congr hlast]
  · have hts : ts ++ [.finish ((ts.getLast?.map (·.span.stop)).getD 0)] = ended ts := by
      unfold ended
      cases hget : ts.getLast? with
      | none =>
        have hnil : ts = [] := by simpa using hget
        rw [hnil]
        rfl
      | some t => simp [hlast t hget]
    rw [hts, answer_eq, answer_eq, ofTokens_ended]

end Parser

end Reckon
