/-
  The limit on the depth as a threshold.

  How deep a reading gets decides what a limit does to it.

  * `Reader.cursor`: how many tokens lie behind the place where reading stops;
  * `Threshold ts depth`: reading `ts` gets as deep as `depth`, and is cut short
    by exactly the limits below it;
  * `exists_threshold`: all tokens have a threshold, and so a looser limit changes
    no result but the error of a limit.
-/
import Reckon.Proofs.Limit

namespace Reckon.Reader

variable {limit limit' : Option Nat} {ts : List Token} {L L' : Nat}

/-- How many tokens lie behind the place where reading stops. -/
def cursor (r : Reader) : Nat := r.tokens.length - r.read.rest.length

theorem rest_eq_drop_cursor (r : Reader) : r.read.rest = r.tokens.drop r.cursor :=
  List.suffix_iff_eq_drop.1 (State.rest_suffix r.limit r.stop .initial r.tokens)

theorem cursor_le_of_looser (hl : Looser limit limit') (ts : List Token) :
    (ofTokens ts limit).cursor ≤ (ofTokens ts limit').cursor := by
  have hs := State.rest_suffix_of_looser hl (stopOf ts) .initial (ofTokens ts limit).tokens
  exact Nat.sub_le_sub_left hs.length_le _

/-- Reading some tokens gets this deep, and no deeper. -/
structure Threshold (ts : List Token) (depth : Nat) : Prop where
  le_length : depth ≤ (ofTokens ts none).tokens.length
  /-- Limits from here on make no difference. -/
  read_of_le : ∀ L, depth ≤ L → (ofTokens ts (some L)).read = (ofTokens ts none).read
  /-- Limits below are reported where reading stops. -/
  result_of_lt : ∀ L < depth, (ofTokens ts (some L)).read.result =
    .error ⟨.nestingTooDeep L,
      place (stopOf ts) ((ofTokens ts none).tokens.drop (ofTokens ts (some L)).cursor)⟩
  cursor_le : ∀ L < depth, (ofTokens ts (some L)).cursor ≤ (ofTokens ts none).cursor
  cursor_mono : ∀ L L', L ≤ L' → L' < depth →
    (ofTokens ts (some L)).cursor ≤ (ofTokens ts (some L')).cursor

theorem bounded_initial : Bounded 0 State.initial.stack := nofun

theorem threshold_peak (ts : List Token) :
    Threshold ts (State.initial.peak (ofTokens ts none).tokens) where
  le_length := by
    have h := State.peak_le bounded_initial (ofTokens ts none).tokens
    rwa [Nat.zero_add] at h
  read_of_le L h := State.run_eq_of_within (stopOf ts) (within_some.2 h)
  result_of_lt L h := by
    have hr := rest_eq_drop_cursor (ofTokens ts (some L))
    have h₀ : State.initial.mode = .factor → State.initial.due ≤ L := fun _ => Nat.zero_le L
    have he := State.result_run_of_lt_peak (stopOf ts) h₀ h
    exact hr ▸ he
  cursor_le L _ := cursor_le_of_looser (looser_none _) ts
  cursor_mono L L' h _ := cursor_le_of_looser (looser_some h) ts

/-- Whether a reading was cut short by a limit. -/
def CutShort (reading : Reading) : Prop :=
  ∃ most place, reading.result = .error ⟨.nestingTooDeep most, place⟩

theorem not_cutShort_none (ts : List Token) : ¬ CutShort (ofTokens ts none).read := by
  rintro ⟨most, place, h⟩
  exact State.problem_run_none h most rfl

theorem within_peak_of_not_cutShort (hc : ¬ CutShort (ofTokens ts limit).read) :
    Within limit (State.initial.peak (ofTokens ts none).tokens) := by
  cases limit with
  | none => exact within_none _
  | some L =>
    rcases Nat.lt_or_ge L (State.initial.peak (ofTokens ts none).tokens) with hlt | hle
    · exact absurd ⟨L, _, (threshold_peak ts).result_of_lt L hlt⟩ hc
    · exact within_some.2 hle

theorem read_eq_none_of_not_cutShort (hc : ¬ CutShort (ofTokens ts limit).read) :
    (ofTokens ts limit).read = (ofTokens ts none).read :=
  State.run_eq_of_within (stopOf ts) (within_peak_of_not_cutShort hc)

theorem read_eq_of_looser (hl : Looser limit limit') (hc : ¬ CutShort (ofTokens ts limit).read) :
    (ofTokens ts limit').read = (ofTokens ts limit).read := by
  have hw := hl _ (within_peak_of_not_cutShort hc)
  have h : (ofTokens ts limit').read = (ofTokens ts none).read :=
    State.run_eq_of_within (stopOf ts) hw
  rw [h, read_eq_none_of_not_cutShort hc]

/-- **Every input has a threshold: limits from there on make no difference, and
    limits below are reported, earlier the smaller they are.** So a looser limit
    changes nothing but the error of a limit, without a limit there is no such
    error, and nothing is ever open that is deeper than the number of tokens. -/
theorem exists_threshold (ts : List Token) :
    (∃ depth, Threshold ts depth) ∧
      (∀ limit limit', Looser limit limit' → ¬ CutShort (ofTokens ts limit).read →
        (ofTokens ts limit').read = (ofTokens ts limit).read) ∧
      ¬ CutShort (ofTokens ts none).read ∧
      ∀ limit us s, us <+: (ofTokens ts none).tokens →
        State.initial.after limit us = .ok s →
        ∀ frame ∈ s.stack, frame.depth ≤ (ofTokens ts none).tokens.length := by
  refine ⟨⟨_, threshold_peak ts⟩, ?_, not_cutShort_none ts, ?_⟩
  · intro limit limit' hl hc
    exact read_eq_of_looser hl hc
  · intro limit us s hus hs
    have hb := State.bounded_after bounded_initial hs
    rw [Nat.zero_add] at hb
    exact hb.mono hus.length_le

end Reckon.Reader
