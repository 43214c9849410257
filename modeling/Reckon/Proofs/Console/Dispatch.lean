/-
  Which lines are commands, and which are evaluated.

  * `tokenize_of_reserved`: a line with a reserved word in front is not cut into tokens, as
    no reserved word names a function;
  * `Console.evaluated` is what evaluating a line once makes of a console;
  * `Console.handle_of_not_reserved` and `Console.session_handle_of_reserved`: each line
    without a reserved word in front is evaluated once, and all that any other line can do
    to the session is to set it back;
  * `Console.commands_hide_no_expression`: so a line that is cut into tokens is evaluated
    once, and a command never.
-/
import Reckon.Proofs.Console

namespace Reckon

variable {line w : String} {s : Session}

/-! ## Reserved words are none of the language -/

/-- A word that is made as the names of functions are, but names none. -/
structure IsForeign (w : String) : Prop where
  word : ∃ c u, w.toList = c :: u ∧ c.isAlpha = true ∧ ∀ d ∈ u, Lexeme.isWordChar d = true
  ofName?_eq : Function.ofName? w = none

theorem isForeign_of_mem (h : w ∈ reservedWords) : IsForeign w := by
  simp only [reservedWords, List.mem_cons, List.not_mem_nil, or_false] at h
  rcases h with rfl | rfl | rfl | rfl
  all_goals exact ⟨⟨_, _, rfl, rfl, List.all_eq_true.1 rfl⟩, rfl⟩

theorem IsForeign.tokens_eq {rest : List Char} (h : IsForeign w)
    (hrest : Stops Lexeme.isWordChar rest) (n : Nat) :
    (⟨n, w.toList ++ rest⟩ : Scanner).tokens =
      .error ⟨.unknownCharacter w, ⟨n, n + w.length⟩⟩ := by
  obtain ⟨⟨c, u, hw, hc, hu⟩, hname⟩ := h
  rw [← String.ofList_toList (s := w), hw] at hname
  have hnext : (⟨n, c :: u ++ rest⟩ : Scanner).next =
      (.ok (Scanner.token n .invalid (c :: u)), ⟨n + (c :: u).length, rest⟩) := by
    rw [List.cons_append, Scanner.next_of_not_isBlank (Text.isBlank_of_isAlpha hc),
      Lexeme.first_foreign hc hu hrest hname]
    rfl
  rw [hw, Scanner.tokens_of_next_invalid hnext rfl, ← String.length_toList, hw,
    Scanner.token, ← hw, String.ofList_toList]

theorem toList_eq_leadingWord_append (line : String) :
    ∃ rest, line.toList = (leadingWord line).toList ++ rest ∧ Stops Lexeme.isWordChar rest := by
  refine ⟨line.toList.dropWhile (· != ' '), ?_, ?_⟩
  · rw [leadingWord, String.toList_ofList, List.takeWhile_append_dropWhile]
  · -- A space is no part of a word.
    intro c hc
    have hspace := Stops.of_dropWhile (· != ' ') line.toList c hc
    obtain rfl : c = ' ' := by simpa using hspace
    rfl

/-- **A line with a reserved word in front is not cut into tokens.** -/
theorem tokenize_of_reserved (h : leadingWord line ∈ reservedWords) :
    tokenize line =
      .error ⟨.unknownCharacter (leadingWord line), ⟨0, (leadingWord line).length⟩⟩ := by
  obtain ⟨rest, hline, hrest⟩ := toList_eq_leadingWord_append line
  rw [tokenize, Scanner.ofString, hline, (isForeign_of_mem h).tokens_eq hrest, Nat.zero_add]

theorem not_reserved_of_tokenize {ts : List Token} (h : tokenize line = .ok ts) :
    leadingWord line ∉ reservedWords := by
  intro hmem
  rw [tokenize_of_reserved hmem] at h
  cases h

theorem Calculator.parse_of_tokenize_error {x : SyntaxError} (h : tokenize line = .error x)
    (c : Calculator) : c.parse line = .error x := by
  rw [parse, h]
  rfl

theorem Calculator.exists_tokenize_of_parse {c : Calculator} {e : Expr}
    (h : c.parse line = .ok e) : ∃ ts, tokenize line = .ok ts := by
  cases hts : tokenize line with
  | ok ts => exact ⟨ts, rfl⟩
  | error x =>
    rw [parse_of_tokenize_error hts] at h
    cases h

/-! ## What is evaluated -/

namespace Console

variable {c : Console} {colored : Bool}

/-- What evaluating a line once makes of a console: its value or failure is shown, and the
    session is the one behind this evaluation. -/
def evaluated (c : Console) (line : String) : Response × Console :=
  (⟨outcome c.colored line (c.session.evaluate line).1, false⟩,
    { c with session := (c.session.evaluate line).2 })

theorem evaluations_evaluate (s : Session) (line : String) :
    (s.evaluate line).2.counters.evaluations = s.counters.evaluations + 1 := rfl

theorem handle_of_not_reserved (hc : c.registry = .builtin colored)
    (h : leadingWord line ∉ reservedWords) : c.handle line = c.evaluated line := by
  have hreply := (Registry.reply_eq_notACommand_iff colored line c.session).2 h
  have hsession : (c.registry.execute line c.session).2 = c.session := by
    have hreset : ¬ Calls "stats reset" line := by
      intro hcalls
      rw [leadingWord_of_calls_statsReset hcalls] at h
      exact h (by decide)
    rw [hc, Registry.session_execute_builtin, if_neg hreset]
  have hexecute : c.registry.execute line c.session = (.notACommand, c.session) :=
    Prod.ext (hc ▸ hreply) hsession
  rw [handle, hexecute]
  rfl

/-- What a command does to the session is what it does without a console. -/
theorem session_handle_of_ne (h : (c.registry.execute line c.session).1 ≠ .notACommand) :
    (c.handle line).2.session = (c.registry.execute line c.session).2 := by
  rw [handle]
  generalize c.registry.execute line c.session = result at h
  obtain ⟨reply, s⟩ := result
  cases reply with
  | notACommand => exact absurd rfl h
  | done | message _ | refused _ | exit => rfl

theorem session_handle_of_reserved (hc : c.registry = .builtin colored)
    (h : leadingWord line ∈ reservedWords) :
    (c.handle line).2.session =
      if Calls "stats reset" line then c.session.resetCounters.forget else c.session := by
  have hreply : (c.registry.execute line c.session).1 ≠ .notACommand := by
    rw [hc, Ne, Registry.reply_eq_notACommand_iff]
    exact not_not_intro h
  rw [session_handle_of_ne hreply, hc, Registry.session_execute_builtin]

theorem evaluations_handle_of_reserved (hc : c.registry = .builtin colored)
    (h : leadingWord line ∈ reservedWords) :
    (c.handle line).2.session.counters.evaluations ≤ c.session.counters.evaluations := by
  rw [session_handle_of_reserved hc h]
  split
  · exact Nat.zero_le _
  · exact Nat.le_refl _

/-- **Commands hide no expression.** A line is a command exactly if a reserved word stands in
    front of its first space. Then it is no expression under any limit, because of this
    word, and it is not evaluated: the session stays as it is or is set back. A line that is
    cut into tokens, as each expression is, is evaluated once. -/
theorem commands_hide_no_expression (colored : Bool) (line : String) :
    (∀ s, ((Registry.builtin colored).execute line s).1 ≠ .notACommand ↔
        leadingWord line ∈ reservedWords) ∧
      (leadingWord line ∈ reservedWords → ∀ calculator : Calculator, calculator.parse line =
        .error ⟨.unknownCharacter (leadingWord line), ⟨0, (leadingWord line).length⟩⟩) ∧
      (∀ (calculator : Calculator) (e : Expr), calculator.parse line = .ok e →
        ∃ ts, tokenize line = .ok ts) ∧
      ∀ c : Console, c.registry = .builtin colored →
        ((∃ ts, tokenize line = .ok ts) → c.handle line = c.evaluated line ∧
          (c.handle line).2.session.counters.evaluations =
            c.session.counters.evaluations + 1) ∧
        (leadingWord line ∈ reservedWords →
          (c.handle line).2.session.counters.evaluations ≤ c.session.counters.evaluations ∧
          (c.handle line).2.session =
            if Calls "stats reset" line then c.session.resetCounters.forget
            else c.session) := by
  refine ⟨fun s => ?_, fun h calculator => ?_, fun _ _ => Calculator.exists_tokenize_of_parse,
    fun c hc => ⟨?_, fun h => ?_⟩⟩
  · rw [Ne, Registry.reply_eq_notACommand_iff, not_not]
  · exact Calculator.parse_of_tokenize_error (tokenize_of_reserved h) calculator
  · rintro ⟨ts, hts⟩
    rw [handle_of_not_reserved hc (not_reserved_of_tokenize hts)]
    exact ⟨rfl, evaluations_evaluate c.session line⟩
  · exact ⟨evaluations_handle_of_reserved hc h, session_handle_of_reserved hc h⟩

theorem exit_hides_no_expression :
    leadingWord "exit (1)" ∈ reservedWords ∧
      (⟨none⟩ : Calculator).parse "exit (1)" = .error ⟨.unknownCharacter "exit", ⟨0, 4⟩⟩ ∧
      leadingWord "exp (1)" ∉ reservedWords := by
  obtain ⟨-, hparse, -⟩ := commands_hide_no_expression false "exit (1)"
  have hword : leadingWord "exit (1)" = "exit" := by decide
  have hmem : leadingWord "exit (1)" ∈ reservedWords := by decide
  have h := hparse hmem ⟨none⟩
  rw [hword] at h
  exact ⟨hmem, h, by decide⟩

end Console

end Reckon
