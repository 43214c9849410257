/-
  The lines that are commands of the console.

  * `Calls word line`: the line is this word, or begins with it and a space;
  * `leadingWord line` is what stands in front of the first space of a line, and
    `calls_iff`: a line calls a word without spaces iff this is its leading word;
  * `Executes colored line s r` lists what a line can do to the session `s`, with the
    condition on the line for each case, and `Registry.executes_builtin`: what the
    commands of the console do is one of these;
  * `Registry.reply_eq_notACommand_iff` and `Registry.session_execute_builtin` are what
    follows for the reply and for the session.
-/
import Reckon.Command.Builtin
import Reckon.Proofs.Lexemes

namespace Reckon

/-! ## Words and lines -/

/-- A line calls a command if it is the word of the command, or begins with the word
    and a space. -/
def Calls (word line : String) : Prop :=
  line.toList = word.toList ∨ word.toList ++ [' '] <+: line.toList

instance (word line : String) : Decidable (Calls word line) := inferInstanceAs (Decidable (_ ∨ _))

/-- What stands in front of the first space of a line; the whole line if it has
    none. -/
def leadingWord (line : String) : String := String.ofList (line.toList.takeWhile (· != ' '))

/-- What stands behind a word at the front of a line, trimmed. -/
def argumentOf (word line : String) : String :=
  Text.trim (String.ofList (line.toList.drop word.toList.length))

/-- The leading words of the lines that are commands. -/
def reservedWords : List String := ["help", "quit", "exit", "stats"]

/-- The leading words of the lines that end the console. -/
def exitWords : List String := ["quit", "exit"]

theorem exitWords_subset : exitWords ⊆ reservedWords := by decide

variable {word line : String}

theorem leadingWord_of_append {w : List Char} (rest : List Char) (hw : ∀ c ∈ w, (c != ' ') = true)
    (hrest : Stops (· != ' ') rest) (h : line.toList = w ++ rest) :
    leadingWord line = String.ofList w := by
  rw [leadingWord, h, hrest.takeWhile_append hw]

theorem leadingWord_of_calls (hword : ' ' ∉ word.toList) (h : Calls word line) :
    leadingWord line = word := by
  have hw : ∀ c ∈ word.toList, (c != ' ') = true := by
    intro c hc
    simp only [bne_iff_ne]
    rintro rfl
    exact hword hc
  rw [← String.ofList_toList (s := word)]
  rcases h with h | ⟨rest, h⟩
  · exact leadingWord_of_append [] hw .nil (by rw [h, List.append_nil])
  · rw [List.append_assoc] at h
    exact leadingWord_of_append (' ' :: rest) hw (.cons (by decide)) h.symm

theorem calls_of_leadingWord (h : leadingWord line = word) : Calls word line := by
  have happend := List.takeWhile_append_dropWhile (p := (· != ' ')) (l := line.toList)
  have hstop := Stops.of_dropWhile (· != ' ') line.toList
  subst h
  rw [Calls, leadingWord, String.toList_ofList]
  cases hdrop : line.toList.dropWhile (· != ' ') with
  | nil =>
    rw [hdrop, List.append_nil] at happend
    exact Or.inl happend.symm
  | cons c rest =>
    rw [hdrop] at happend hstop
    obtain rfl : c = ' ' := by simpa using hstop c rfl
    exact Or.inr ⟨rest, by rw [List.append_assoc]; exact happend⟩

/-- **A line calls a word without spaces iff this is its leading word.** -/
theorem calls_iff (hword : ' ' ∉ word.toList) : Calls word line ↔ leadingWord line = word :=
  ⟨leadingWord_of_calls hword, calls_of_leadingWord⟩

theorem leadingWord_of_calls_statsReset (h : Calls "stats reset" line) :
    leadingWord line = "stats" := by
  have hw : ∀ c ∈ "stats".toList, (c != ' ') = true := by simp
  rcases h with h | ⟨rest, h⟩
  · exact leadingWord_of_append " reset".toList hw (.cons rfl) h
  · exact leadingWord_of_append (" reset".toList ++ [' '] ++ rest) hw (.cons rfl) h.symm

/-! ## What a line does -/

theorem Command.rest?_of_calls {c : Command} (h : Calls c.word line) :
    c.rest? line = some (String.ofList (line.toList.drop c.word.toList.length)) := by
  rw [rest?]
  exact if_pos (by simpa [Calls] using h)

theorem Command.rest?_of_not_calls {c : Command} (h : ¬ Calls c.word line) :
    c.rest? line = none := by
  rw [rest?]
  exact if_neg (by simpa [Calls] using h)

/-- What a line can do at the console, with the condition under which it does so. -/
inductive Executes (colored : Bool) (line : String) (s : Session) : Reply × Session → Prop where
  | reset (h : Calls "stats reset" line) : Executes colored line s (.done, s.resetCounters.forget)
  | stats (h : leadingWord line = "stats") (hreset : ¬ Calls "stats reset" line)
      (hargument : argumentOf "stats" line = "") :
      Executes colored line s (.message s.counters.render, s)
  | unknown (h : leadingWord line = "stats") (hreset : ¬ Calls "stats reset" line)
      (argument : String) (hargument : argumentOf "stats" line = argument) (hne : argument ≠ "") :
      Executes colored line s (.refused s!"Unknown stats option '{argument}'", s)
  | help (h : leadingWord line = "help") :
      Executes colored line s (.message (helpText colored), s)
  | quit (h : leadingWord line ∈ exitWords) : Executes colored line s (.exit, s)
  | none (h : leadingWord line ∉ reservedWords) : Executes colored line s (.notACommand, s)

namespace Registry

variable {s : Session} {r : Registry}

theorem commands_builtin (colored : Bool) : (builtin colored).commands =
    [⟨"stats reset", Handler.statsReset⟩, ⟨"stats", Handler.stats⟩,
      ⟨"help", Handler.help colored⟩, ⟨"quit", Handler.quit⟩, ⟨"exit", Handler.quit⟩] := rfl

/-- A line that calls none of some commands passes them by. -/
theorem findSome?_eq_none {commands : List Command}
    (h : ∀ c ∈ commands, ¬ Calls c.word line) :
    commands.findSome? (fun c => (c.rest? line).map (c.handler, ·)) = none := by
  rw [List.findSome?_eq_none_iff]
  intro c hc
  rw [Command.rest?_of_not_calls (h c hc)]
  rfl

/-- The first command that a line calls is executed. -/
theorem execute_of_calls (before : List Command) {behind : List Command} {handler : Handler}
    (hr : r.commands = before ++ ⟨word, handler⟩ :: behind)
    (hbefore : ∀ d ∈ before, ¬ Calls d.word line) (hc : Calls word line) :
    r.execute line s = handler (argumentOf word line) s := by
  rw [execute, hr, List.findSome?_append, findSome?_eq_none hbefore, List.findSome?_cons,
    Command.rest?_of_calls hc]
  rfl

theorem execute_of_not_calls (h : ∀ c ∈ r.commands, ¬ Calls c.word line) :
    r.execute line s = (.notACommand, s) := by
  rw [execute, findSome?_eq_none h]

/-- **What the commands of the console do with a line.** -/
theorem executes_builtin (colored : Bool) (line : String) (s : Session) :
    Executes colored line s ((builtin colored).execute line s) := by
  have hr := commands_builtin colored
  have hhelp : Calls "help" line ↔ leadingWord line = "help" := calls_iff (by decide)
  have hquit : Calls "quit" line ↔ leadingWord line = "quit" := calls_iff (by decide)
  have hexit : Calls "exit" line ↔ leadingWord line = "exit" := calls_iff (by decide)
  have hstats : Calls "stats" line ↔ leadingWord line = "stats" := calls_iff (by decide)
  by_cases hreset : Calls "stats reset" line
  · rw [execute_of_calls [] hr nofun hreset]
    exact .reset hreset
  by_cases hmem : leadingWord line ∈ reservedWords
  · simp only [reservedWords, List.mem_cons, List.not_mem_nil, or_false] at hmem
    rcases hmem with h | h | h | h
    · rw [execute_of_calls [_, _] hr (by simp [hreset, hstats, h]) (hhelp.2 h)]
      exact .help h
    · rw [execute_of_calls [_, _, _] hr (by simp [hreset, hstats, hhelp, h]) (hquit.2 h)]
      exact .quit (by simp [exitWords, h])
    · rw [execute_of_calls [_, _, _, _] hr (by simp [hreset, hstats, hhelp, hquit, h])
        (hexit.2 h)]
      exact .quit (by simp [exitWords, h])
    · rw [execute_of_calls [_] hr (by simp [hreset]) (hstats.2 h), Handler.stats]
      split
      · next hempty => exact .stats h hreset (String.isEmpty_iff.1 hempty)
      · next hempty => exact .unknown h hreset _ rfl (hempty ∘ String.isEmpty_iff.2)
  · have hnone : ∀ c ∈ (builtin colored).commands, ¬ Calls c.word line := by
      simp only [reservedWords, List.mem_cons, List.not_mem_nil, or_false, not_or] at hmem
      simp [hr, hreset, hstats, hhelp, hquit, hexit, hmem]
    rw [execute_of_not_calls hnone]
    exact .none hmem

/-! ## Replies and sessions -/

/-- **A line is no command iff its leading word is not reserved.** -/
theorem reply_eq_notACommand_iff (colored : Bool) (line : String) (s : Session) :
    ((builtin colored).execute line s).1 = .notACommand ↔ leadingWord line ∉ reservedWords := by
  generalize hresult : (builtin colored).execute line s = result
  have h := hresult ▸ executes_builtin colored line s
  cases h with
  | reset h => simp [leadingWord_of_calls_statsReset h, reservedWords]
  | stats h | unknown h => simp [h, reservedWords]
  | help h => simp [h, reservedWords]
  | quit h => simp [exitWords_subset h]
  | none h => simp [h]

/-- **Only `stats reset` changes the session,** which it sets back. -/
theorem session_execute_builtin (colored : Bool) (line : String) (s : Session) :
    ((builtin colored).execute line s).2 =
      if Calls "stats reset" line then s.resetCounters.forget else s := by
  generalize hresult : (builtin colored).execute line s = result
  have h := hresult ▸ executes_builtin colored line s
  have hother : leadingWord line ≠ "stats" → ¬ Calls "stats reset" line :=
    fun hne hcalls => hne (leadingWord_of_calls_statsReset hcalls)
  cases h with
  | reset h => rw [if_pos h]
  | stats _ hreset | unknown _ hreset => rw [if_neg hreset]
  | help h => rw [if_neg (hother (by simp [h]))]
  | quit h =>
    have hne : "stats" ∉ exitWords := by decide
    rw [if_neg (hother fun hw => hne (hw ▸ h))]
  | none h =>
    have hmem : "stats" ∈ reservedWords := by decide
    rw [if_neg (hother fun hw => h (hw ▸ hmem))]

end Registry

end Reckon
