/-
  Asking the scanner again, whatever it answered.

  * `Scanned` is an answer of the scanner, a token or an error; `Scanned.isSecondPoint` tells
    the error of a second point, which is left to be read again;
  * `Scanner.Finds s r` lists what a scanner can find, and `Scanner.finds_next`: what it does
    is one of these;
  * `Scanner.Covers cs s r` is what this means in the text `cs`: where the answer stands, what
    is passed over in front of it, and where the scanner stands behind it;
  * `Scanner.next_shift`: a scanner further to the right does the same, further to the
    right;
  * `Scanner.behind`, `Scanner.cursor` and `Scanner.answer` are the scanner behind some
    calls, its place and its next answer, and `Scanner.answers_lose_nothing` is what holds for
    any number of calls.
-/
import Mathlib.Logic.Function.Iterate
import Reckon.Proofs.Place.Scanning

namespace Reckon

/-! ## Answers -/

/-- The token moved to the right by `k` characters. -/
def Token.shift (k : Nat) (t : Token) : Token := { t with span := t.span.shift k }

/-- What the scanner answers. -/
abbrev Scanned := Except SyntaxError Token

namespace Scanned

/-- The place of an answer. -/
def span : Scanned → Span
  | .ok t => t.span
  | .error x => x.span

/-- The text that an answer shows. -/
def text? : Scanned → Option String
  | .ok t => some t.text
  | .error x => x.problem.shown?

/-- Whether an answer is the end of the text. -/
def isFinish : Scanned → Bool
  | .ok t => t.isFinish
  | .error _ => false

/-- Whether an answer is the error of a number with a second point. -/
def isSecondPoint : Scanned → Bool
  | .error ⟨.malformedNumber text, _⟩ => decide (2 ≤ text.toList.count '.')
  | _ => false

/-- The answer moved to the right by `k` characters. -/
def shift (k : Nat) : Scanned → Scanned
  | .ok t => .ok (t.shift k)
  | .error x => .error (x.shift k)

end Scanned

variable {cs w rest : List Char} {c : Char}

/-! ## One call -/

theorem Lexeme.mem_of_secondPoint (h : first c cs = .secondPoint w rest) : '.' ∈ w := by
  unfold first at h
  split at h
  · unfold number at h
    dsimp only at h
    split at h
    · split at h
      · cases h
        simp
      · split at h <;> cases h
    · cases h
  · split at h
    · rw [word] at h
      cases h
    · cases h

namespace Scanner

/-- What a scanner can find in front of it, and where it is then: blanks, and behind them the
    end of the text or a lexeme. -/
inductive Finds (s : Scanner) : Scanned × Scanner → Prop where
  | finish (hblank : ∀ c ∈ s.rest, Text.isBlank c = true) :
      Finds s (.ok (.finish (s.position + s.rest.length)), ⟨s.position + s.rest.length, []⟩)
  | piece (b : List Char) (kind : TokenKind) (w rest : List Char)
      (hblank : ∀ c ∈ b, Text.isBlank c = true) (hrest : s.rest = b ++ (w ++ rest))
      (hw : w ≠ []) (hkind : kind ≠ .finish) :
      Finds s (.ok (token (s.position + b.length) kind w),
        ⟨s.position + b.length + w.length, rest⟩)
  | lonePoint (b rest : List Char) (hblank : ∀ c ∈ b, Text.isBlank c = true)
      (hrest : s.rest = b ++ (['.'] ++ rest)) :
      Finds s (.error ⟨.malformedNumber ".", ⟨s.position + b.length, s.position + b.length + 1⟩⟩,
        ⟨s.position + b.length + 1, rest⟩)
  /-- The second point is shown, and left. -/
  | secondPoint (b w more : List Char) (hblank : ∀ c ∈ b, Text.isBlank c = true)
      (hrest : s.rest = b ++ (w ++ '.' :: more)) (hw : '.' ∈ w) :
      Finds s (.error ⟨.malformedNumber (String.ofList (w ++ ['.'])),
          ⟨s.position + b.length, s.position + b.length + w.length + 1⟩⟩,
        ⟨s.position + b.length + w.length, '.' :: more⟩)

/-- **What a scanner finds.** -/
theorem finds_next (s : Scanner) : Finds s s.next := by
  rcases next_cases s with ⟨hblank, heq⟩ | ⟨b, c, cs, hblank, -, hrest, heq⟩
  · rw [heq]
    exact .finish hblank
  · have hcs := Lexeme.taken_append_rest c cs
    have hne := Lexeme.taken_ne_nil c cs
    rw [heq]
    rw [← hcs] at hrest
    cases hfirst : Lexeme.first c cs with
    | piece kind w rest =>
      rw [hfirst] at hrest hne
      exact .piece b kind w rest hblank hrest hne (Lexeme.kind_ne_finish hfirst)
    | lonePoint rest =>
      rw [hfirst] at hrest
      exact .lonePoint b rest hblank hrest
    | secondPoint w rest =>
      obtain ⟨more, rfl⟩ := Lexeme.exists_rest_of_secondPoint hfirst
      rw [hfirst] at hrest
      exact .secondPoint b w more hblank hrest (Lexeme.mem_of_secondPoint hfirst)

/-- What a call on a scanner in the text `cs` does. -/
structure Covers (cs : List Char) (s : Scanner) (r : Scanned × Scanner) : Prop where
  behind : r.2.At cs
  le_start : s.position ≤ r.1.span.start
  start_le : r.1.span.start ≤ r.1.span.stop
  stop_le : r.1.span.stop ≤ cs.length
  text?_eq : r.1.text? = some (String.ofList (r.1.span.slice cs))
  blank : ∀ c ∈ Span.slice cs ⟨s.position, r.1.span.start⟩, Text.isBlank c = true
  position_lt : r.1.isFinish = false → s.position < r.2.position
  eq_finish : r.1.isFinish = true → r = (.ok (.finish cs.length), ⟨cs.length, []⟩)
  position_eq : r.1.isSecondPoint = false → r.2.position = r.1.span.stop
  overlap : r.1.isSecondPoint = true →
    r.2.position + 1 = r.1.span.stop ∧ ∃ more, r.2.rest = '.' :: more

variable {s : Scanner} {r : Scanned × Scanner}

/-- What follows from where an answer stands: behind blanks `b`, showing `shown`, of which the
    scanner takes `w`. -/
theorem covers_of_taken {answer : Scanned} {b : List Char} (shown : List Char) (h : s.At cs)
    (hblank : ∀ c ∈ b, Text.isBlank c = true) (hrest : s.rest = b ++ (w ++ rest)) (hw : w ≠ [])
    (hspan : answer.span = ⟨s.position + b.length, s.position + b.length + shown.length⟩)
    (htext : answer.text? = some (String.ofList shown)) (hfinish : answer.isFinish = false)
    (hshown : shown <+: w ++ rest)
    (hfirst : answer.isSecondPoint = false → shown = w)
    (hsecond : answer.isSecondPoint = true → shown = w ++ ['.'] ∧ ∃ more, rest = '.' :: more) :
    Covers cs s (answer, ⟨s.position + b.length + w.length, rest⟩) := by
  obtain ⟨n, left⟩ := s
  obtain ⟨u, hu, rfl⟩ := h
  dsimp only at hu hrest hspan ⊢
  subst hrest
  obtain ⟨behind, hbehind⟩ := hshown
  have hcs : cs = (u ++ b) ++ (shown ++ behind) := by rw [hu, hbehind, List.append_assoc]
  have hpos := List.length_pos_iff.2 hw
  refine ⟨⟨u ++ b ++ w, ?_, ?_⟩, ?_, ?_, ?_, ?_, ?_, ?_, ?_, ?_, ?_⟩
  · simp [hu]
  · simp [Nat.add_assoc]
  · simp [hspan]
  · simp [hspan]
  · rw [hspan, hcs]
    simp only [List.length_append]
    omega
  · rw [htext, hspan, ← List.length_append, Span.slice_append hcs]
  · rw [hspan, Span.slice_append hu]
    exact hblank
  · intro _
    dsimp only
    omega
  · simp [hfinish]
  · intro hno
    rw [hspan, hfirst hno]
  · intro hyes
    obtain ⟨rfl, more, rfl⟩ := hsecond hyes
    rw [hspan]
    exact ⟨by simp [Nat.add_assoc], more, rfl⟩

/-- **What a call does in a text.** -/
theorem covers_of_finds (h : s.At cs) (hf : Finds s r) : Covers cs s r := by
  cases hf with
  | finish hblank =>
    obtain ⟨u, hu, hlen⟩ := h
    have hn : s.position + s.rest.length = cs.length := by rw [hu, List.length_append, hlen]
    have hslice : Span.slice cs ⟨s.position, cs.length⟩ = s.rest := by
      rw [← hn, ← hlen]
      exact Span.slice_append (v := []) (by rw [hu, List.append_nil])
    rw [hn]
    refine ⟨⟨cs, by simp, rfl⟩, ?_, Nat.le_refl _, Nat.le_refl _, ?_, ?_, ?_, fun _ => rfl,
      fun _ => rfl, ?_⟩
    · show s.position ≤ cs.length
      omega
    · simp [Scanned.span, Scanned.text?, Token.finish, Span.point, Span.slice, Span.length]
    · show ∀ c ∈ Span.slice cs ⟨s.position, cs.length⟩, Text.isBlank c = true
      rw [hslice]
      exact hblank
    · intro hno
      cases hno
    · intro hyes
      cases hyes
  | piece b kind w rest hblank hrest hw hkind =>
    refine covers_of_taken w h hblank hrest hw rfl rfl ?_ (List.prefix_append w rest)
      (fun _ => rfl) fun hyes => ?_
    · simpa [Scanned.isFinish, token, Token.isFinish] using hkind
    · cases hyes
  | lonePoint b rest hblank hrest =>
    refine covers_of_taken ['.'] h hblank hrest (by simp) rfl rfl rfl (List.prefix_append _ rest)
      (fun _ => rfl) fun hyes => ?_
    cases hyes
  | secondPoint b w more hblank hrest hw =>
    have hcount : 2 ≤ (w ++ ['.']).count '.' := by
      have hpos := List.count_pos_iff.2 hw
      rw [List.count_append, List.count_singleton_self]
      omega
    have hpoint : Scanned.isSecondPoint (.error ⟨.malformedNumber (String.ofList (w ++ ['.'])),
        ⟨s.position + b.length, s.position + b.length + w.length + 1⟩⟩) = true := by
      simpa only [Scanned.isSecondPoint, String.toList_ofList, decide_eq_true_eq] using hcount
    have hw' : w ≠ [] := by
      rintro rfl
      cases hw
    refine covers_of_taken (w ++ ['.']) h hblank hrest hw' ?_ rfl rfl ⟨more, by simp⟩
      (fun hno => ?_) fun _ => ⟨rfl, more, rfl⟩
    · simp [Scanned.span, Nat.add_assoc]
    · rw [hpoint] at hno
      cases hno

theorem covers_next (h : s.At cs) : Covers cs s s.next := covers_of_finds h (finds_next s)

theorem At.drop_position (h : s.At cs) : cs.drop s.position = s.rest := by
  obtain ⟨u, rfl, hlen⟩ := h
  rw [← hlen, List.drop_left]

/-- Where no blank is in front of a scanner, its answer starts there. -/
theorem Covers.start_eq (h : Covers cs s r) (hs : s.At cs) (hrest : s.rest = c :: rest)
    (hc : Text.isBlank c = false) : r.1.span.start = s.position := by
  refine Nat.le_antisymm (Nat.le_of_not_lt fun hlt => ?_) h.le_start
  obtain ⟨d, hd⟩ := Nat.exists_eq_add_of_lt hlt
  have hmem : c ∈ Span.slice cs ⟨s.position, r.1.span.start⟩ := by
    have hlength : r.1.span.start - s.position = d + 1 := by omega
    rw [Span.slice, hs.drop_position, hrest, Span.length, hlength]
    exact List.mem_cons_self
  rw [h.blank c hmem] at hc
  cases hc

/-! ## A scanner that stands elsewhere -/

/-- The scanner with `k` characters more behind it. -/
def shift (k : Nat) (s : Scanner) : Scanner := ⟨s.position + k, s.rest⟩

theorem ofLexeme_shift (k n : Nat) (l : Lexeme) : ofLexeme (n + k) l =
    (Scanned.shift k (ofLexeme n l).1, (ofLexeme n l).2.shift k) := by
  cases l <;> simp [ofLexeme, Scanned.shift, Token.shift, SyntaxError.shift, Span.shift, shift,
    Nat.add_right_comm]

/-- **A scanner further to the right does the same,** further to the right. -/
theorem next_shift (k : Nat) (s : Scanner) :
    (s.shift k).next = (Scanned.shift k s.next.1, s.next.2.shift k) := by
  obtain ⟨n, cs⟩ := s
  simp only [next, shift, Nat.add_right_comm n k]
  cases cs.dropWhile Text.isBlank with
  | nil => rfl
  | cons c cs => exact ofLexeme_shift k _ _

/-! ## Many calls -/

/-- The scanner behind one call. -/
def advance (s : Scanner) : Scanner := s.next.2

/-- The scanner behind `k` calls on a text. -/
def behind (text : String) (k : Nat) : Scanner := advance^[k] (ofString text)

/-- Where the scanner stands behind `k` calls on a text. -/
def cursor (text : String) (k : Nat) : Nat := (behind text k).position

/-- The answer of the call behind `k` others on a text. -/
def answer (text : String) (k : Nat) : Scanned := (behind text k).next.1

/-- The text that is left behind `k` calls. -/
def left (text : String) (k : Nat) : String := String.ofList (text.toList.drop (cursor text k))

variable {text : String} {j k : Nat}

theorem behind_succ (text : String) (k : Nat) : behind text (k + 1) = (behind text k).next.2 :=
  Function.iterate_succ_apply' advance k (ofString text)

theorem at_behind (text : String) (k : Nat) : (behind text k).At text.toList := by
  induction k with
  | zero => exact at_ofString text
  | succ k ih =>
    rw [behind_succ]
    exact (covers_next ih).behind

/-- **What the call behind `k` others does.** -/
theorem covers_answer (text : String) (k : Nat) :
    Covers text.toList (behind text k) (answer text k, behind text (k + 1)) := by
  rw [behind_succ]
  exact covers_next (at_behind text k)

theorem cursor_le (text : String) (k : Nat) : cursor text k ≤ text.toList.length := by
  obtain ⟨u, hu, hlen⟩ := at_behind text k
  rw [cursor, ← hlen, hu, List.length_append]
  exact Nat.le_add_right _ _

/-- Behind the end there is nothing but the end. -/
theorem answer_of_isFinish (h : (answer text j).isFinish = true) (hle : j ≤ k) :
    answer text k = .ok (.finish text.toList.length) := by
  obtain ⟨hfinish, hbehind⟩ := Prod.mk.inj ((covers_answer text j).eq_finish h)
  obtain ⟨i, rfl⟩ := Nat.exists_eq_add_of_le hle
  cases i with
  | zero => exact hfinish
  | succ i =>
    have hfixed : advance^[i] ⟨text.toList.length, []⟩ = ⟨text.toList.length, []⟩ :=
      Function.iterate_fixed rfl i
    have hlast : behind text (j + (i + 1)) = ⟨text.toList.length, []⟩ := by
      rw [← hfixed, ← hbehind, behind, behind, ← Function.iterate_add_apply]
      congr 1
      omega
    rw [answer, hlast]
    rfl

/-- Each call before the end takes a character. -/
theorem le_cursor (h : ∀ j < k, (answer text j).isFinish = false) : k ≤ cursor text k := by
  induction k with
  | zero => exact Nat.zero_le _
  | succ k ih =>
    have hle := ih fun j hj => h j (by omega)
    have hlt := (covers_answer text k).position_lt (h k (by omega))
    exact Nat.lt_of_le_of_lt hle hlt

theorem exists_isFinish (text : String) :
    ∃ j ≤ text.toList.length, (answer text j).isFinish = true := by
  by_contra hnone
  have hle : text.toList.length + 1 ≤ cursor text (text.toList.length + 1) := by
    refine le_cursor fun j hj => ?_
    by_contra hfinish
    exact hnone ⟨j, by omega, by simpa using hfinish⟩
  have hcursor := cursor_le text (text.toList.length + 1)
  omega

theorem iterate_advance_shift (n : Nat) (s : Scanner) (j : Nat) :
    advance^[j] (s.shift n) = (advance^[j] s).shift n := by
  induction j with
  | zero => rfl
  | succ j ih =>
    rw [Function.iterate_succ_apply', Function.iterate_succ_apply', ih, advance, next_shift]
    rfl

/-- Behind some calls, a scanner does what a new one does with the text that is left. -/
theorem behind_add (text : String) (k j : Nat) :
    behind text (k + j) = (behind (left text k) j).shift (cursor text k) := by
  have hleft : behind text k = (ofString (left text k)).shift (cursor text k) := by
    rw [left, cursor, (at_behind text k).drop_position, ofString, String.toList_ofList, shift,
      Nat.zero_add]
  rw [behind, behind, Nat.add_comm, Function.iterate_add_apply, ← iterate_advance_shift, ← hleft]
  rfl

theorem answer_add (text : String) (k j : Nat) :
    answer text (k + j) = (answer (left text k) j).shift (cursor text k) := by
  rw [answer, behind_add, next_shift]
  rfl

/-- **A second point is read again.** -/
theorem start_of_isSecondPoint (h : (answer text k).isSecondPoint = true) :
    (answer text (k + 1)).span.start + 1 = (answer text k).span.stop ∧
      text.toList[(answer text (k + 1)).span.start]? = some '.' := by
  obtain ⟨hstop, more, hrest⟩ := (covers_answer text k).overlap h
  have hs := at_behind text (k + 1)
  have hstart := (covers_answer text (k + 1)).start_eq hs hrest rfl
  rw [hstart]
  refine ⟨hstop, ?_⟩
  rw [← List.head?_drop, hs.drop_position, hrest]
  rfl

/-- Between two answers there are blanks only, unless a second point is read again. -/
theorem blank_of_not_isSecondPoint (h : (answer text k).isSecondPoint = false) :
    (answer text k).span.stop ≤ (answer text (k + 1)).span.start ∧
      ∀ c ∈ Span.slice text.toList ⟨(answer text k).span.stop, (answer text (k + 1)).span.start⟩,
        Text.isBlank c = true := by
  have hnext := covers_answer text (k + 1)
  rw [← (covers_answer text k).position_eq h]
  exact ⟨hnext.le_start, hnext.blank⟩

/-- **The scanner goes on after each answer, and loses nothing.** Each call before the end
    moves it, so that the end is reached by one call more than there are characters, and
    then stays. Behind any number of calls, the scanner answers as a new one does for the
    text that is left, moved by its cursor. Each answer shows what stands at its place.
    In front of the first answer and between any two there are blanks only, except that the
    second point of a number is shown with its error and read again. -/
theorem answers_lose_nothing (text : String) :
    (∀ k, (answer text k).isFinish = false → cursor text k < cursor text (k + 1)) ∧
      (∀ k, text.length ≤ k → answer text k = .ok (.finish text.length)) ∧
      (∀ j k, (answer text j).isFinish = true → j ≤ k →
        answer text k = .ok (.finish text.length)) ∧
      (∀ k j, answer text (k + j) = (answer (left text k) j).shift (cursor text k) ∧
        cursor text (k + j) = cursor (left text k) j + cursor text k) ∧
      (∀ k, (answer text k).span.start ≤ (answer text k).span.stop ∧
        (answer text k).span.stop ≤ text.length ∧
        (answer text k).text? = some (String.ofList ((answer text k).span.slice text.toList))) ∧
      (∀ c ∈ Span.slice text.toList ⟨0, (answer text 0).span.start⟩, Text.isBlank c = true) ∧
      ∀ k, if (answer text k).isSecondPoint then
          (answer text (k + 1)).span.start + 1 = (answer text k).span.stop ∧
            text.toList[(answer text (k + 1)).span.start]? = some '.'
        else
          (answer text k).span.stop ≤ (answer text (k + 1)).span.start ∧
            ∀ c ∈ Span.slice text.toList
              ⟨(answer text k).span.stop, (answer text (k + 1)).span.start⟩,
              Text.isBlank c = true := by
  rw [← String.length_toList]
  refine ⟨fun k => (covers_answer text k).position_lt, fun k hk => ?_,
    fun j k => answer_of_isFinish, fun k j => ⟨answer_add text k j, ?_⟩, fun k => ?_,
    (covers_answer text 0).blank, fun k => ?_⟩
  · obtain ⟨j, hj, hfinish⟩ := exists_isFinish text
    exact answer_of_isFinish hfinish (Nat.le_trans hj hk)
  · exact congrArg Scanner.position (behind_add text k j)
  · have h := covers_answer text k
    exact ⟨h.start_le, h.stop_le, h.text?_eq⟩
  · split
    · next h => exact start_of_isSecondPoint h
    · next h => exact blank_of_not_isSecondPoint (by simpa using h)

/-- A number with a second point, behind which a number with one point is read. -/
theorem answers_twoPoints :
    (answer "1.2.3 $" 0).isSecondPoint = true ∧
      (answer "1.2.3 $" 1).span.start + 1 = (answer "1.2.3 $" 0).span.stop ∧
      (answer "1.2.3 $" 1).text? = some ".3" ∧
      answer "1.2.3 $" 7 = .ok (.finish 7) := by
  obtain ⟨-, hfinish, -, -, hplace, -, hnext⟩ := answers_lose_nothing "1.2.3 $"
  have hsecond : (answer "1.2.3 $" 0).isSecondPoint = true := by decide
  have h := hnext 0
  rw [if_pos hsecond] at h
  exact ⟨hsecond, h.1, (hplace 1).2.2.trans (by decide), hfinish 7 (by decide)⟩

end Scanner

end Reckon
