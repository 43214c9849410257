/-
  The records of a call.

  The production for a factor makes a record wherever it begins.

  * `Input.entry_index`: a record is about what lies ahead where it is made;
  * `Input.snd_records` and `Calculator.parseLog_eq`: the records are those of the reader, and so
    those of the log;
  * `Parser.begun_in_order`: at every call the cursor goes on from one record to the next, and if the
    call succeeds, the records are those of the tokens that begin the factors of the derivation.
-/
import Reckon.Proofs.Descent.Calls
import Reckon.Proofs.Descent.Progress

namespace Reckon

open Reader

/-! ## The records of the reader -/

theorem Reader.State.suffix_of_mem_begins {s : State} {us ts : List Token}
    (h : us ∈ s.begins ts) : us <:+ ts := by
  unfold State.begins at h
  split at h
  · obtain rfl := List.mem_singleton.1 h
    exact List.suffix_rfl
  · cases h

/-- The reader begins a factor before what is left of its tokens. -/
theorem Reader.State.suffix_of_mem_begun {limit : Option Nat} {stop : Span} {s : State}
    {us ts : List Token} (h : us ∈ (s.run limit stop ts).begun) : us <:+ ts := by
  induction ts generalizing s with
  | nil =>
    cases he : s.enter limit stop with
    | error x =>
      rw [State.run_of_enter he] at h
      cases h
    | ok u =>
      rw [State.run_nil he] at h
      exact State.suffix_of_mem_begins h
  | cons t ts ih =>
    cases he : s.enter limit t.span with
    | error x =>
      rw [State.run_of_enter he] at h
      cases h
    | ok u =>
      cases hs : s.step limit t with
      | error x =>
        rw [State.run_cons_of_error he hs] at h
        exact State.suffix_of_mem_begins h
      | ok s' =>
        rw [State.run_cons_of_ok he hs] at h
        rcases List.mem_append.1 h with h | h
        · exact State.suffix_of_mem_begins h
        · exact (ih h).trans (List.suffix_cons t ts)

namespace Input

variable {i : Input} {us vs : List Token}

theorem map_fst_entry (i : Input) (places : List Nat) :
    (places.map i.entry).map Prod.fst = places := by
  rw [List.map_map]
  exact List.map_id places

/-- A record is about what lies ahead where it is made, which may be the end. -/
theorem entry_index (h : us <:+ i.before) :
    i.entry (i.index us) = (i.index us, factorRecord i.last.span us) := by
  rw [← entry_standing h 0]
  cases us with
  | nil => rw [Parser.entry, current_standing_nil, i.kind_last, factorRecord]; rfl
  | cons t us => rfl

/-- **The records are those of the reader.** -/
theorem snd_records (hvs : vs <:+ i.before) (s : State) (n : Nat) :
    (i.outcome n (i.ending s vs)).records.map Prod.snd =
      (s.run i.limit i.last.span vs).begun.map (factorRecord i.last.span) := by
  simp only [outcome, ending, List.map_map]
  refine List.map_congr_left fun us hus => ?_
  exact congrArg Prod.snd (entry_index ((State.suffix_of_mem_begun hus).trans hvs))

theorem sound_standing (h : us <:+ i.before) (n : Nat) : (i.standing us n).Sound where
  current := getElem?_position h
  ahead := ⟨i.before.length, i.last, Nat.sub_le _ _, by simp [standing], i.isFinish_last⟩

/-- What lies ahead goes up to the first end. -/
theorem takeWhile_drop_index (h : us <:+ i.before) :
    ((i.before ++ i.last :: i.behind).drop (i.index us)).takeWhile (fun t => !t.isFinish) = us := by
  have hdrop : (i.before ++ i.last :: i.behind).drop (i.index us) = us ++ i.last :: i.behind :=
    drop_standing h 0
  rw [hdrop]
  exact congrArg Reader.tokens (ofTokens_append_cons
    (fun t ht => i.isFinish_before t (h.subset ht)) i.isFinish_last i.behind none)

end Input

/-- **The log of a text holds the records of the call that reads it.** -/
theorem Calculator.parseLog_eq (c : Calculator) {text : String} {tokens : List Token}
    (h : tokenize text = .ok tokens) : ∃ o, (Parser.ofTokens tokens c.limit).parse = some o ∧
      c.parseLog text = [.scanned tokens.length, .tokenized text tokens.length] ++
        o.records.map Prod.snd ++ match o.result with
          | .ok tree => [.parsed text tree]
          | .error _ => [] := by
  obtain ⟨i, -, hparser, hreader⟩ := exists_ofTokens_eq tokens c.limit
  refine ⟨_, by rw [hparser, Input.parse_standing List.suffix_rfl], ?_⟩
  rw [Input.snd_records List.suffix_rfl, parseLog, h]
  dsimp only
  rw [hreader]
  rfl

/-! ## Call after call -/

namespace Parser

/-- **Factors are begun in order, at every call,** under any limit and however the call ends. From
    one record to the next the cursor goes on, so that there is at most one for each token; it is
    about this token, and the cursor was there between the beginning and the end of the call. They
    are the records of the log. If the call succeeds, they are about the tokens that begin the
    factors of the derivation, and there is one. These are known by their neighbours: the numbers,
    the names of functions, plus and minus behind no operand, and the brackets behind no
    name. -/
theorem begun_in_order (ts : List Token) (limit : Option Nat) (k : Nat) :
    ∃ (p : Parser) (o : Outcome), (ofTokens ts limit).after k = some p ∧ p.parse = some o ∧
      let places := o.records.map Prod.fst
      let reader := Reader.advance^[k] (Reader.ofTokens ts limit)
      places.Pairwise (· < ·) ∧
      (∀ n r, (n, r) ∈ o.records → p.position ≤ n ∧ n ≤ o.parser.position ∧
        ∃ t, (ended ts)[n]? = some t ∧ r = .factor t.span t.kind) ∧
      o.records.map Prod.snd = reader.read.begun.map (factorRecord reader.stop) ∧
      ∀ e, o.result = .ok e →
        let input := ((ended ts).drop p.position).takeWhile fun t => !t.isFinish
        (∃ d : Derivation (.chain .sum), d.tokens = input ∧ d.tree = e) ∧
          (∀ d : Derivation (.chain .sum), d.tokens = input →
            places = d.beginnings p.position) ∧
          places = beginnings none p.position input := by
  obtain ⟨i, hended, hparser, hreader⟩ := exists_ofTokens_eq ts limit
  obtain ⟨vs, hvs, hafter, hiterate⟩ := i.exists_after_eq List.suffix_rfl k
  have hparse := Input.parse_standing hvs
  have honward := onwards_parseWithin _ _ _ (Input.sound_standing hvs 0) hparse
  refine ⟨i.standing vs 0, _, by rw [hparser, hafter], hparse, List.pairwise_map.2 honward.ordered,
    fun n r hr => ?_, ?_, fun e he => ?_⟩
  · obtain ⟨hfirst, hlast⟩ := honward.within _ hr
    obtain ⟨t, ht, hrecord⟩ := honward.about _ hr
    exact ⟨hfirst, hlast, t, by rw [hended]; exact ht, hrecord⟩
  · rw [Input.snd_records hvs, hreader]
    exact congrArg (fun r : Reader => r.read.begun.map (factorRecord r.stop)) hiterate.symm
  · obtain ⟨d, hd, hde, hrecords⟩ := Input.exists_derivation_of_parse hvs hparse he
    have hplaces : (i.outcome 0 (i.ending State.initial vs)).records.map Prod.fst =
        beginnings none (i.index vs) vs := by
      rw [hrecords, i.map_fst_entry, d.beginnings_eq, hd]
    have hposition : (i.standing vs 0).position = i.index vs := rfl
    rw [hended, hposition, Input.takeWhile_drop_index hvs]
    refine ⟨⟨d, hd, hde⟩, fun d' hd' => ?_, hplaces⟩
    rw [hplaces, ← hd']
    exact (d'.beginnings_eq _).symm

end Parser

end Reckon
