/-
  Registrations, and which of them a line runs.

  * `StablySorted size xs ys`: `ys` are the members of `xs` by decreasing size, and those
    of one size are in the order of `xs`; there is one such list (`StablySorted.eq`);
  * `Registry.commands_register`: registering a command is putting it behind the others
    and sorting them stably, and `Registry.stablySorted_ofCommands`: so the commands of a
    registry are its registrations, stably sorted;
  * `Longest words line w`: of these words, `w` is the longest that the line calls, and
    `Registry.execute_cases`: its first registration is run, or nothing if there is none;
  * `Registry.Runs words line call`: whatever the handlers of these words do, the line runs
    the one at this position, on this argument, and no other;
  * `Registry.execute_registered`: which handler a line runs, how the words are listed, and
    when the order of the registrations makes no difference.
-/
import Mathlib.Data.List.Find
import Mathlib.Data.List.Nodup
import Mathlib.Logic.ExistsUnique
import Reckon.Proofs.Reserved

namespace Reckon

/-! ## Stable sorting -/

/-- Whether `ys` are the members of `xs` by decreasing size, those of one size in the same
    order as in `xs`. -/
structure StablySorted {α : Type} (size : α → Nat) (xs ys : List α) : Prop where
  sorted : ys.Pairwise fun x y => size y ≤ size x
  stable : ∀ n, ys.filter (size · == n) = xs.filter (size · == n)

namespace StablySorted

variable {α β : Type} {size : α → Nat} {xs ys zs : List α}

theorem mem_iff (h : StablySorted size xs ys) {x : α} : x ∈ ys ↔ x ∈ xs := by
  have hmem : ∀ l : List α, x ∈ l ↔ x ∈ l.filter (size · == size x) := by simp
  rw [hmem, h.stable, ← hmem]

theorem map (h : StablySorted size xs ys) {f : α → β} {g : β → Nat}
    (hg : ∀ x, g (f x) = size x) : StablySorted g (xs.map f) (ys.map f) := by
  constructor
  · rw [List.pairwise_map]
    simpa only [hg] using h.sorted
  · intro n
    have hcomp : (fun y => g y == n) ∘ f = (size · == n) := by
      funext x
      simp [hg]
    rw [List.filter_map, List.filter_map, hcomp, h.stable]

/-- Of members that are of one size, the first one stays the first. -/
theorem find?_eq (h : StablySorted size xs ys) {p : α → Bool} {n : Nat}
    (hp : ∀ x, p x = true → size x = n) : ys.find? p = xs.find? p := by
  have hfilter : ∀ l : List α, l.find? p = (l.filter (size · == n)).find? p := by
    intro l
    rw [List.find?_filter]
    refine List.find?_congr fun x _ => ?_
    cases hx : p x with
    | false => simp
    | true => simp [hp x hx]
  rw [hfilter, h.stable, ← hfilter]

/-- **There is one way to sort stably.** -/
theorem eq (h : StablySorted size xs ys) (h' : StablySorted size xs zs) : ys = zs := by
  have hstable : ∀ n, ys.filter (size · == n) = zs.filter (size · == n) :=
    fun n => (h.stable n).trans (h'.stable n).symm
  obtain ⟨hys, -⟩ := h
  obtain ⟨hzs, -⟩ := h'
  induction ys generalizing zs with
  | nil =>
    cases zs with
    | nil => rfl
    | cons z zs =>
      have hz := hstable (size z)
      simp at hz
  | cons y ys ih =>
    cases zs with
    | nil =>
      have hy := hstable (size y)
      simp at hy
    | cons z zs =>
      obtain ⟨hy, hys⟩ := List.pairwise_cons.1 hys
      obtain ⟨hz, hzs⟩ := List.pairwise_cons.1 hzs
      -- Each of the two heads is in the other list, so they are of one size.
      have hsize : size y = size z := by
        have hymem : y ∈ (z :: zs).filter (size · == size y) := by
          rw [← hstable]
          simp
        have hzmem : z ∈ (y :: ys).filter (size · == size z) := by
          rw [hstable]
          simp
        refine Nat.le_antisymm ?_ ?_
        · rcases List.mem_cons.1 (List.mem_filter.1 hymem).1 with heq | hmem
          · rw [heq]
          · exact hz y hmem
        · rcases List.mem_cons.1 (List.mem_filter.1 hzmem).1 with heq | hmem
          · rw [heq]
          · exact hy z hmem
      have hhead : y = z := by
        have hn := hstable (size y)
        rw [List.filter_cons_of_pos (by simp), List.filter_cons_of_pos (by simp [hsize])] at hn
        exact (List.cons.inj hn).1
      have htail : ∀ n, ys.filter (size · == n) = zs.filter (size · == n) := by
        intro n
        have hn := hstable n
        rw [hhead, List.filter_cons, List.filter_cons] at hn
        split at hn
        · exact (List.cons.inj hn).2
        · exact hn
      rw [hhead, ih htail hys hzs]

theorem mergeSort (size : α → Nat) (xs : List α) :
    StablySorted size xs (xs.mergeSort fun x y => decide (size y ≤ size x)) := by
  have htrans : ∀ x y z : α, decide (size y ≤ size x) = true → decide (size z ≤ size y) = true →
      decide (size z ≤ size x) = true := by
    intro x y z hxy hyz
    simp only [decide_eq_true_eq] at hxy hyz ⊢
    exact Nat.le_trans hyz hxy
  have htotal : ∀ x y : α, (decide (size y ≤ size x) || decide (size x ≤ size y)) = true := by
    intro x y
    simpa using Nat.le_total (size y) (size x)
  constructor
  · simpa using List.pairwise_mergeSort htrans htotal xs
  · intro n
    -- Members of one size are sorted as they are, so that sorting keeps their order.
    have hpairwise :
        (xs.filter (size · == n)).Pairwise fun x y => decide (size y ≤ size x) = true := by
      refine List.pairwise_of_forall_mem_list fun x hx y hy => ?_
      simp only [List.mem_filter, beq_iff_eq] at hx hy
      simp [hx.2, hy.2]
    have hsublist := (List.sublist_mergeSort htrans htotal hpairwise List.filter_sublist).filter
      (size · == n)
    simp only [List.filter_filter, Bool.and_self] at hsublist
    have hperm := (List.mergeSort_perm xs fun x y => decide (size y ≤ size x)).filter (size · == n)
    exact (hsublist.eq_of_length hperm.length_eq.symm).symm

end StablySorted

/-! ## Registering -/

namespace Registry

/-- The registry behind some registrations. -/
def ofCommands (rs : List Command) : Registry :=
  rs.foldl (fun r c => r.register c.word c.handler) empty

/-- A command gets behind all others of its size. -/
theorem filter_insert {c : Command} {commands : List Command}
    (h : commands.Pairwise (fun c d => d.size ≤ c.size)) (n : Nat) :
    (insert c commands).filter (·.size == n) = (commands ++ [c]).filter (·.size == n) := by
  induction commands with
  | nil => rfl
  | cons d rest ih =>
    obtain ⟨hd, hrest⟩ := List.pairwise_cons.1 h
    unfold insert
    split
    · rw [List.cons_append, List.filter_cons, List.filter_cons, ih hrest]
    · next hlt =>
      -- All others are shorter than the command, so none of them is of its size.
      by_cases hn : c.size = n
      · have hnone : (d :: rest).filter (·.size == n) = [] := by
          rw [List.filter_eq_nil_iff]
          intro e he
          have hle : e.size ≤ d.size := by
            rcases List.mem_cons.1 he with rfl | he
            · exact Nat.le_refl _
            · exact hd e he
          simp only [beq_iff_eq]
          omega
        rw [List.filter_append, List.filter_cons_of_pos (by simp [hn]), hnone]
        simp [hn]
      · rw [List.filter_append, List.filter_cons_of_neg (by simp [hn])]
        simp [hn]

variable {r : Registry} {rs : List Command}

theorem stablySorted_register (h : StablySorted Command.size rs r.commands) (c : Command) :
    StablySorted Command.size (rs ++ [c]) (r.register c.word c.handler).commands := by
  refine ⟨(r.register c.word c.handler).sorted, fun n => ?_⟩
  show (insert c r.commands).filter _ = _
  rw [filter_insert r.sorted, List.filter_append, List.filter_append, h.stable]

/-- **Registering a command is putting it behind the others and sorting them stably.** -/
theorem commands_register (r : Registry) (word : String) (handler : Handler) :
    (r.register word handler).commands =
      (r.commands ++ [(⟨word, handler⟩ : Command)]).mergeSort fun c d => decide (d.size ≤ c.size) := by
  have h : StablySorted Command.size r.commands r.commands := ⟨r.sorted, fun _ => rfl⟩
  exact (stablySorted_register h ⟨word, handler⟩).eq (.mergeSort Command.size _)

/-- **The commands of a registry are its registrations, stably sorted.** -/
theorem stablySorted_ofCommands (rs : List Command) :
    StablySorted Command.size rs (ofCommands rs).commands := by
  have hfoldl : ∀ (more before : List Command) (r : Registry),
      StablySorted Command.size before r.commands →
      StablySorted Command.size (before ++ more)
        (more.foldl (fun r c => r.register c.word c.handler) r).commands := by
    intro more
    induction more with
    | nil =>
      intro before r h
      rwa [List.append_nil]
    | cons c more ih =>
      intro before r h
      have hmore := ih (before ++ [c]) _ (stablySorted_register h c)
      rwa [List.append_assoc] at hmore
  exact hfoldl rs [] empty ⟨.nil, fun _ => rfl⟩

end Registry

/-! ## The longest word -/

variable {line v w : String} {words : List String} {s : Session}

/-- The longest of some words that a line calls. -/
structure Longest (words : List String) (line w : String) : Prop where
  mem : w ∈ words
  calls : Calls w line
  length_le : ∀ v ∈ words, Calls v line → v.length ≤ w.length

theorem Calls.isPrefix (h : Calls w line) : w.toList <+: line.toList := by
  rcases h with h | h
  · exact h ▸ List.prefix_rfl
  · exact (List.prefix_append _ _).trans h

/-- Of two words that a line calls, one goes on with the other. -/
theorem exists_eq_append_of_calls (hv : Calls v line) (hw : Calls w line)
    (hle : v.length ≤ w.length) : ∃ more, w = v ++ more := by
  rw [← String.length_toList, ← String.length_toList] at hle
  obtain ⟨more, hmore⟩ := List.prefix_of_prefix_length_le hv.isPrefix hw.isPrefix hle
  refine ⟨String.ofList more, ?_⟩
  rw [← String.toList_inj, String.toList_append, String.toList_ofList, hmore]

/-- Words that a line calls compare by bytes as they do by characters. -/
theorem utf8ByteSize_le_iff_of_calls (hv : Calls v line) (hw : Calls w line) :
    v.utf8ByteSize ≤ w.utf8ByteSize ↔ v.length ≤ w.length := by
  constructor
  · intro hle
    by_contra hlt
    obtain ⟨more, rfl⟩ := exists_eq_append_of_calls hw hv (by omega)
    rw [String.utf8ByteSize_append] at hle
    have hmore : more = "" := String.utf8ByteSize_eq_zero_iff.1 (by omega)
    simp [hmore] at hlt
  · intro hle
    obtain ⟨more, rfl⟩ := exists_eq_append_of_calls hv hw hle
    rw [String.utf8ByteSize_append]
    exact Nat.le_add_right _ _

theorem Longest.eq (hv : Longest words line v) (hw : Longest words line w) : v = w := by
  have hle := hw.length_le v hv.mem hv.calls
  have hge := hv.length_le w hw.mem hw.calls
  obtain ⟨more, rfl⟩ := exists_eq_append_of_calls hv.calls hw.calls hle
  rw [String.length_append] at hge
  have hmore : more = "" := by
    rw [← String.length_eq_zero_iff]
    omega
  rw [hmore, String.append_empty]

namespace Registry

variable {r : Registry} {rs : List Command}

/-- **What a line does with stably sorted registrations.** It runs the first one of the
    longest word that it calls, or none. -/
theorem execute_cases (h : StablySorted Command.size rs r.commands) (line : String) :
    ((∀ c ∈ rs, ¬ Calls c.word line) ∧ ∀ s, r.execute line s = (.notACommand, s)) ∨
      ∃ c, Longest (rs.map (·.word)) line c.word ∧ rs.find? (·.word == c.word) = some c ∧
        ∀ s, r.execute line s = c.handler (argumentOf c.word line) s := by
  cases hfind : r.commands.find? fun c => decide (Calls c.word line) with
  | none =>
    have hnone : ∀ c ∈ r.commands, ¬ Calls c.word line := by simpa using hfind
    exact Or.inl ⟨fun c hc => hnone c (h.mem_iff.2 hc), fun s => execute_of_not_calls hnone⟩
  | some c =>
    obtain ⟨hc, before, behind, hcommands, hbefore⟩ := List.find?_eq_some_iff_append.1 hfind
    have hcalls : Calls c.word line := by simpa using hc
    have hfront : ∀ d ∈ before, ¬ Calls d.word line := by simpa using hbefore
    have hsorted := h.sorted
    rw [hcommands, List.pairwise_append, List.pairwise_cons] at hsorted
    refine Or.inr ⟨c, ⟨?_, hcalls, ?_⟩, ?_, fun s => execute_of_calls before hcommands hfront hcalls⟩
    · refine List.mem_map_of_mem (h.mem_iff.1 ?_)
      simp [hcommands]
    · -- The commands in front are not called, and those behind are not longer.
      intro v hv hvcalls
      obtain ⟨d, hd, rfl⟩ := List.mem_map.1 hv
      rw [← h.mem_iff, hcommands] at hd
      rcases List.mem_append.1 hd with hd | hd
      · exact absurd hvcalls (hfront d hd)
      · rcases List.mem_cons.1 hd with rfl | hd
        · exact Nat.le_refl _
        · exact (utf8ByteSize_le_iff_of_calls hvcalls hcalls).1 (hsorted.2.1.1 d hd)
    · have hsize : ∀ d : Command, (d.word == c.word) = true → d.size = c.size := by
        intro d hd
        rw [Command.size, Command.size, eq_of_beq hd]
      rw [← h.find?_eq hsize, List.find?_eq_some_iff_append]
      refine ⟨by simp, before, behind, hcommands, fun d hd => ?_⟩
      have hne : d.word ≠ c.word := by
        intro heq
        exact hfront d hd (heq ▸ hcalls)
      simpa using hne

/-! ## The handler that is run -/

/-- Registrations of some words, each with the handler at its position. -/
def registrations (words : List String) (handlers : Nat → Handler) : List Command :=
  words.mapIdx fun i word => ⟨word, handlers i⟩

/-- Whether a line runs the handler at a position on an argument, and no other handler:
    whatever the handlers do, what the line does is what this one does. -/
def Runs (words : List String) (line : String) (call : Nat × String) : Prop :=
  ∀ handlers s,
    (ofCommands (registrations words handlers)).execute line s = handlers call.1 call.2 s

theorem map_word_registrations (words : List String) (handlers : Nat → Handler) :
    (registrations words handlers).map (·.word) = words := by
  exact List.ext_getElem (by simp [registrations]) (by simp [registrations])

theorem find?_registrations (h : w ∈ words) (handlers : Nat → Handler) :
    (registrations words handlers).find? (·.word == w) = some ⟨w, handlers (words.idxOf w)⟩ := by
  induction words generalizing handlers with
  | nil => cases h
  | cons v words ih =>
    rw [registrations, List.mapIdx_cons]
    by_cases hv : v = w
    · subst hv
      simp
    · have hw : w ∈ words := by
        rcases List.mem_cons.1 h with rfl | hw
        · exact absurd rfl hv
        · exact hw
      have hne : (v == w) = false := by simpa using hv
      rw [List.find?_cons_of_neg (by simpa using hv), List.idxOf_cons, hne]
      exact ih hw fun i => handlers (i + 1)

theorem runs_of_longest (h : Longest words line w) :
    Runs words line (words.idxOf w, argumentOf w line) := by
  intro handlers s
  have hwords := map_word_registrations words handlers
  rcases execute_cases (stablySorted_ofCommands (registrations words handlers)) line with
    ⟨hnone, -⟩ | ⟨c, hlongest, hfind, hexecute⟩
  · obtain ⟨c, hc, hcw⟩ := List.mem_map.1 (hwords ▸ h.mem)
    exact absurd (hcw ▸ h.calls) (hnone c hc)
  · rw [hwords] at hlongest
    rw [hlongest.eq h, find?_registrations h.mem] at hfind
    obtain rfl := Option.some.inj hfind
    exact hexecute s

/-- A line runs one handler at most, and on one argument. -/
theorem Runs.eq {call call' : Nat × String} (h : Runs words line call)
    (h' : Runs words line call') : call = call' := by
  -- One handler shows its argument, and all others do something else.
  let handlers : Nat → Handler := fun i argument s =>
    (if i = call.1 then .message argument else .done, s)
  have heq := (h handlers (.ofSettings {})).symm.trans (h' handlers (.ofSettings {}))
  simp only [handlers, if_true, Prod.mk.injEq, and_true] at heq
  split at heq
  · next hi => exact Prod.ext hi.symm (Reply.message.inj heq)
  · cases heq

theorem execute_registrations_of_not_calls (h : ∀ w ∈ words, ¬ Calls w line)
    (handlers : Nat → Handler) (s : Session) :
    (ofCommands (registrations words handlers)).execute line s = (.notACommand, s) := by
  refine execute_of_not_calls fun c hc => h c.word ?_
  rw [← map_word_registrations words handlers]
  exact List.mem_map_of_mem ((stablySorted_ofCommands _).mem_iff.1 hc)

theorem exists_longest (h : ∃ w ∈ words, Calls w line) : ∃ w, Longest words line w := by
  obtain ⟨w, hw, hcalls⟩ := h
  have hwords := map_word_registrations words fun _ => Handler.quit
  rcases execute_cases (stablySorted_ofCommands (registrations words fun _ => Handler.quit)) line
    with ⟨hnone, -⟩ | ⟨c, hlongest, -⟩
  · obtain ⟨c, hc, rfl⟩ := List.mem_map.1 (hwords ▸ hw)
    exact absurd hcalls (hnone c hc)
  · exact ⟨c.word, hwords ▸ hlongest⟩

theorem exists_calls_of_runs {call : Nat × String} (h : Runs words line call) :
    ∃ w ∈ words, Calls w line := by
  by_contra hnone
  have hexit := h (fun _ => Handler.quit) (.ofSettings {})
  rw [execute_registrations_of_not_calls (by simpa using hnone)] at hexit
  cases hexit

theorem runs_iff {call : Nat × String} :
    Runs words line call ↔
      ∃ w, Longest words line w ∧ call = (words.idxOf w, argumentOf w line) := by
  constructor
  · intro h
    obtain ⟨w, hw⟩ := exists_longest (exists_calls_of_runs h)
    exact ⟨w, hw, h.eq (runs_of_longest hw)⟩
  · rintro ⟨w, hw, rfl⟩
    exact runs_of_longest hw

theorem existsUnique_runs_iff :
    (∃! call, Runs words line call) ↔ ∃ w ∈ words, Calls w line := by
  constructor
  · rintro ⟨call, hcall, -⟩
    exact exists_calls_of_runs hcall
  · intro h
    obtain ⟨w, hw⟩ := exists_longest h
    exact ⟨_, runs_of_longest hw, fun call hcall => hcall.eq (runs_of_longest hw)⟩

/-- The words of a registry are those that were registered, stably sorted. -/
theorem stablySorted_words (words : List String) (handlers : Nat → Handler) :
    StablySorted String.utf8ByteSize words (ofCommands (registrations words handlers)).words := by
  have h := (stablySorted_ofCommands (registrations words handlers)).map
    (f := Command.word) (g := String.utf8ByteSize) fun _ => rfl
  rwa [map_word_registrations] at h

/-- Registrations of different words may come in any order. -/
theorem execute_ofCommands_perm {rs' : List Command} (hperm : rs'.Perm rs)
    (hnodup : (rs.map (·.word)).Nodup) (line : String) (s : Session) :
    (ofCommands rs').execute line s = (ofCommands rs).execute line s := by
  have hwords : ∀ w, w ∈ rs'.map (·.word) ↔ w ∈ rs.map (·.word) :=
    fun w => (hperm.map (·.word)).mem_iff
  rcases execute_cases (stablySorted_ofCommands rs) line with
    ⟨hnone, hexecute⟩ | ⟨c, hlongest, hfind, hexecute⟩
  · have hnone' : ∀ d ∈ (ofCommands rs').commands, ¬ Calls d.word line := fun d hd =>
      hnone d (hperm.mem_iff.1 ((stablySorted_ofCommands rs').mem_iff.1 hd))
    rw [hexecute, execute_of_not_calls hnone']
  · rcases execute_cases (stablySorted_ofCommands rs') line with
      ⟨hnone, -⟩ | ⟨d, hlongest', hfind', hexecute'⟩
    · have hc : c ∈ rs' := hperm.mem_iff.2 (List.mem_of_find?_eq_some hfind)
      exact absurd hlongest.calls (hnone c hc)
    · have hword : d.word = c.word := Longest.eq
        ⟨(hwords _).1 hlongest'.mem, hlongest'.calls,
          fun v hv => hlongest'.length_le v ((hwords v).2 hv)⟩ hlongest
      have hc := List.mem_of_find?_eq_some hfind
      have hd := hperm.mem_iff.1 (List.mem_of_find?_eq_some hfind')
      rw [hexecute, hexecute', List.inj_on_of_nodup_map hnodup hd hc hword]

/-- **Of the registered words that a line calls, the longest is run.** A line runs a
    handler exactly if it calls a registered word, and then one only: that of the first
    registration of the longest such word, on the trimmed rest of the line. Any other
    line leaves the session alone. The words are listed by decreasing size in bytes, those
    of one size in the order in which they were registered, which makes no difference to
    what a line does if they are all different. -/
theorem execute_registered (words : List String) :
    (∀ line, (∃! call, Runs words line call) ↔ ∃ w ∈ words, Calls w line) ∧
      (∀ line call, Runs words line call ↔
        ∃ w, Longest words line w ∧ call = (words.idxOf w, argumentOf w line)) ∧
      (∀ line, (∀ w ∈ words, ¬ Calls w line) → ∀ handlers s,
        (ofCommands (registrations words handlers)).execute line s = (.notACommand, s)) ∧
      (∀ handlers, StablySorted String.utf8ByteSize words
        (ofCommands (registrations words handlers)).words) ∧
      (words.Nodup → ∀ handlers rs, rs.Perm (registrations words handlers) → ∀ line s,
        (ofCommands rs).execute line s =
          (ofCommands (registrations words handlers)).execute line s) := by
  refine ⟨fun _ => existsUnique_runs_iff, fun _ _ => runs_iff,
    fun _ h => execute_registrations_of_not_calls h, stablySorted_words words, ?_⟩
  intro hnodup handlers rs hperm
  refine execute_ofCommands_perm hperm ?_
  rwa [map_word_registrations]

/-- Words one of which goes on with another, one that is empty, and one twice. -/
def overlapping : List String := ["stats", "", "stats reset", "stats reset"]

theorem execute_overlapping :
    Longest overlapping "stats reset  now " "stats reset" ∧
      Runs overlapping "stats reset  now " (2, "now") ∧
      (∀ w ∈ overlapping, ¬ Calls w "statistics") ∧
      ∀ s, (ofCommands (registrations overlapping fun _ => Handler.quit)).execute "statistics" s =
        (.notACommand, s) := by
  obtain ⟨-, hruns, hnone, -⟩ := execute_registered overlapping
  have hlongest : Longest overlapping "stats reset  now " "stats reset" :=
    ⟨by decide, by decide, by decide⟩
  have hother : ∀ w ∈ overlapping, ¬ Calls w "statistics" := by decide
  exact ⟨hlongest, (hruns _ _).2 ⟨"stats reset", hlongest, by decide⟩, hother,
    hnone "statistics" hother fun _ => Handler.quit⟩

end Registry

end Reckon
