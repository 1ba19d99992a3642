import KnightLang.Proofs.Expression.Building
import KnightLang.Proofs.Renaming.Mirroring

/-!
Looking ahead at the lines of a program before it is evaluated. A parse changes nothing but the
table of variables, and what looking ahead leaves there is what the evaluation would have made
itself. So the evaluation ends as it would have without it.
-/

namespace KnightLang

/-! ### Evaluations that begin alike -/

theorem Evaluator.evaluate_of_parseFrom {evaluator : Evaluator} {source : Source} {label : Bytes}
    {first second : Machine}
    (hfrom : Run.parseFrom source label second = Run.parseFrom source label first) :
    evaluator.evaluate source label second = evaluator.evaluate source label first := by
  simp only [evaluate, bind, EStateM.bind, hfrom]

theorem Evaluator.within_of_aside {first second : Machine} (fuel : Nat)
    (haside : second = { first with store := second.store, environment := second.environment }) :
    within fuel second = within fuel first := by
  unfold within
  rw [haside]

namespace Machine

theorem mirrors_self (machine : Machine) : Mirrors .same machine machine where
  aside := rfl
  cells := by
    have hcell : Renaming.same.cell = id := by
      funext cell
      simp [Renaming.cell]
    rw [hcell, Array.map_id]
  refs? value := by simp
  live? value := by simp
  others value hrange := absurd ⟨value, Renaming.value_same value⟩ hrange

end Machine

namespace Run

theorem Mirrored.self {start : Machine} {owned : Multiset Value}
    {gives : Value → Multiset Value} {result kept : EStateM.Result Stop Machine Value}
    (hlockstep : Lockstep start owned gives result kept) : Mirrored .same result result := by
  cases hlockstep with
  | @ok value counting lasting instep =>
      have hmirrored := @Mirrored.ok .same value _ _ counting.mirrors_self
      simpa using hmirrored
  | @error error counting lasting instep => exact .error counting.mirrors_self
  | @exhausted lost counting lasting instep => exact .exhausted counting.mirrors_self.toAlike

end Run

namespace Machine

variable {machine : Machine} {owned : Multiset Value}

/-- Looking at lines that cannot be read leaves a machine in which these lines, with or without more
behind them, are evaluated exactly as without looking. -/
theorem evaluate_after_failure {lines tail : Bytes} (hline : OnNewLine tail) {error : Error}
    {rest : Source} {looked : Machine}
    (hfrom : Run.parseFrom { unread := lines } "repl" machine = .ok (.error error, rest) looked)
    (label : Bytes) (fuel : Nat) :
    (Evaluator.within fuel looked).evaluate { unread := lines ++ tail } label looked =
      (Evaluator.within fuel machine).evaluate { unread := lines ++ tail } label machine := by
  have haside : looked =
      { machine with store := looked.store, environment := looked.environment } := by
    obtain ⟨scanner, hparse, -⟩ := Run.parse_of_parseFrom_error hfrom
    rw [Run.parseFrom_eq_error hparse] at hfrom
    cases hfrom
    rfl
  rw [Evaluator.within_of_aside fuel haside]
  exact Evaluator.evaluate_of_parseFrom (Run.parseFrom_after_failure hline hfrom)

/-- Looking at an expression that can be read leaves a machine that differs from one in which its
variables have been looked up, in freed payloads only. -/
theorem inStep_after_success (hbalanced : machine.store.Balanced machine.environment.cells.size
      (machine.environment.holds + owned)) {lines : Bytes} {value : Value} {rest : Source}
    {middle : Machine}
    (hfrom : Run.parseFrom { unread := lines } "repl" machine = .ok (.ok value, rest) middle) :
    ∃ noted looked lasting, noted = { machine with environment := noted.environment } ∧
      Session.isIncomplete lines machine = .ok false looked ∧
      (∀ label, Run.parseFrom { unread := lines } label noted =
        Run.parseFrom { unread := lines } label machine) ∧
      noted.InStep owned noted noted ∧ noted.InStep owned looked lasting ∧
      looked = { noted with store := looked.store } := by
  obtain ⟨tree, scanner, hparse, -⟩ := Run.parse_of_parseFrom_ok hfrom
  let noted : Machine := { machine with environment := machine.environment.fetchAll tree.names }
  have hsame (label : Bytes) : Run.parseFrom { unread := lines } label noted =
      Run.parseFrom { unread := lines } label machine := by
    refine Run.parseFrom_of_fetched ?_
    have hline : OnNewLine [] := Or.inl rfl
    obtain ⟨scanner', hparse', -⟩ := (Run.parse_rereads machine "repl" label lines hline).ok hparse
    rw [List.append_nil] at hparse'
    rw [Run.noted_of_ok hparse', Environment.fetchAll_fetchAll]
  have hnoted : noted.InStep owned noted noted := by
    obtain ⟨after, after', hfetch, -, hend⟩ := (inStep_self hbalanced).fetchAll tree.names
    rw [Run.forM_fetch_eq] at hfetch
    cases hfetch
    exact inStep_self hend.balanced
  obtain ⟨tree', scanner', hparse', -, hload, -⟩ :=
    Run.parse_of_parseFrom_ok ((hsame "repl").trans hfrom)
  obtain rfl : tree = tree' := by
    cases hparse.symm.trans hparse'
    rfl
  obtain ⟨value', middle', lasting, hload', -, hloaded⟩ := hnoted.load tree
  rw [hload] at hload'
  cases hload'
  obtain ⟨looked, hrelease, -, hreleased⟩ := hloaded.release
  have hmiddle : middle = { noted with store := middle.store } := by
    have hplaced := load_eq tree noted (noted.cellsOf_cellFor tree.names)
    rw [hload, Environment.fetchAll_fetchAll] at hplaced
    cases hplaced
    rfl
  refine ⟨noted, looked, lasting, rfl, ?_, hsame, hnoted, hreleased, ?_⟩
  · exact (Run.isIncomplete_of_ok hfrom).trans (Run.bind_ok hrelease)
  · rw [hloaded.aside hreleased, hmiddle]

/-- For every source and every state, a parse changes no more than the table of variables and adds
the payloads of what it reads, and one that builds them on the way ends alike. Whether the lines of
a program that have come so far are incomplete can be asked before the program is evaluated, after
its last line or after one behind which more is asked for: the evaluation ends as it would have
without, with the same effects, variables and payloads. -/
theorem parse_frame_and_look_ahead (machine : Machine) :
    (∀ source label, Run.AddsTokens machine source label) ∧
    ∀ owned, machine.store.Balanced machine.environment.cells.size
        (machine.environment.holds + owned) →
      (∀ source label, Run.BuildsAlike machine source label) ∧
      ∀ lines tail, OnNewLine tail → ∃ flag looked,
        Session.isIncomplete lines machine = .ok flag looked ∧
        (tail = [] ∨ flag = true → ∃ rename : Renaming,
          (∀ value, machine.store.Made value → rename.value value = value) ∧
          ∀ label fuel, Run.Mirrored rename
            ((Evaluator.within fuel machine).evaluate { unread := lines ++ tail } label machine)
            ((Evaluator.within fuel looked).evaluate { unread := lines ++ tail } label
              looked)) := by
  refine ⟨Run.parseFrom_addsTokens machine, fun owned hbalanced => ?_⟩
  refine ⟨Run.buildFrom_buildsAlike hbalanced, fun lines tail hline => ?_⟩
  obtain ⟨result, rest, middle, hfrom⟩ := Run.parseFrom_total machine "repl" lines
  cases result with
  | error error =>
      refine ⟨error.isIncomplete, middle, Run.isIncomplete_of_error hfrom, fun _ => ?_⟩
      refine ⟨.same, fun value _ => Renaming.value_same value, fun label fuel => ?_⟩
      rw [evaluate_after_failure hline hfrom label fuel]
      have hstart := inStep_self hbalanced
      exact .self (Run.Lockstep.evaluate (Evaluator.twins_within fuel hstart) hstart _ label)
  | ok value =>
      obtain ⟨noted, looked, lasting, hnoted, hincomplete, hsame, hstart, hend, haside⟩ :=
        inStep_after_success hbalanced hfrom
      refine ⟨false, looked, hincomplete, fun hread => ?_⟩
      obtain rfl : tail = [] := hread.resolve_right Bool.false_ne_true
      rw [List.append_nil]
      refine ⟨.between noted.store looked.store, fun value hmade => ?_, fun label fuel => ?_⟩
      · have hnotedMade : noted.store.Made value := by rwa [hnoted]
        exact Renaming.shift_value_of_made hnotedMade
      · have hmirrored := mirrored_evaluate hstart hend haside { unread := lines } label fuel
        have hwithin : Evaluator.within fuel noted = Evaluator.within fuel machine :=
          Evaluator.within_of_aside fuel (by rw [hnoted])
        rwa [Evaluator.evaluate_of_parseFrom (hsame label), hwithin] at hmirrored

theorem isIncomplete_sum :
    (match Session.isIncomplete "+ x" {} with
      | .ok flag _ => flag
      | .error _ _ => false) = true := by
  decide +kernel

/-- An application lacks its second argument, which comes on the next line. -/
theorem parse_frame_and_look_ahead_sum :
    Store.Balanced {} 0 (0 + 0) ∧ OnNewLine "\nx" ∧
      ∃ looked, Session.isIncomplete "+ x" {} = .ok true looked ∧
        ∃ rename : Renaming, (∀ value, Store.Made {} value → rename.value value = value) ∧
          ∀ label fuel, Run.Mirrored rename
            ((Evaluator.within fuel {}).evaluate { unread := "+ x\nx" } label {})
            ((Evaluator.within fuel looked).evaluate { unread := "+ x\nx" } label looked) := by
  have hbalanced : Store.Balanced {} 0 (0 + 0) := balanced_empty
  have hline : OnNewLine "\nx" := Or.inr ⟨"x", rfl⟩
  refine ⟨hbalanced, hline, ?_⟩
  obtain ⟨flag, looked, hincomplete, hmirrored⟩ :=
    ((parse_frame_and_look_ahead {}).2 0 hbalanced).2 "+ x" "\nx" hline
  have hflag := isIncomplete_sum
  rw [hincomplete] at hflag
  subst hflag
  exact ⟨looked, hincomplete, hmirrored (Or.inr rfl)⟩

end Machine

end KnightLang
