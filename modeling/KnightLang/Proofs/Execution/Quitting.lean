import KnightLang.Proofs.Execution.Applications
import KnightLang.Proofs.Limits.Cutoff

/-!
Why an evaluation fails. Every operation of the language fails for one reason, which is passed on as
it is; only QUIT asks to quit, and it does so with the number that its argument converts to.
-/

namespace KnightLang

/-- The last application that was entered, apart from those inside its argument, was QUIT, and its
argument converted to a number. -/
def Quits (fuel : Nat) (entries : List Entry) (status : Int64) : Prop :=
  ∃ earlier entry inner last, entries = earlier ++ entry :: inner ∧
    entry.function.action = .builtin .quit ∧
    Enters fuel entry.budget
      (fun apply => Evaluator.toNumber { budget := entry.budget, fuel, apply }
        (entry.inside.store.arg entry.node 0)) entry.inside inner ∧
    (entry.evaluator fuel).toNumber (entry.inside.store.arg entry.node 0) entry.inside =
      .ok status last

theorem Quits.append {fuel : Nat} {entries : List Entry} {status : Int64}
    (hquits : Quits fuel entries status) (earlier : List Entry) :
    Quits fuel (earlier ++ entries) status := by
  obtain ⟨front, entry, inner, last, rfl, hquit⟩ := hquits
  refine ⟨earlier ++ front, entry, inner, last, ?_, hquit⟩
  rw [List.append_assoc]

/-- An error is ordinary, or it is that of the QUIT that was entered. -/
def Explains (fuel : Nat) (entries : List Entry) : Option Stop → Prop
  | some (.error error) =>
      error.IsOrdinary ∨ ∃ status, error = .raise (.quit status) ∧ Quits fuel entries status
  | some (.fault _) | some .exhausted | none => True

namespace Explains

variable {fuel : Nat} {entries : List Entry} {outcome : Option Stop}

theorem of_expected (hexpected : Stop.Expected Stop.IsOrdinary outcome) :
    Explains fuel entries outcome := by
  cases outcome with
  | none => trivial
  | some stop =>
      cases stop with
      | error error => exact Or.inl hexpected
      | fault fault => trivial
      | exhausted => trivial

theorem append (hexplains : Explains fuel entries outcome) (earlier : List Entry) :
    Explains fuel (earlier ++ entries) outcome := by
  cases outcome with
  | none => trivial
  | some stop =>
      cases stop with
      | error error =>
          rcases hexplains with hordinary | ⟨status, herror, hquits⟩
          · exact Or.inl hordinary
          · exact Or.inr ⟨status, herror, hquits.append earlier⟩
      | fault fault => trivial
      | exhausted => trivial

end Explains

/-- The account of failures where only operations of the language are applied. -/
def Account.failure (fuel : Nat) (allowed : Builtin → Prop) (area : Set Nat) :
    Account (.confined allowed area) fuel where
  holds _ entries outcome _ := Explains fuel entries outcome
  expects := Stop.IsOrdinary
  expects_ordinary := id
  expects_host {function action} _ hallows haction := by
    obtain ⟨operation, hbuiltin, -⟩ := hallows
    rw [hbuiltin] at haction
    cases haction
  still _ hexpected := .of_expected hexpected
  append _ _ hsecond := hsecond.append _
  settle hexplains _ := hexplains
  fault _ _ := trivial
  application {_ entry _ _ _} _ _ _ hinner := hinner.append [entry]
  prompt _ _ _ _ _ hexpected := .of_expected hexpected
  quit {_ entry inner status last} haction henters hnumber _ :=
    Or.inr ⟨status, rfl, [], entry, inner, last, rfl, haction, henters, hnumber⟩

theorem Explains.hasReason {fuel : Nat} {entries : List Entry} {error : Error}
    (hexplains : Explains fuel entries (some (.error error))) :
    ∃ reason, error.HasReason reason ∧ reason.kind ≠ .noError ∧
      (reason.kind = .quit → ∃ status, reason = .quit status ∧ Quits fuel entries status) := by
  rcases hexplains with ⟨reason, hordinary, hreason⟩ | ⟨status, rfl, hquits⟩
  · obtain ⟨hnoError, hquit⟩ := hordinary.kind_ne
    exact ⟨reason, hreason, hnoError, fun hkind => absurd hkind hquit⟩
  · exact ⟨.quit status, Error.hasReason_raise _, by simp [Reason.kind],
      fun _ => ⟨status, rfl, hquits⟩⟩

/-- Where only operations of the language can be come to, an evaluation that fails does so with an
error of the language that has one kind. Its position is told only if it was found while reading,
and an exit status only if it asks to quit; then QUIT was entered last and its argument converted to
that status. -/
theorem Machine.Knows.evaluate_error {machine : Machine} (hknows : machine.Knows fun _ => True)
    (fuel : Nat) (source : Source) (label : Bytes) {error : Error} {after : Machine}
    (hfails : (Evaluator.within fuel machine).evaluate source label machine =
      .error (.error error) after) :
    (∃ reason place, error.outer = .raised reason place ∧
      (place.line = 0 ∧ place.column = 0 ∨
        (0 < place.line ∧ 0 < place.column) ∧ (error.kind = .parse ∨ error.kind = .depth))) ∧
    error.kind ≠ .noError ∧ (∀ kind, error.isKind kind = true ↔ kind = error.kind) ∧
    error ≠ .endOfInput ∧ (error.quitCode?.isSome = true ↔ error.kind = .quit) ∧
    ∃ entries,
      Enters fuel (machine.maxDepth - machine.depth).toNat
        (fun apply => Evaluator.evaluate
          { budget := (machine.maxDepth - machine.depth).toNat, fuel, apply } source label)
        machine entries ∧
      ∀ code, error.quitCode? = some code →
        ∃ status : Int64, code = status.toInt ∧ Quits fuel entries status := by
  -- The program comes from bytes, so only the variables lead to what is there already.
  have honly : machine.store.Only (fun _ => True) .null := Store.only_of_isLiteral rfl
  have hconfined := hknows.confined honly
  let account := Account.failure fuel (fun _ => True) (machine.area .null)
  have hcalls := account.calls (machine.maxDepth - machine.depth).toNat
  obtain ⟨entries, henters, hends⟩ :=
    (account.logic hcalls).evaluate ⟨nofun, nofun⟩ source label machine hconfined rfl
  have hexplains : Explains fuel entries (some (.error error)) := by
    change Realm.Ends _ _ _ _ ((Evaluator.within fuel machine).evaluate source label machine)
      at hends
    rw [hfails] at hends
    cases hends with
    | error _ _ hexplains => exact hexplains
    | cut hcut _ _ => exact hcut.elim
  obtain ⟨reason, hreason, hnoError, hquit⟩ := hexplains.hasReason
  have hkind := hreason.kind_eq
  refine ⟨?_, hkind ▸ hnoError, hreason.isKind_iff, hreason.ne_endOfInput,
    hreason.quitCode?_isSome_iff, entries, henters, ?_⟩
  · obtain ⟨place, houter, hsuits⟩ := hreason.outer
    rw [hkind]
    exact ⟨reason, place, houter, hsuits⟩
  · intro code hcode
    rw [hreason.quitCode?_eq] at hcode
    split at hcode
    · next hasked =>
        obtain ⟨status, rfl, hquits⟩ := hquit hasked
        exact ⟨status, (Option.some.inj hcode).symm, hquits⟩
    · cases hcode

/-- QUIT inside a program that another program evaluates. -/
theorem Machine.Knows.evaluate_error_eval :
    Machine.Knows {} (fun _ => True) ∧ ∃ error after,
      (Evaluator.within 0 {}).evaluate { unread := "E 'Q + 1 2'" } "EVAL" {} =
        .error (.error error) after ∧
      error.quitCode? = some 3 ∧ ∃ entries, Quits 0 entries 3 := by
  have hknows : Machine.Knows {} (fun _ => True) := knows_of_forall (by decide) (by decide)
  have houtcome : Run.outcome ((Evaluator.within 0 {}).evaluate
      { unread := "E 'Q + 1 2'" } "EVAL" {}) =
      .error (.error (.raise (.quit 3))) := by decide +kernel
  obtain ⟨after, hfails⟩ := Run.exists_of_outcome_error houtcome
  obtain ⟨-, -, -, -, -, entries, -, hquits⟩ := hknows.evaluate_error 0 _ _ hfails
  obtain ⟨status, hstatus, hquits⟩ := hquits 3 rfl
  have hthree : status = 3 := Int64.toInt_inj.mp hstatus.symm
  rw [hthree] at hquits
  exact ⟨hknows, _, after, hfails, rfl, entries, hquits⟩

end KnightLang
