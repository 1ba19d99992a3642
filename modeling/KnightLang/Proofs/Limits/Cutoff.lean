import KnightLang.Proofs.Limits.Evaluation

/-!
Limits only cut runs off. A machine that may nest deeper, or that does not check arithmetic, does
the same as one with the tighter limit until that limit stops the other one.
-/

namespace KnightLang

/-- The second run ends as the first one did, if that gave a value or an error of another kind than
the given one. -/
def Run.EndsAs {α : Type} (limit : ErrorKind) (same : Machine → Machine → Prop)
    (first second : EStateM.Result Stop Machine α) : Prop :=
  match first with
  | .ok value after => ∃ after', second = .ok value after' ∧ same after after'
  | .error (.error error) after => error.kind ≠ limit →
      ∃ after', second = .error (.error error) after' ∧ same after after'
  | .error (.fault _) _ => True
  | .error .exhausted _ => True

/-- What a run came to, without the machine that it left. -/
def Run.outcome {α : Type} : EStateM.Result Stop Machine α → Except Stop α
  | .ok value _ => .ok value
  | .error stop _ => .error stop

theorem Run.exists_of_outcome_ok {α : Type} {result : EStateM.Result Stop Machine α} {value : α}
    (houtcome : Run.outcome result = .ok value) : ∃ after, result = .ok value after := by
  cases result with
  | ok given after =>
      cases houtcome
      exact ⟨after, rfl⟩
  | error stop after => cases houtcome

theorem Run.exists_of_outcome_error {α : Type} {result : EStateM.Result Stop Machine α}
    {stop : Stop} (houtcome : Run.outcome result = .error stop) :
    ∃ after, result = .error stop after := by
  cases result with
  | ok value after => cases houtcome
  | error given after =>
      cases houtcome
      exact ⟨after, rfl⟩

/-- Two machines that are the same but for how deep they are, how deep they may get, and the depths
that their traces tell. -/
def Machine.SameButDepth (machine other : Machine) : Prop :=
  ∃ notices, notices.map Notice.withoutDepth = machine.world.notices.map Notice.withoutDepth ∧
    other =
      { machine with
        depth := other.depth
        maxDepth := other.maxDepth
        world := { machine.world with notices } }

theorem Relaxation.Alike.endsAs {relaxation : Relaxation} {limit : ErrorKind}
    {same : Machine → Machine → Prop} {α : Type} {good : α → Prop}
    {first second : EStateM.Result Stop Machine α} (halike : relaxation.Alike 0 good first second)
    (hcuts : ∀ error, relaxation.Cuts (.error error) → error.kind = limit)
    (hsame : ∀ machine notices, relaxation.Beside 0 machine notices →
      same machine (relaxation.loosened 0 machine notices)) :
    Run.EndsAs limit same first second := by
  cases halike with
  | ok _ beside => exact ⟨_, rfl, hsame _ _ beside⟩
  | error beside => exact fun _ => ⟨_, rfl, hsame _ _ beside⟩
  | @cut stop _ _ hcut _ =>
      cases stop with
      | error error => exact fun hkind => absurd (hcuts error hcut) hkind
      | fault fault => trivial
      | exhausted => trivial

theorem Relaxation.Alike.endsAs_depth {start : Machine} {allowed : Builtin → Prop} {area : Set Nat}
    {confined : start.Confined allowed area} {depth : Nat} {maxDepth : Int} {checked : Bool}
    {hdepth : depth ≤ start.depth} {hlimit : start.maxDepth ≤ maxDepth}
    {himplies : checked = true → start.checked = true} {α : Type} {good : α → Prop}
    {first second : EStateM.Result Stop Machine α}
    (halike : (confined.relaxed hdepth hlimit himplies).Alike 0 good first second)
    (hchecked : checked = start.checked) :
    Run.EndsAs .depth Machine.SameButDepth first second := by
  refine halike.endsAs ?_ ?_
  · rintro error (⟨hkind, -⟩ | ⟨-, hdiffers⟩)
    · exact hkind
    · exact absurd hchecked hdiffers
  · intro after notices beside
    have hafter : after.checked = start.checked := beside.checked
    refine ⟨notices, beside.withoutDepth_eq, ?_⟩
    simp only [Relaxation.loosened, Machine.Confined.relaxed, hchecked, hafter]

namespace Machine

variable {machine : Machine} {fuel more : Nat}

/-- More room to nest changes nothing about a run but how deep it says it is, unless it ends for
want of room. -/
theorem Knows.endsAs_of_looser_depth (hknows : machine.Knows fun _ => True) {depth : Nat}
    {maxDepth : Int} (hdepth : depth ≤ machine.depth) (hlimit : machine.maxDepth ≤ maxDepth)
    (hfuel : fuel ≤ more) :
    (∀ value, machine.store.Only (fun _ => True) value →
      Run.EndsAs .depth SameButDepth ((Evaluator.within fuel machine).run value machine)
        ((Evaluator.within more { machine with depth, maxDepth }).run value
          { machine with depth, maxDepth })) ∧
    ∀ source label,
      Run.EndsAs .depth SameButDepth
        ((Evaluator.within fuel machine).evaluate source label machine)
        ((Evaluator.within more { machine with depth, maxDepth }).evaluate source label
          { machine with depth, maxDepth }) := by
  constructor
  · intro value honly
    have halike := ((hknows.confined honly).relaxed hdepth hlimit id).alike_run (fun _ => hfuel)
      (machine.within_area value)
    exact halike.endsAs_depth rfl
  · intro source label
    -- A program is read from bytes, so only the variables lead to what is there already.
    have honly : machine.store.Only (fun _ => True) .null := Store.only_of_isLiteral rfl
    have halike := ((hknows.confined honly).relaxed hdepth hlimit id).alike_evaluate
      (fun _ => hfuel) source label
    exact halike.endsAs_depth rfl

/-- A machine inside two applications, with room for four more. -/
def nested : Machine := { depth := 2, maxDepth := 6, trace := true }

theorem Knows.endsAs_of_looser_depth_nested :
    ∃ after after',
      (Evaluator.within 0 nested).evaluate { unread := "; = x 41 O + x 1" } "EVAL" nested =
        .ok .null after ∧
      (Evaluator.within 1 { nested with depth := 0, maxDepth := 100 }).evaluate
        { unread := "; = x 41 O + x 1" } "EVAL" { nested with depth := 0, maxDepth := 100 } =
        .ok .null after' ∧
      after.SameButDepth after' := by
  have hknows : nested.Knows fun _ => True := knows_of_forall (by decide) (by decide)
  have hends := (hknows.endsAs_of_looser_depth (Nat.zero_le _) (by decide : nested.maxDepth ≤ 100)
    (Nat.zero_le 1)).2 { unread := "; = x 41 O + x 1" } "EVAL"
  have houtcome : Run.outcome ((Evaluator.within 0 nested).evaluate
      { unread := "; = x 41 O + x 1" } "EVAL" nested) = .ok .null := by decide +kernel
  obtain ⟨after, hevaluate⟩ := Run.exists_of_outcome_ok houtcome
  rw [hevaluate] at hends
  obtain ⟨after', hother, hsame⟩ := hends
  exact ⟨after, after', hevaluate, hother, hsame⟩

/-- Where checked arithmetic does not overflow, unchecked arithmetic does the same. -/
theorem Knows.endsAs_of_unchecked (hknows : machine.Knows fun _ => True) (hfuel : fuel ≤ more)
    (source : Source) (label : Bytes) :
    Run.EndsAs .overflow (fun after after' => after' = { after with checked := false })
      ((Evaluator.within fuel { machine with checked := true }).evaluate source label
        { machine with checked := true })
      ((Evaluator.within more { machine with checked := false }).evaluate source label
        { machine with checked := false }) := by
  have hchecked : Knows { machine with checked := true } fun _ => True :=
    ⟨hknows.functions, hknows.cells⟩
  have honly : machine.store.Only (fun _ => True) .null := Store.only_of_isLiteral rfl
  have halike := ((hchecked.confined honly).relaxed le_rfl le_rfl
    (nofun : false = true → true = true)).alike_evaluate (fun _ => hfuel) source label
  refine halike.endsAs ?_ ?_
  · rintro error (⟨-, hdiffers⟩ | ⟨hkind, -⟩)
    · exact absurd ⟨rfl, rfl⟩ hdiffers
    · exact hkind
  · intro after notices beside
    exact beside.loosened_eq ⟨rfl, rfl⟩

theorem Knows.endsAs_of_unchecked_power :
    ∃ after,
      (Evaluator.within 0 { ({} : Machine) with checked := true }).evaluate
        { unread := "^ 2 62" } "EVAL" { ({} : Machine) with checked := true } =
        .ok (.number 4611686018427387904) after ∧
      (Evaluator.within 1 { ({} : Machine) with checked := false }).evaluate
        { unread := "^ 2 62" } "EVAL" { ({} : Machine) with checked := false } =
        .ok (.number 4611686018427387904) { after with checked := false } := by
  have hknows : Knows {} fun _ => True := knows_of_forall (by decide) (by decide)
  have hends := hknows.endsAs_of_unchecked (Nat.zero_le 1) { unread := "^ 2 62" } "EVAL"
  have houtcome : Run.outcome ((Evaluator.within 0 { ({} : Machine) with checked := true }).evaluate
      { unread := "^ 2 62" } "EVAL" { ({} : Machine) with checked := true }) =
      .ok (.number 4611686018427387904) := by decide +kernel
  obtain ⟨after, hevaluate⟩ := Run.exists_of_outcome_ok houtcome
  rw [hevaluate] at hends
  obtain ⟨after', hother, rfl⟩ := hends
  exact ⟨after, hevaluate, hother⟩

end Machine

end KnightLang
