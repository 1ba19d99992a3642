import KnightLang.Proofs.Conversion
import KnightLang.Proofs.Execution.Applications
import KnightLang.Proofs.Limits.Cutoff
import KnightLang.Proofs.Ownership
import KnightLang.Proofs.Renaming
import KnightLang.Proofs.Renaming.Actions

/-!
Calling a block. CALL evaluates the value that BLOCK has put off one level deeper than the value
would be evaluated by itself, and holds one more reference to it for as long as that lasts. Neither
shows: more room to nest and one owner more do not change how a run ends.
-/

namespace KnightLang

/-! ### Machines that differ in traces -/

/-- Whether a notice is the trace of an application. -/
def Notice.isTrace : Notice → Bool
  | .log record => record.message == "apply"
  | .text _ => false

/-- The notices that are no traces of applications. -/
def Notice.untraced (notices : List Notice) : List Notice := notices.filter fun notice =>
  !notice.isTrace

@[simp]
theorem Notice.untraced_append (first second : List Notice) :
    untraced (first ++ second) = untraced first ++ untraced second := List.filter_append ..

theorem Notice.untraced_eq_nil {notices : List Notice}
    (htraces : ∀ notice ∈ notices, notice.isTrace = true) : untraced notices = [] := by
  rw [untraced, List.filter_eq_nil_iff]
  intro notice hmem
  simp [htraces notice hmem]

@[simp]
theorem Notice.untraced_map_withoutDepth (notices : List Notice) :
    untraced (notices.map withoutDepth) = untraced notices := by
  have hcases (notice : Notice) : notice.withoutDepth.isTrace = notice.isTrace ∧
      (notice.isTrace = false → notice.withoutDepth = notice) := by
    cases notice with
    | text bytes => exact ⟨rfl, fun _ => rfl⟩
    | log record =>
        by_cases hmessage : record.message = "apply"
        · simp [withoutDepth, isTrace, hmessage]
        · simp [withoutDepth, isTrace, hmessage]
  induction notices with
  | nil => rfl
  | cons notice rest ih =>
      obtain ⟨hsame, hkeeps⟩ := hcases notice
      unfold untraced at ih ⊢
      rw [List.map_cons, List.filter_cons, List.filter_cons, ih, hsame]
      cases htrace : notice.isTrace with
      | true => rfl
      | false => rw [hkeeps htrace]

/-- Two stores with the same payloads, up to what is left of freed ones. -/
structure Store.Same (first second : Store) : Prop where
  texts_size : second.texts.size = first.texts.size
  nodes_size : second.nodes.size = first.nodes.size
  refs? : ∀ value, second.refs? value = first.refs? value
  live? : ∀ value, second.live? value = first.live? value

/-- Two machines that have the same payloads with the same references, and otherwise differ in the
traces of applications only. -/
structure Machine.SameButTrace (machine other : Machine) : Prop where
  aside : other =
    { machine with
      store := other.store
      world := { machine.world with notices := other.world.notices } }
  untraced : Notice.untraced other.world.notices = Notice.untraced machine.world.notices
  store : machine.store.Same other.store

theorem Machine.SameButTrace.trans {first second third : Machine}
    (hfirst : first.SameButTrace second) (hsecond : second.SameButTrace third) :
    first.SameButTrace third where
  aside := by
    have haside := hsecond.aside
    rw [hfirst.aside] at haside
    exact haside
  untraced := hsecond.untraced.trans hfirst.untraced
  store :=
    { texts_size := hsecond.store.texts_size.trans hfirst.store.texts_size
      nodes_size := hsecond.store.nodes_size.trans hfirst.store.nodes_size
      refs? := fun value => (hsecond.store.refs? value).trans (hfirst.store.refs? value)
      live? := fun value => (hsecond.store.live? value).trans (hfirst.store.live? value) }

theorem Run.EndsAs.trans {α : Type} {limit : ErrorKind} {same : Machine → Machine → Prop}
    {first second third : EStateM.Result Stop Machine α}
    (htrans : ∀ {machine middle other}, same machine middle → same middle other →
      same machine other)
    (hfirst : EndsAs limit same first second) (hsecond : EndsAs limit same second third) :
    EndsAs limit same first third := by
  cases first with
  | ok value after =>
      obtain ⟨middle, rfl, hsame⟩ := hfirst
      obtain ⟨other, hthird, hsame'⟩ := hsecond
      exact ⟨other, hthird, htrans hsame hsame'⟩
  | error stop after =>
      cases stop with
      | error error =>
          intro hkind
          obtain ⟨middle, rfl, hsame⟩ := hfirst hkind
          obtain ⟨other, hthird, hsame'⟩ := hsecond hkind
          exact ⟨other, hthird, htrans hsame hsame'⟩
      | fault fault => trivial
      | exhausted => trivial

/-! ### One owner more -/

/-- Two machines beside the same one that keeps every payload are the same. -/
theorem Machine.InStep.sameButTrace {start start' first second lasting : Machine}
    {held : Multiset Value} (instep : start.InStep held first lasting)
    (instep' : start'.InStep held second lasting) : first.SameButTrace second := by
  have haside : second = { first with store := second.store } := by
    have hlasting := instep'.same.symm.trans instep.same
    exact congrArg (fun machine : Machine => { machine with store := second.store }) hlasting
  have henvironment : second.environment = first.environment := by rw [haside]
  have hworld : second.world = first.world := by rw [haside]
  have hbalanced := instep'.balanced
  rw [henvironment] at hbalanced
  have hpayloads := instep.balanced.payloads_eq hbalanced fun value payload payload' hlive hlive' =>
    Option.some.inj
      ((instep'.kept.live value payload' hlive').symm.trans (instep.kept.live value payload hlive))
  exact
    { aside := by
        rw [hworld]
        exact haside
      untraced := by rw [hworld]
      store :=
        { texts_size := instep'.kept.texts_size.trans instep.kept.texts_size.symm
          nodes_size := instep'.kept.nodes_size.trans instep.kept.nodes_size.symm
          refs? := fun value => (hpayloads value).1
          live? := fun value => (hpayloads value).2 } }

theorem Run.Lockstep.endsAs {α : Type} {start start' : Machine} {held : Multiset Value}
    {gives : α → Multiset Value} {first second kept : EStateM.Result Stop Machine α}
    (hfirst : Lockstep start held gives first kept)
    (hsecond : Lockstep start' held gives second kept) (limit : ErrorKind) :
    EndsAs limit Machine.SameButTrace first second := by
  cases hfirst with
  | ok instep =>
      obtain ⟨after, rfl, instep'⟩ := hsecond.of_kept_ok
      exact ⟨after, rfl, instep.sameButTrace instep'⟩
  | error instep =>
      obtain ⟨after, rfl, instep'⟩ := hsecond.of_kept_error
      exact fun _ => ⟨after, rfl, instep.sameButTrace instep'⟩
  | exhausted instep => trivial

/-- A run ends in the same way if a further reference to what is run is held until its end. -/
theorem Machine.InStep.endsAs_of_held {machine : Machine} {owned : Multiset Value} {value : Value}
    {store : Store} (instep : machine.InStep owned machine machine)
    (hguards : machine.Guards owned value)
    (hretain : Store.retain value machine.store = .ok ⟨⟩ store) (fuel : Nat) (limit : ErrorKind) :
    Run.EndsAs limit SameButTrace
      (Run.deferring (Run.release value) ((Evaluator.within fuel { machine with store }).run value)
        { machine with store })
      ((Evaluator.within fuel machine).run value machine) := by
  have hheld : machine.InStep (value ::ₘ owned) { machine with store } machine := by
    obtain ⟨after, hafter, -, hheld⟩ :=
      instep.retain hguards (held_subset owned machine.environment)
    cases (Run.onStore_ok hretain).symm.trans hafter
    exact hheld
  have hfirst := Run.Lockstep.deferring
    (Run.Lockstep.run (Evaluator.twins_within fuel hheld) hheld (guards_cons_self _ owned value))
  have hsecond := Run.Lockstep.run (Evaluator.twins_within fuel instep) instep hguards
  rw [@Run.deferring_of_isIdle _ .lasting _] at hfirst
  exact hfirst.endsAs hsecond limit

/-! ### One level deeper -/

/-- An application of CALL to an application of BLOCK to a value. -/
structure Store.CallsBlock (store : Store) (call block : Nat) (value : Value) : Prop where
  exists_call : ∃ found, store.node? call = some found ∧ found.function.action = .builtin .call
  call_arg : store.arg call 0 = .expr block
  exists_block : ∃ found, store.node? block = some found ∧ found.function.action = .builtin .block
  block_arg : store.arg block 0 = value

/-- A machine that runs one application more, with the store that this has left it and with traces
in front of its notices. -/
def Machine.inside (machine : Machine) (store : Store) (traces : List Notice) : Machine :=
  { machine with
    store
    depth := machine.depth + 1
    world := { machine.world with notices := traces ++ machine.world.notices } }

/-- Entering two applications and leaving the inner one. -/
theorem Machine.exists_inside (machine : Machine) (function inner : Function) (store : Store) :
    ∃ traces, (∀ notice ∈ traces, notice.isTrace = true) ∧
      leave { (machine.enter function).enter inner with store } = machine.inside store traces := by
  have hrecord (function : Function) (depth : Nat) :
      (Notice.log (function.record depth)).isTrace = true := beq_self_eq_true _
  have hsame := (machine.enter_level function).2.2
  cases htrace : machine.trace with
  | false =>
      refine ⟨[], nofun, ?_⟩
      rw [enter_of_not_trace (hsame.trans htrace), enter_of_not_trace htrace]
      rfl
  | true =>
      refine ⟨[.log (inner.record (machine.depth + 1 + 1)),
        .log (function.record (machine.depth + 1))], by simp [hrecord], ?_⟩
      rw [enter_of_trace (hsame.trans htrace), enter_of_trace htrace]
      rfl

namespace Evaluator

variable {machine : Machine} {call node : Nat} {value : Value} {store : Store}

theorem block_of_retain (harg : machine.store.arg node 0 = value)
    (hretain : Store.retain value machine.store = .ok ⟨⟩ store) :
    block node machine = .ok value { machine with store } := by
  have hoperand : operand node 0 machine = .ok value machine := by
    rw [← harg]
    rfl
  exact (Run.bind_ok hoperand).trans (Run.bind_ok (Run.onStore_ok hretain))

theorem within_inside {budget : Nat} (fuel : Nat) (traces : List Notice)
    (hbudget : (machine.maxDepth - machine.depth).toNat = budget + 1) :
    within fuel (machine.inside store traces) =
      { budget, fuel, apply := applyWithin fuel budget } := by
  have hinside : (machine.maxDepth - ((machine.depth + 1 : Nat) : Int)).toNat = budget := by omega
  unfold within
  exact congrArg (fun budget => Evaluator.mk budget fuel (applyWithin fuel budget)) hinside

/-- Calling a block evaluates its value inside the call, unless there is no room to get there. -/
theorem run_callsBlock (hcalls : machine.store.CallsBlock call node value)
    (hretain : Store.retain value machine.store = .ok ⟨⟩ store) (fuel : Nat) :
    (∃ after, (within fuel machine).run (.expr call) machine =
      .error (.error (.raise (.evaluationDepth machine.maxDepth))) after) ∨
    ∃ traces, (∀ notice ∈ traces, notice.isTrace = true) ∧
      (within fuel machine).run (.expr call) machine =
        leaving ((if value.isLiteral then return value
          else Run.deferring (Run.release value)
            ((within fuel (machine.inside store traces)).run value) : Run Value)
          (machine.inside store traces)) := by
  obtain ⟨calling, hcall, hcallAction⟩ := hcalls.exists_call
  obtain ⟨blocking, hblock, hblockAction⟩ := hcalls.exists_block
  have hstore := (machine.enter_contents calling.function).2.2
  have hstore' := ((machine.enter calling.function).enter_contents blocking.function).2.2
  change (∃ after, applyWithin fuel (machine.maxDepth - machine.depth).toNat call machine = _) ∨
    ∃ traces, _ ∧ applyWithin fuel (machine.maxDepth - machine.depth).toNat call machine = _
  cases hbudget : (machine.maxDepth - machine.depth).toNat with
  | zero => exact Or.inl ⟨machine, rfl⟩
  | succ budget =>
      rw [applyWithin_of_some hcall, hcallAction]
      have hoperand : operand call 0 (machine.enter calling.function) =
          .ok (.expr node) (machine.enter calling.function) := by
        rw [← hcalls.call_arg, ← hstore]
        rfl
      have hact (evaluator : Evaluator) :
          evaluator.act call (.builtin .call) (machine.enter calling.function) =
            (do
              let result ← evaluator.run (.expr node)
              if result.isLiteral then return result
              else Run.deferring (Run.release result) (evaluator.run result) : Run Value)
              (machine.enter calling.function) := Run.bind_ok hoperand
      rw [hact]
      cases budget with
      | zero =>
          refine Or.inl ⟨(machine.enter calling.function).leave, ?_⟩
          rw [← (machine.enter_level calling.function).2.1]
          rfl
      | succ budget =>
          obtain ⟨traces, htraces, hinside⟩ :=
            machine.exists_inside calling.function blocking.function store
          refine Or.inr ⟨traces, htraces, ?_⟩
          have hblocked : applyWithin fuel (budget + 1) node (machine.enter calling.function) =
              .ok value (machine.inside store traces) := by
            rw [← hstore] at hblock
            rw [applyWithin_of_some hblock, hblockAction, ← hinside]
            have hperform := block_of_retain (hstore'.symm ▸ hstore.symm ▸ hcalls.block_arg)
              (hstore'.symm ▸ hstore.symm ▸ hretain)
            exact congrArg leaving hperform
          rw [within_inside fuel traces hbudget]
          exact congrArg leaving (Run.bind_ok hblocked)

end Evaluator

theorem Run.EndsAs.leaving {limit : ErrorKind} {same : Machine → Machine → Prop}
    {first second : EStateM.Result Stop Machine Value}
    (hends : EndsAs limit (fun machine other => same machine.leave other) first second) :
    EndsAs limit same (Evaluator.leaving first) second := by
  cases first with
  | ok value after => exact hends
  | error stop after => cases stop <;> exact hends

namespace Machine

variable {machine after : Machine} {allowed : Builtin → Prop} {area : Set Nat} {store : Store}
  {traces notices : List Notice}

/-- A machine inside one application more, and beside it the machine as it is outside. -/
def Confined.outside (confined : machine.Confined allowed area)
    (htrims : machine.store.Trims store) (traces : List Notice) : Relaxation where
  start := machine.inside store traces
  depth := machine.depth
  maxDepth := machine.maxDepth
  checked := machine.checked
  notices := machine.world.notices
  allowed := allowed
  area := area
  depth_le := Nat.le_succ machine.depth
  maxDepth_le := le_rfl
  checked_of_checked := id
  confined := (confined.trim htrims).keep rfl rfl rfl

theorem Confined.sameButTrace (confined : machine.Confined allowed area)
    (htrims : machine.store.Trims store) (htraces : ∀ notice ∈ traces, notice.isTrace = true)
    (beside : (confined.outside htrims traces).Beside 0 after notices) :
    after.leave.SameButTrace ((confined.outside htrims traces).loosened 0 after notices) where
  aside := by
    have hdepth : after.depth = machine.depth + 1 := beside.depth
    have hlimit : after.maxDepth = machine.maxDepth := beside.maxDepth
    have hchecked : after.checked = machine.checked := beside.checked
    simp only [Relaxation.loosened, outside, leave, hdepth, hlimit, hchecked, Nat.add_zero,
      Nat.add_sub_cancel]
  untraced := by
    obtain ⟨added, more, hafter, hmore, hsame, -⟩ := beside.told
    have hadded : Notice.untraced more = Notice.untraced added := by
      rw [← Notice.untraced_map_withoutDepth more, hsame, Notice.untraced_map_withoutDepth]
    have hinside : after.world.notices = added ++ (traces ++ machine.world.notices) := hafter
    have houtside : notices = more ++ machine.world.notices := hmore
    change Notice.untraced notices = Notice.untraced after.world.notices
    simp [hinside, houtside, hadded, Notice.untraced_eq_nil htraces]
  store := ⟨rfl, rfl, fun _ => rfl, fun _ => rfl⟩

/-- A run inside an application ends as it does outside, unless there it is too deep. -/
theorem Confined.endsAs_outside {value : Value} (confined : machine.Confined allowed area)
    (hvalue : value.Within area) (htrims : machine.store.Trims store)
    (htraces : ∀ notice ∈ traces, notice.isTrace = true) {fuel more : Nat} (hfuel : fuel ≤ more) :
    Run.EndsAs .depth SameButTrace
      (Evaluator.leaving (Run.deferring (Run.release value)
        ((Evaluator.within fuel (machine.inside store traces)).run value)
        (machine.inside store traces)))
      (Run.deferring (Run.release value) ((Evaluator.within more { machine with store }).run value)
        { machine with store }) := by
  have hmatches : (confined.outside htrims traces).Matches 0
      (Evaluator.within fuel (machine.inside store traces))
      (Evaluator.within more { machine with store }) :=
    Relaxation.matches_within fun _ => hfuel
  have halike : (confined.outside htrims traces).Alike 0 (fun result => result.Within area)
      (Run.deferring (Run.release value)
        ((Evaluator.within fuel (machine.inside store traces)).run value)
        (machine.inside store traces))
      (Run.deferring (Run.release value) ((Evaluator.within more { machine with store }).run value)
        { machine with store }) :=
    (Relaxation.Agree.run hmatches hvalue).deferring _ _ Relaxation.beside_start
  refine (halike.endsAs ?_ ?_).leaving
  · rintro error (⟨hkind, -⟩ | ⟨-, hdiffers⟩)
    · exact hkind
    · exact absurd rfl hdiffers
  · exact fun after notices beside => confined.sameButTrace htrims htraces beside

/-- Calling a block undoes it: if the call ends with a value, or with another error than one of
depth, then the value that was put off, evaluated by itself from the same state, ends in the same
way, with the same effects and in the same state, but for the traces of applications. -/
theorem Knows.call_block_endsAs {owned : Multiset Value} {call block : Nat} {value : Value}
    (hknows : machine.Knows fun _ => True) (hcounted : machine.Counted owned)
    (hformed : machine.WellFormed owned) (hguards : machine.Guards owned (.expr call))
    (hcalls : machine.store.CallsBlock call block value)
    (honly : machine.store.Only (fun _ => True) value) {fuel more : Nat} (hfuel : fuel ≤ more) :
    Run.EndsAs .depth SameButTrace ((Evaluator.within fuel machine).run (.expr call) machine)
      ((Evaluator.within more machine).run value machine) := by
  have instep := inStep_self (balanced_iff.mpr ⟨hcounted, hformed⟩)
  have hblock : machine.Guards owned (.expr block) :=
    hcalls.call_arg ▸ (instep.arg_eq hguards 0).2
  have hvalue : machine.Guards owned value := hcalls.block_arg ▸ (instep.arg_eq hblock 0).2
  obtain ⟨store, hretain, -, -⟩ :=
    instep.balanced.retain (InStep.held_subset owned machine.environment) hvalue
  have htrims : machine.store.Trims store := (Store.trimming_retain value).ok hretain
  have confined := hknows.confined honly
  rcases Evaluator.run_callsBlock hcalls hretain fuel with ⟨after, hdeep⟩ | ⟨traces, htraces, hrun⟩
  · rw [hdeep]
    exact fun hkind => absurd rfl hkind
  · rw [hrun]
    by_cases hliteral : value.isLiteral = true
    · -- A literal is not evaluated any further by the call.
      rw [if_pos hliteral, Evaluator.run_of_isLiteral hliteral hretain]
      exact ⟨_, rfl, confined.sameButTrace htrims htraces Relaxation.beside_start⟩
    · rw [if_neg hliteral]
      have hinside := confined.endsAs_outside (machine.within_area value) htrims htraces hfuel
      have houtside := instep.endsAs_of_held hvalue hretain more .depth
      exact hinside.trans SameButTrace.trans houtside

/-- Puts the call of a block into a variable and gives it. The block assigns to this variable before
it uses it. -/
def overwriting : Operation := .evaluate { unread := "= f B C B ; = f 'x' + f 'yy'" } "EVAL"

theorem perform_overwriting :
    (match overwriting.perform 0 { trace := true } with
    | .error _ _ => false
    | .ok answer machine =>
      decide (answer = .value (.expr 4) ∧
        machine.environment.cells = #[{ name := "f", value := some (.expr 4) }] ∧
        (∀ function ∈ machine.functions.entries, function.IsAmong fun _ => True) ∧
        (∀ node ∈ machine.store.nodes, node.function.IsAmong fun _ => True)) &&
      decide (machine.store.arg 4 0 = .expr 3 ∧ machine.store.arg 3 0 = .expr 2 ∧
        (machine.store.node? 4).map (·.function.action) = some (.builtin .call) ∧
        (machine.store.node? 3).map (·.function.action) = some (.builtin .block)) &&
      decide (Run.outcome ((Evaluator.within 0 machine).run (.expr 4) machine) =
        .ok (.string (.owned 2)))) = true := by
  decide +kernel

theorem Knows.call_block_endsAs_overwriting :
    ∃ machine, machine.environment.value? 0 = some (.expr 4) ∧
      machine.store.CallsBlock 4 3 (.expr 2) ∧
      ∃ after after',
        (Evaluator.within 0 machine).run (.expr 4) machine = .ok (.string (.owned 2)) after ∧
        (Evaluator.within 0 machine).run (.expr 2) machine = .ok (.string (.owned 2)) after' ∧
        after.SameButTrace after' := by
  have hoverwriting := perform_overwriting
  split at hoverwriting
  · cases hoverwriting
  · next answer machine hperform =>
      simp only [Bool.and_eq_true, decide_eq_true_eq] at hoverwriting
      obtain ⟨⟨⟨rfl, hcells, hfunctions, hnodes⟩, harg, harg', hcall, hblock⟩, hrun⟩ := hoverwriting
      have hreachable : Reachable machine {.expr 4} :=
        .answered overwriting 0 (.start rfl rfl) trivial hperform
      have hcalls : machine.store.CallsBlock 4 3 (.expr 2) :=
        { exists_call := Option.map_eq_some_iff.mp hcall
          call_arg := harg
          exists_block := Option.map_eq_some_iff.mp hblock
          block_arg := harg' }
      have hends := (knows_of_forall hfunctions hnodes).call_block_endsAs hreachable.inStep.counted
        hreachable.wellFormed (.held (Multiset.mem_singleton_self _)) hcalls
        (Store.only_of_forall hnodes _) (le_refl 0)
      obtain ⟨after, hafter⟩ := Run.exists_of_outcome_ok hrun
      rw [hafter] at hends
      obtain ⟨after', hafter', hsame⟩ := hends
      have hvalue : machine.environment.value? 0 = some (.expr 4) := by
        rw [Environment.value?, hcells]
        rfl
      exact ⟨machine, hvalue, hcalls, after, after', hafter, hafter', hsame⟩

end Machine

end KnightLang
