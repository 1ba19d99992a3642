import KnightLang.Proofs.Lockstep
import KnightLang.Proofs.Variables

/-!
Which cell a name stands for, whichever way it is named: by a variable in a source, by what the
target of an assignment converts to, or by what the argument of VALUE converts to. The two
conversions refuse what is no identifier, before anything else is evaluated and without making a
cell.
-/

namespace KnightLang

/-! ### The string of a conversion -/

/-- Two actions one after the other give a value if both do. -/
theorem bind_eq_ok {ε σ α β : Type} {first : EStateM ε σ α} {next : α → EStateM ε σ β}
    {state after : σ} {result : β} (hbind : (first >>= next) state = .ok result after) :
    ∃ value middle, first state = .ok value middle ∧ next value middle = .ok result after := by
  simp only [bind, EStateM.bind] at hbind
  split at hbind
  · next value middle hfirst => exact ⟨value, middle, hfirst, hbind⟩
  · cases hbind

theorem exists_of_run' {ε σ α : Type} {action : EStateM ε σ α} {state : σ} {result : α}
    (hrun : action.run' state = some result) : ∃ after, action state = .ok result after := by
  delta EStateM.run' EStateM.run at hrun
  cases haction : action state with
  | ok value after =>
      rw [haction] at hrun
      cases hrun
      exact ⟨after, rfl⟩
  | error stop after =>
      rw [haction] at hrun
      cases hrun

namespace Store

/-- A value whose payload was not freed, if it has one of its own. -/
def Usable (store : Store) (value : Value) : Prop :=
  value.isPlain = true ∨ (store.live? value).isSome = true

variable {store after : Store} {index : Nat} {text : TextRef} {value : Value}

theorem usable_of_exists_live
    (hlive : value.isPlain = false → ∃ payload, store.live? value = some payload) :
    store.Usable value := by
  by_cases hplain : value.isPlain = true
  · exact Or.inl hplain
  · exact Or.inr (Option.isSome_iff_exists.mpr (hlive (Bool.eq_false_iff.mpr hplain)))

theorem usable_owned_iff : store.Usable (.string (.owned index)) ↔
    ∃ found, store.text? index = some found ∧ found.refs ≠ 0 := by
  simp [Usable, Value.isPlain, Option.isSome_iff_exists, Option.bind_eq_some_iff]

theorem usable_expr_iff : store.Usable (.expr index) ↔
    ∃ found, store.node? index = some found ∧ found.refs ≠ 0 := by
  simp [Usable, Value.isPlain, Option.isSome_iff_exists, Option.bind_eq_some_iff]

theorem Usable.setTextRefs {refs : Nat} (husable : store.Usable (.string text))
    (hrefs : refs ≠ 0) : (store.setTextRefs index refs).Usable (.string text) := by
  cases text with
  | static shared => exact Or.inl rfl
  | owned other =>
      obtain ⟨found, hfound, hlive⟩ := usable_owned_iff.mp husable
      rw [usable_owned_iff]
      by_cases heq : index = other
      · exact ⟨{ found with refs }, by simp [heq, hfound], hrefs⟩
      · exact ⟨found, by simp [heq, hfound], hlive⟩

@[simp]
theorem release_string (text : TextRef) (store : Store) :
    release (.string text) store = releaseText text store := by
  change releaseWithin store.nodes.size (.string text) store = _
  cases store.nodes.size with
  | zero => rfl
  | succ bound => rfl

theorem Usable.exists_release (husable : store.Usable (.string text)) :
    ∃ after, release (.string text) store = .ok ⟨⟩ after := by
  rw [release_string]
  cases text with
  | static shared => exact ⟨store, rfl⟩
  | owned index =>
      obtain ⟨found, hfound, hlive⟩ := usable_owned_iff.mp husable
      by_cases hlast : found.refs = 1
      · exact ⟨_, releaseText_last hfound hlast⟩
      · obtain ⟨refs, hrefs⟩ : ∃ refs, found.refs = refs + 2 := ⟨found.refs - 2, by omega⟩
        exact ⟨_, releaseText_shared hfound hrefs⟩

/-- A value that is usable can get one more reference, and no string is the worse for it. -/
theorem Usable.exists_retain (husable : store.Usable value) :
    ∃ after, retain value store = .ok ⟨⟩ after ∧
      ∀ text, store.Usable (.string text) → after.Usable (.string text) := by
  induction value using Value.payloadCases with
  | plain value hplain => exact ⟨store, retain_of_isPlain hplain, fun _ => id⟩
  | text index =>
      obtain ⟨found, hfound, hlive⟩ := usable_owned_iff.mp husable
      refine ⟨_, retain_owned hfound hlive, fun text htext => ?_⟩
      exact htext.setTextRefs (Nat.succ_ne_zero _)
  | application index =>
      obtain ⟨found, hfound, hlive⟩ := usable_expr_iff.mp husable
      refine ⟨_, retain_expr hfound hlive, fun text htext => ?_⟩
      cases text with
      | static shared => exact Or.inl rfl
      | owned other => exact htext

theorem retain_owned_eq_ok
    (hretain : retain (.string (.owned index)) store = .ok ⟨⟩ after) :
    ∃ found, store.text? index = some found ∧ found.refs ≠ 0 ∧
      after = store.setTextRefs index (found.refs + 1) := by
  by_cases hlive : ∃ found, store.text? index = some found ∧ found.refs ≠ 0
  · obtain ⟨found, hfound, hrefs⟩ := hlive
    rw [retain_owned hfound hrefs] at hretain
    cases hretain
    exact ⟨found, hfound, hrefs, rfl⟩
  · exfalso
    push Not at hlive
    simp only [retain, retainText, bind, EStateM.bind, get_apply] at hretain
    cases hfound : store.text? index with
    | none =>
        rw [hfound] at hretain
        cases hretain
    | some found =>
        obtain ⟨bytes, refs⟩ := found
        obtain rfl : refs = 0 := hlive _ hfound
        rw [hfound] at hretain
        cases hretain

/-- The string of a literal is usable, and still is once the literal is released. -/
theorem usable_literalText (htext : literalText value store = .ok text after) :
    after.Usable (.string text) ∧
      ∀ last, release value after = .ok ⟨⟩ last → last.Usable (.string text) := by
  cases value with
  | null | boolean flag | «variable» cell | expr index =>
      cases htext
      exact ⟨Or.inl rfl, fun _ _ => Or.inl rfl⟩
  | number word =>
      have husable : after.Usable (.string text) := by
        change numberText word store = _ at htext
        unfold numberText at htext
        split_ifs at htext
        · cases htext
          exact Or.inl rfl
        · cases htext
          exact Or.inl rfl
        · cases htext
          exact usable_owned_iff.mpr ⟨_, Array.getElem?_push_size, Nat.one_ne_zero⟩
      refine ⟨husable, fun last hrelease => ?_⟩
      have hsame : release (.number word) after = .ok ⟨⟩ after := releaseWithin_of_isPlain _ rfl
      cases hsame.symm.trans hrelease
      exact husable
  | string reference =>
      cases reference with
      | static shared =>
          cases htext
          exact ⟨Or.inl rfl, fun _ _ => Or.inl rfl⟩
      | owned index =>
          obtain ⟨⟨⟩, middle, hretain, hreturn⟩ := bind_eq_ok htext
          cases hreturn
          obtain ⟨found, hfound, hrefs, rfl⟩ := retain_owned_eq_ok hretain
          have hcounted : (store.setTextRefs index (found.refs + 1)).text? index =
              some { found with refs := found.refs + 1 } := by
            simp [hfound]
          have husable : (store.setTextRefs index (found.refs + 1)).Usable
              (.string (.owned index)) :=
            usable_owned_iff.mpr ⟨_, hcounted, Nat.succ_ne_zero _⟩
          refine ⟨husable, fun last hrelease => ?_⟩
          have hshared : found.refs + 1 = (found.refs - 1) + 2 := by omega
          rw [release_string, releaseText_shared hcounted hshared] at hrelease
          cases hrelease
          exact husable.setTextRefs (Nat.succ_ne_zero _)

end Store

namespace Run

variable {α : Type} {machine after : Machine}

theorem onStore_eq_ok {action : StoreM α} {result : α}
    (honStore : onStore action machine = .ok result after) :
    ∃ store, action machine.store = .ok result store ∧ after = { machine with store } := by
  unfold onStore at honStore
  dsimp only at honStore
  split at honStore
  · next store haction =>
      cases honStore
      exact ⟨store, haction, rfl⟩
  · cases honStore

theorem deferring_eq_ok {cleanup : Run PUnit} {action : Run α} {result : α}
    (hdeferring : deferring cleanup action machine = .ok result after) :
    ∃ middle, action machine = .ok result middle ∧ cleanup middle = .ok ⟨⟩ after := by
  unfold deferring at hdeferring
  split at hdeferring
  · next middle haction =>
      split at hdeferring
      · next hcleanup =>
          cases hdeferring
          exact ⟨middle, haction, hcleanup⟩
      · cases hdeferring
  · split at hdeferring <;> cases hdeferring

theorem deferring_congr {cleanup : Run PUnit} {action other : Run α} {machine' : Machine}
    (haction : action machine = other machine') :
    deferring cleanup action machine = deferring cleanup other machine' := by
  simp only [deferring, haction]

theorem deferring_ok {cleanup : Run PUnit} {action : Run α} {middle : Machine} {result : α}
    (haction : action machine = .ok result middle) (hcleanup : cleanup middle = .ok ⟨⟩ after) :
    deferring cleanup action machine = .ok result after := by
  simp only [deferring, haction, hcleanup]

theorem deferring_error {cleanup : Run PUnit} {action : Run α} {middle : Machine} {stop : Stop}
    (haction : action machine = .error stop middle) (hcleanup : cleanup middle = .ok ⟨⟩ after) :
    deferring cleanup action machine = .error stop after := by
  simp only [deferring, haction, hcleanup]

theorem read_of_unassigned {cell : Nat} (hnone : machine.environment.value? cell = none) :
    read cell machine =
      .error (.error (.raise (.unassigned (machine.environment.name cell)))) machine := by
  refine (bind_ok (get_apply machine)).trans ?_
  rw [hnone]
  rfl

theorem read_of_none {cell : Nat} {name : Bytes}
    (hfind : machine.environment.find? name = some cell)
    (hnone : machine.environment.value? cell = none) :
    read cell machine = .error (.error (.raise (.unassigned name))) machine := by
  rw [read_of_unassigned hnone, Environment.name_of_find? hfind]

theorem read_of_some {cell : Nat} {value : Value} {store : Store}
    (hvalue : machine.environment.value? cell = some value)
    (hretain : Store.retain value machine.store = .ok ⟨⟩ store) :
    read cell machine = .ok value { machine with store } := by
  refine (bind_ok (get_apply machine)).trans ?_
  rw [hvalue]
  exact bind_ok (onStore_ok hretain)

theorem value?_of_read_ok {cell : Nat} {result : Value}
    (hread : read cell machine = .ok result after) :
    machine.environment.value? cell = some result := by
  obtain ⟨start, same, hget, hread⟩ := bind_eq_ok hread
  cases hget
  dsimp only at hread
  cases hvalue : machine.environment.value? cell with
  | none =>
      rw [hvalue] at hread
      cases hread
  | some held =>
      rw [hvalue] at hread
      obtain ⟨⟨⟩, retained, -, hreturn⟩ := bind_eq_ok hread
      cases hreturn
      rfl

/-- Once it is assigned, a cell has the value it was given. -/
theorem value?_of_assign_ok {cell : Nat} {name : Bytes} {value : Value}
    (hfind : machine.environment.find? name = some cell)
    (hassign : assign cell value machine = .ok ⟨⟩ after) :
    after.environment.value? cell = some value := by
  have hassigned := Environment.value?_assign hfind value
  obtain ⟨start, same, hget, hassign⟩ := bind_eq_ok hassign
  cases hget
  obtain ⟨⟨⟩, middle, hmodify, hrelease⟩ := bind_eq_ok hassign
  cases hmodify
  dsimp only at hrelease
  cases hprevious : machine.environment.value? cell with
  | none =>
      rw [hprevious] at hrelease
      cases hrelease
      exact hassigned
  | some previous =>
      rw [hprevious] at hrelease
      obtain ⟨store, -, rfl⟩ := onStore_eq_ok hrelease
      exact hassigned

end Run

namespace Evaluator

variable {evaluator : Evaluator} {machine middle : Machine} {value : Value} {text : TextRef}

/-- A conversion gives a string that its caller can release. -/
theorem usable_toText (htext : evaluator.toText value machine = .ok text middle) :
    middle.store.Usable (.string text) := by
  unfold toText withLiteral at htext
  split at htext
  · obtain ⟨store, hliteral, rfl⟩ := Run.onStore_eq_ok htext
    exact (Store.usable_literalText hliteral).1
  · obtain ⟨literal, forced, -, hdeferring⟩ := bind_eq_ok htext
    obtain ⟨converted, honStore, hcleanup⟩ := Run.deferring_eq_ok hdeferring
    obtain ⟨store, hliteral, rfl⟩ := Run.onStore_eq_ok honStore
    obtain ⟨last, hrelease, rfl⟩ := Run.onStore_eq_ok hcleanup
    exact (Store.usable_literalText hliteral).2 last hrelease

theorem exists_release_text (htext : evaluator.toText value machine = .ok text middle)
    (environment : Environment) :
    ∃ store, Store.release (.string text) middle.store = .ok ⟨⟩ store ∧
      Run.release (.string text) { middle with environment } =
        .ok ⟨⟩ { middle with store, environment } := by
  obtain ⟨store, hrelease⟩ := (usable_toText htext).exists_release
  exact ⟨store, hrelease, Run.onStore_ok hrelease⟩

/-! ### Targets and look-ups -/

variable {node : Nat} {name : Bytes}

section Conversion

variable (htext : evaluator.toText value machine = .ok text middle)
  (hbytes : middle.store.bytes text = name)

include htext hbytes

theorem target_of_isIdentifier (hvalue : ∀ cell, value ≠ .variable cell)
    (hname : name.isIdentifier = true) :
    ∃ store, evaluator.target value machine =
      .ok (middle.environment.fetch name).1
        { middle with store, environment := (middle.environment.fetch name).2 } := by
  obtain ⟨store, -, hrelease⟩ := exists_release_text htext (middle.environment.fetch name).2
  refine ⟨store, ?_⟩
  have hfetch : Run.fetch name middle = .ok (middle.environment.fetch name).1
      { middle with environment := (middle.environment.fetch name).2 } := rfl
  cases value with
  | «variable» cell => exact absurd rfl (hvalue cell)
  | null | boolean flag | number word | string reference | expr index =>
      refine (Run.bind_ok htext).trans ?_
      refine (Run.bind_ok (get_apply middle)).trans ?_
      rw [hbytes, if_pos hname]
      exact (Run.bind_ok hfetch).trans (Run.bind_ok hrelease)

theorem target_of_not_isIdentifier (hvalue : ∀ cell, value ≠ .variable cell)
    (hname : name.isIdentifier = false) :
    ∃ store, Store.release (.string text) middle.store = .ok ⟨⟩ store ∧
      evaluator.target value machine =
        .error (.error (.raise (.notAssignable name))) { middle with store } := by
  obtain ⟨store, hstore, hrelease⟩ := exists_release_text htext middle.environment
  refine ⟨store, hstore, ?_⟩
  cases value with
  | «variable» cell => exact absurd rfl (hvalue cell)
  | null | boolean flag | number word | string reference | expr index =>
      refine (Run.bind_ok htext).trans ?_
      refine (Run.bind_ok (get_apply middle)).trans ?_
      rw [hbytes, if_neg (by rw [hname]; exact Bool.false_ne_true)]
      exact Run.bind_ok hrelease

end Conversion

section Application

variable (htext : evaluator.toText (machine.store.arg node 0) machine = .ok text middle)
  (hbytes : middle.store.bytes text = name)

include htext hbytes

theorem assign_of_isIdentifier (hvalue : ∀ cell, machine.store.arg node 0 ≠ .variable cell)
    (hname : name.isIdentifier = true) :
    ∃ store, evaluator.assign node machine =
      evaluator.assignTo node (middle.environment.fetch name).1
        { middle with store, environment := (middle.environment.fetch name).2 } := by
  obtain ⟨store, htarget⟩ := target_of_isIdentifier htext hbytes hvalue hname
  have hoperand : operand node 0 machine = .ok (machine.store.arg node 0) machine := rfl
  exact ⟨store, (Run.bind_ok hoperand).trans (Run.bind_ok htarget)⟩

theorem assign_of_not_isIdentifier (hvalue : ∀ cell, machine.store.arg node 0 ≠ .variable cell)
    (hname : name.isIdentifier = false) :
    ∃ store, Store.release (.string text) middle.store = .ok ⟨⟩ store ∧
      evaluator.assign node machine =
        .error (.error (.raise (.notAssignable name))) { middle with store } := by
  obtain ⟨store, hrelease, htarget⟩ := target_of_not_isIdentifier htext hbytes hvalue hname
  have hoperand : operand node 0 machine = .ok (machine.store.arg node 0) machine := rfl
  exact ⟨store, hrelease, (Run.bind_ok hoperand).trans (Run.bind_error htarget)⟩

theorem value_of_isIdentifier (hname : name.isIdentifier = true) :
    evaluator.value node machine =
      Run.deferring (Run.release (.string text)) (Run.read (middle.environment.fetch name).1)
        { middle with environment := (middle.environment.fetch name).2 } := by
  have hoperand : operand node 0 machine = .ok (machine.store.arg node 0) machine := rfl
  have hfetch : Run.fetch name middle = .ok (middle.environment.fetch name).1
      { middle with environment := (middle.environment.fetch name).2 } := rfl
  refine (Run.bind_ok hoperand).trans ?_
  refine (Run.bind_ok htext).trans (Run.deferring_congr ?_)
  refine (Run.bind_ok (get_apply middle)).trans ?_
  rw [hbytes, if_pos hname]
  exact Run.bind_ok hfetch

theorem value_of_not_isIdentifier (hname : name.isIdentifier = false) :
    ∃ store, Store.release (.string text) middle.store = .ok ⟨⟩ store ∧
      evaluator.value node machine =
        .error (.error (.raise (.notAName name))) { middle with store } := by
  obtain ⟨store, hstore, hrelease⟩ := exists_release_text htext middle.environment
  refine ⟨store, hstore, ?_⟩
  have hoperand : operand node 0 machine = .ok (machine.store.arg node 0) machine := rfl
  refine (Run.bind_ok hoperand).trans ?_
  refine (Run.bind_ok htext).trans (Run.deferring_error ?_ hrelease)
  refine (Run.bind_ok (get_apply middle)).trans ?_
  rw [hbytes, if_neg (by rw [hname]; exact Bool.false_ne_true)]
  rfl

end Application

/-- The cell that is assigned to has the result of the assignment. -/
theorem value?_of_assignTo_ok (happly : ∀ node, Along Machine.Steps (evaluator.apply node))
    {cell : Nat} {result : Value} {after : Machine}
    (hfind : machine.environment.find? name = some cell)
    (hassign : evaluator.assignTo node cell machine = .ok result after) :
    after.environment.value? cell = some result := by
  obtain ⟨other, start, hoperand, hassign⟩ := bind_eq_ok hassign
  cases hoperand
  obtain ⟨value, evaluated, hrun, hassign⟩ := bind_eq_ok hassign
  obtain ⟨⟨⟩, retained, hretain, hassign⟩ := bind_eq_ok hassign
  obtain ⟨⟨⟩, assigned, hassign, hreturn⟩ := bind_eq_ok hassign
  cases hreturn
  -- The cell is still the one of its name when the result is put into it.
  have hsteps : machine.Steps evaluated := by
    have hleft := along_run happly (machine.store.arg node 1) machine
    rw [hrun] at hleft
    exact hleft
  have hretained : evaluated.Steps retained := by
    have hleft := Run.along_retain result evaluated
    rw [hretain] at hleft
    exact hleft
  exact Run.value?_of_assign_ok (hretained.find? (hsteps.find? hfind)) hassign

/-- The evaluator of what is inside an application, when at most `budget` more may nest. -/
def inside (fuel budget : Nat) : Evaluator := { budget, fuel, apply := applyWithin fuel budget }

theorem along_inside (fuel budget node : Nat) :
    Along Machine.Steps ((inside fuel budget).apply node) :=
  along_applyWithin fuel budget node

/-- A value converts to a string with these contents. -/
structure Converts (evaluator : Evaluator) (value : Value) (name : Bytes) (machine : Machine)
    (text : TextRef) (after : Machine) : Prop where
  toText : evaluator.toText value machine = .ok text after
  bytes : after.store.bytes text = name

end Evaluator

/-- A variable that is read is given by its cell. -/
theorem Run.parseFrom_identifier (source : Source) (label : Bytes) (machine : Machine)
    {name blank rest : Bytes} (hname : name.isIdentifier = true)
    (hunread : source.unread = blank ++ (name ++ rest)) (hblank : Blank blank)
    (hstops : Stops Byte.isNameByte rest) (hend : source.failure = none ∨ rest ≠ []) :
    Run.parseFrom source label machine =
      .ok (.ok (.variable (machine.environment.fetch name).1), { source with unread := rest })
        { machine with environment := (machine.environment.fetch name).2 } := by
  obtain ⟨scanner, hparse, rfl⟩ :=
    (machine.grammar label source.failure).parse_identifier hname hblank hstops hend
  rw [← hunread] at hparse
  refine (Run.bind_ok (get_apply machine)).trans ?_
  rw [hparse]
  rfl

namespace Machine

/-- Whichever way a name is given, it stands for one cell, and does so for good. -/
structure Resolves (machine : Machine) (name : Bytes) : Prop where
  lasting : ∀ cell later, machine.environment.find? name = some cell → machine.Steps later →
    later.environment.find? name = some cell ∧ (later.environment.fetch name).1 = cell
  /-- A token of a source. -/
  token : ∀ (source : Source) label blank rest, source.unread = blank ++ (name ++ rest) →
    Blank blank → Stops Byte.isNameByte rest → source.failure = none ∨ rest ≠ [] →
    ∃ after, Run.parseFrom source label machine =
        .ok (.ok (.variable (machine.environment.fetch name).1), { source with unread := rest })
          after ∧
      after.environment.find? name = some (machine.environment.fetch name).1
  /-- The target of an assignment, unless it is such a token. -/
  assigned : ∀ fuel budget node text middle,
    (∀ cell, machine.store.arg node 0 ≠ .variable cell) →
    (Evaluator.inside fuel budget).Converts (machine.store.arg node 0) name machine text middle →
    LeftIn (fun after => after.environment.find? name = some (middle.environment.fetch name).1)
      ((Evaluator.inside fuel budget).perform node .assign machine) ∧
    ∀ result after, (Evaluator.inside fuel budget).perform node .assign machine =
        .ok result after →
      after.environment.value? (middle.environment.fetch name).1 = some result
  /-- The argument of VALUE. -/
  looked : ∀ fuel budget node text middle,
    (Evaluator.inside fuel budget).Converts (machine.store.arg node 0) name machine text middle →
    LeftIn (fun after => after.environment.find? name = some (middle.environment.fetch name).1)
      ((Evaluator.inside fuel budget).perform node .value machine) ∧
    (middle.environment.value? (middle.environment.fetch name).1 = none →
      ∃ after, (Evaluator.inside fuel budget).perform node .value machine =
        .error (.error (.raise (.unassigned name))) after) ∧
    (∀ result after, (Evaluator.inside fuel budget).perform node .value machine =
        .ok result after →
      middle.environment.value? (middle.environment.fetch name).1 = some result) ∧
    ∀ held, middle.environment.value? (middle.environment.fetch name).1 = some held →
      middle.store.Usable held →
      ∃ after, (Evaluator.inside fuel budget).perform node .value machine = .ok held after

/-- A name that is none is refused: no cell has it, and an assignment to it and VALUE of it do
nothing more once they have converted it but release it. -/
structure Rejects (machine : Machine) (name : Bytes) : Prop where
  unlisted : machine.environment.find? name = none
  assigned : ∀ fuel budget node text middle,
    (∀ cell, machine.store.arg node 0 ≠ .variable cell) →
    (Evaluator.inside fuel budget).Converts (machine.store.arg node 0) name machine text middle →
    middle.environment.find? name = none ∧
    ∃ error store, Error.kind error = .type ∧
      Store.release (.string text) middle.store = .ok ⟨⟩ store ∧
      (Evaluator.inside fuel budget).perform node .assign machine =
        .error (.error error) { middle with store }
  looked : ∀ fuel budget node text middle,
    (Evaluator.inside fuel budget).Converts (machine.store.arg node 0) name machine text middle →
    middle.environment.find? name = none ∧
    ∃ error store, Error.kind error = .type ∧
      Store.release (.string text) middle.store = .ok ⟨⟩ store ∧
      (Evaluator.inside fuel budget).perform node .value machine =
        .error (.error error) { middle with store }

theorem resolves_of_isIdentifier (machine : Machine) {name : Bytes}
    (hname : name.isIdentifier = true) : machine.Resolves name where
  lasting cell later hfind hsteps := by
    have hlater := hsteps.find? hfind
    refine ⟨hlater, ?_⟩
    rw [Environment.fetch_of_find? hlater]
  token source label blank rest hunread hblank hstops hend := by
    have hparse := Run.parseFrom_identifier source label machine hname hunread hblank hstops hend
    exact ⟨_, hparse, find?_fetch machine.environment name⟩
  assigned fuel budget node text middle hvalue hconverts := by
    have hfind := find?_fetch middle.environment name
    obtain ⟨store, hassign⟩ :=
      Evaluator.assign_of_isIdentifier hconverts.toText hconverts.bytes hvalue hname
    constructor
    · change LeftIn _ ((Evaluator.inside fuel budget).assign node machine)
      rw [hassign]
      refine (Evaluator.along_assignTo (Evaluator.along_inside fuel budget) _ _ _).weaken ?_
      exact fun after hsteps => hsteps.find? hfind
    · intro result after hperform
      exact Evaluator.value?_of_assignTo_ok (Evaluator.along_inside fuel budget) hfind
        (hassign.symm.trans hperform)
  looked fuel budget node text middle hconverts := by
    have hfind := find?_fetch middle.environment name
    have hvalue := Evaluator.value_of_isIdentifier hconverts.toText hconverts.bytes hname
    have husable := Evaluator.usable_toText hconverts.toText
    refine ⟨?_, fun hnone => ?_, fun result after hperform => ?_, fun held hheld hlive => ?_⟩
    · change LeftIn _ ((Evaluator.inside fuel budget).value node machine)
      rw [hvalue]
      have hread : Along Steps (Run.deferring (Run.release (.string text))
          (Run.read (middle.environment.fetch name).1)) :=
        .of_keeps fun start =>
          let logic := Evaluator.stepping (Evaluator.along_inside fuel budget) start
          logic.deferring (logic.read _)
      refine (hread _).weaken ?_
      exact fun after hsteps => hsteps.find? hfind
    · obtain ⟨store, -, hrelease⟩ :=
        Evaluator.exists_release_text hconverts.toText (middle.environment.fetch name).2
      refine ⟨_, hvalue.trans (Run.deferring_error ?_ hrelease)⟩
      exact Run.read_of_none hfind ((Environment.value?_fetch _ _).trans hnone)
    · obtain ⟨read, hread, -⟩ := Run.deferring_eq_ok (hvalue.symm.trans hperform)
      exact (Environment.value?_fetch _ _).symm.trans (Run.value?_of_read_ok hread)
    · obtain ⟨retained, hretain, hkept⟩ := hlive.exists_retain
      obtain ⟨store, hrelease⟩ := (hkept text husable).exists_release
      let fetched : Machine := { middle with environment := (middle.environment.fetch name).2 }
      have hcell : fetched.environment.value? (middle.environment.fetch name).1 = some held :=
        (Environment.value?_fetch _ _).trans hheld
      have hread := Run.read_of_some hcell hretain
      exact ⟨_, hvalue.trans (Run.deferring_ok hread (Run.onStore_ok hrelease))⟩

theorem rejects_of_not_isIdentifier {machine : Machine} (htabled : machine.environment.Tabled)
    {name : Bytes} (hname : name.isIdentifier = false) : machine.Rejects name := by
  have hunlisted {fuel budget : Nat} {value : Value} {text : TextRef} {middle : Machine}
      (hconverts : (Evaluator.inside fuel budget).Converts value name machine text middle) :
      middle.environment.find? name = none := by
    have hleft := Evaluator.along_toText (Evaluator.along_inside fuel budget) value machine
    rw [hconverts.toText] at hleft
    exact (Steps.tabled hleft htabled).find?_eq_none hname
  constructor
  · exact htabled.find?_eq_none hname
  · intro fuel budget node text middle hvalue hconverts
    obtain ⟨store, hrelease, hassign⟩ :=
      Evaluator.assign_of_not_isIdentifier hconverts.toText hconverts.bytes hvalue hname
    exact ⟨hunlisted hconverts, _, store, rfl, hrelease, hassign⟩
  · intro fuel budget node text middle hconverts
    obtain ⟨store, hrelease, hvalue⟩ :=
      Evaluator.value_of_not_isIdentifier hconverts.toText hconverts.bytes hname
    exact ⟨hunlisted hconverts, _, store, rfl, hrelease, hvalue⟩

/-- What a host does that has sources evaluated, whatever comes of it: it releases what it is given,
and may change whatever is no payload and no variable. -/
inductive Consults (machine : Machine) : Machine → Prop where
  | answered {after : Machine} {value : Value} (source : Source) (label : Bytes) (fuel : Nat) :
      (Evaluator.within fuel machine).evaluate source label machine = .ok value after →
      Consults machine after
  | stopped {after : Machine} {stop : Stop} (source : Source) (label : Bytes) (fuel : Nat) :
      (Evaluator.within fuel machine).evaluate source label machine = .error stop after →
      Consults machine after
  | released {after : Machine} (value : Value) :
      Run.release value machine = .ok ⟨⟩ after → Consults machine after
  | configured {after : Machine} :
      after.store = machine.store → after.environment = machine.environment →
      Consults machine after

theorem leftIn_evaluate (machine : Machine) (source : Source) (label : Bytes) (fuel : Nat) :
    LeftIn machine.Steps ((Evaluator.within fuel machine).evaluate source label machine) :=
  Evaluator.along_evaluate (Evaluator.along_within fuel machine) source label machine

theorem Consults.steps {machine after : Machine} (hconsults : machine.Consults after) :
    machine.Steps after := by
  cases hconsults with
  | answered source label fuel hevaluate =>
      have hleft := machine.leftIn_evaluate source label fuel
      rw [hevaluate] at hleft
      exact hleft
  | stopped source label fuel hevaluate =>
      have hleft := machine.leftIn_evaluate source label fuel
      rw [hevaluate] at hleft
      exact hleft
  | released value hrelease =>
      have hleft := Run.along_release value machine
      rw [hrelease] at hleft
      exact hleft
  | configured hstore henvironment => exact steps_aside hstore henvironment

theorem steps_of_consults {machine after : Machine}
    (hconsults : Relation.ReflTransGen Consults machine after) : machine.Steps after := by
  induction hconsults with
  | refl => exact refl_of Steps machine
  | tail _ hlast ih => exact trans_of Steps ih hlast.steps

/-- After any number of evaluations from an empty table, and at every step of the next: the names of
the cells are different identifiers, each of them stands for its cell, and no cell is lost, renamed
or emptied. The variables of an expression that is read are the cells of their names; an identifier
stands for the same cell as a token, as the target of an assignment and as the argument of VALUE;
and both of these refuse anything else with an error of type, without a cell for it and without
evaluating what was to be assigned. -/
theorem one_cell_per_name {start machine : Machine} (hempty : start.environment = {})
    (hreached : Relation.ReflTransGen Consults start machine) :
    (∀ source label fuel,
      LeftIn machine.Steps ((Evaluator.within fuel machine).evaluate source label machine)) ∧
    (∀ later, Relation.ReflTransGen Consults machine later → machine.Steps later) ∧
    ∀ during, machine.Steps during →
      (during.environment.cells.toList.map Cell.name).Nodup ∧ during.environment.Tabled ∧
      machine.environment.Extends during.environment ∧
      (∀ bytes label value rest after,
        Run.parseFrom { unread := bytes } label during = .ok (.ok value, rest) after →
        ∃ tree word, bytes = word ++ rest.unread ∧
          Derives during.functions during.maxDepth.toNat word tree rest.unread ∧
          after.Stands tree value) ∧
      (∀ name : Bytes, name.isIdentifier = true → during.Resolves name) ∧
      ∀ name : Bytes, name.isIdentifier = false → during.Rejects name := by
  have hstart : start.environment.Tabled := hempty ▸ Environment.tabled_empty
  refine ⟨machine.leftIn_evaluate, fun later => steps_of_consults, fun during hduring => ?_⟩
  have htabled := hduring.tabled ((steps_of_consults hreached).tabled hstart)
  refine ⟨htabled.nodup, htabled, hduring.extends, ?_, ?_, ?_⟩
  · intro bytes label value rest after hparse
    obtain ⟨tree, scanner, hread, rfl, -, hstands⟩ := Run.parse_of_parseFrom_ok hparse
    obtain ⟨word, hbytes, hderives⟩ := Scan.expression_sound rfl _ hread
    exact ⟨tree, word, hbytes, hderives, hstands⟩
  · exact fun name => during.resolves_of_isIdentifier
  · exact fun name => rejects_of_not_isIdentifier htabled

/-- Assigns to a name that is put together, and looks it up. -/
def namedByTexts : Source := { unread := "; = + 'a' 'b' 7 VALUE 'ab'" }

/-- A machine that is about to assign to a name in a string. -/
def assigning : Machine :=
  { store :=
      { texts := #[{ bytes := "ab", refs := 1 }]
        nodes := #[{ function := Builtin.function 61 "=" 2 .assign
                     args := [.string (.owned 0), .number 3], refs := 1 }] } }

theorem steps_assigning : Steps {} assigning := by
  have htext : Steps {} { store := { texts := #[{ bytes := "ab", refs := 1 }] } } :=
    (Step.store (.addText "ab")).steps
  have hnode : Steps { store := { texts := #[{ bytes := "ab", refs := 1 }] } } assigning :=
    (Step.store (.addNode (Builtin.function 61 "=" 2 .assign)
      [.string (.owned 0), .number 3])).steps
  exact trans_of Steps htext hnode

theorem one_cell_per_name_texts :
    (∃ machine, Relation.ReflTransGen Consults {} machine ∧
      machine.environment.find? "ab" = some 0 ∧
      machine.environment.value? 0 = some (.number 7) ∧
      (∃ after, Run.parseFrom { unread := "ab" } "" machine =
        .ok (.ok (.variable 0), { unread := [] }) after) ∧
      machine.environment.find? "a b" = none) ∧
    ∃ after, (Evaluator.inside 1 1).perform 0 .assign assigning = .ok (.number 3) after ∧
      after.environment.value? 0 = some (.number 3) := by
  constructor
  · have hrun : EStateM.run'
        (do
          let _ ← (Evaluator.within 0 {}).evaluate namedByTexts "EVAL"
          return ((← get).environment.find? "ab", (← get).environment.value? 0) : Run _) {} =
        some (some 0, some (.number 7)) := by decide +kernel
    obtain ⟨last, hlast⟩ := exists_of_run' hrun
    obtain ⟨value, machine, hevaluate, hread⟩ := bind_eq_ok hlast
    obtain ⟨hpair, rfl⟩ := EStateM.Result.ok.inj hread
    obtain ⟨hfind, hvalue⟩ := Prod.mk.inj hpair
    have hreached := Relation.ReflTransGen.single (Consults.answered _ _ 0 hevaluate)
    obtain ⟨-, -, hduring⟩ := one_cell_per_name rfl hreached
    obtain ⟨-, -, -, -, hresolves, hrejects⟩ := hduring machine (refl_of Steps machine)
    have hcell := Environment.fetch_of_find? hfind
    obtain ⟨after, htoken, -⟩ := (hresolves "ab" (by decide)).token { unread := "ab" } "" [] []
      rfl .nil nofun (Or.inl rfl)
    rw [hcell] at htoken
    exact ⟨machine, hreached, hfind, hvalue, ⟨after, htoken⟩,
      (hrejects "a b" (by decide)).unlisted⟩
  · have hconverts : (Evaluator.inside 1 1).Converts (assigning.store.arg 0 0) "ab" assigning
        (.owned 0) { assigning with store := assigning.store.setTextRefs 0 2 } := ⟨rfl, rfl⟩
    have hrun : EStateM.run' ((Evaluator.inside 1 1).perform 0 .assign) assigning =
        some (.number 3) := by decide +kernel
    obtain ⟨after, hperform⟩ := exists_of_run' hrun
    have hreached : Relation.ReflTransGen Consults {} {} := .refl
    obtain ⟨-, -, hduring⟩ := one_cell_per_name rfl hreached
    obtain ⟨-, -, -, -, hresolves, -⟩ := hduring assigning steps_assigning
    have hassigned := (hresolves "ab" (by decide)).assigned 1 1 0 _ _ nofun hconverts
    have hcell : (assigning.environment.fetch "ab").1 = 0 := by decide +kernel
    have hvalue : after.environment.value? (assigning.environment.fetch "ab").1 =
        some (.number 3) := hassigned.2 _ _ hperform
    rw [hcell] at hvalue
    exact ⟨after, hperform, hvalue⟩

end Machine

end KnightLang
