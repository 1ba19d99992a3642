import KnightLang.Proofs.Confinement
import KnightLang.Proofs.Limits.Reading
import Mathlib.Logic.Relation

/-!
One machine beside another that differs from it in its limits only: the second may nest deeper and
may leave overflow unchecked. Until a limit stops the first, both do the same.
-/

namespace KnightLang

/-- What one step of a run can do to a machine. A new application gets arguments that were made
before it. -/
inductive Machine.Moves (machine : Machine) : Machine → Prop where
  | trim {store : Store} : machine.store.Trims store → Moves machine { machine with store }
  | make (function : Function) {args : List Value} :
      (∀ child, .expr child ∈ args → child < machine.store.nodes.size) →
      Moves machine
        { machine with
          store := { machine.store with
            nodes := machine.store.nodes.push { function, args, refs := 1 } } }
  | fetch (name : Bytes) :
      Moves machine { machine with environment := (machine.environment.fetch name).2 }
  | assign (cell : Nat) (value : Value) :
      Moves machine { machine with environment := machine.environment.assign cell value }
  | draw (random : UInt64) : Moves machine { machine with random }
  | exchange (world : World) : Moves machine { machine with world }
  | nest (depth : Nat) : Moves machine { machine with depth }

/-- Steps of a run lead from one machine to another. -/
def Machine.LeadsTo : Machine → Machine → Prop := Relation.ReflTransGen Moves

theorem Machine.LeadsTo.step {start machine after : Machine} (hleads : start.LeadsTo machine)
    (hmoves : machine.Moves after) : start.LeadsTo after :=
  Relation.ReflTransGen.tail hleads hmoves

theorem Machine.leadsTo_enter {start machine : Machine} (hleads : start.LeadsTo machine)
    (function : Function) : start.LeadsTo (machine.enter function) := by
  have hnested := hleads.step (.nest (machine.depth + 1))
  unfold enter
  dsimp only
  split
  · exact hnested.step (.exchange _)
  · exact hnested

/-- Releasing a value only trims the store, and fails only by a broken rule of ownership. -/
theorem Run.release_trims (value : Value) (machine : Machine) :
    ∃ store, machine.store.Trims store ∧
      (Run.release value machine = .ok ⟨⟩ { machine with store } ∨
        ∃ fault, Run.release value machine = .error (.fault fault) { machine with store }) := by
  have htrims := Store.trimming_release value
  unfold Run.release Run.onStore
  cases hrelease : Store.release value machine.store with
  | ok _ after =>
      refine ⟨after, htrims.ok hrelease, Or.inl ?_⟩
      simp only [Custody.release, hrelease]
  | error fault after =>
      refine ⟨after, htrims.error hrelease, Or.inr ⟨fault, ?_⟩⟩
      simp only [Custody.release, hrelease]

/-- A notice less the depth that the trace of an application tells. -/
def Notice.withoutDepth : Notice → Notice
  | .log record =>
    if record.message = "apply" then
      .log { record with fields := record.fields.filter fun field => field.1 ≠ "depth" }
    else .log record
  | .text bytes => .text bytes

/-- An exchange with the outside that does not depend on the notices and only adds to them. -/
def World.Blind {α : Type} (ask : World → α × World) : Prop :=
  ∀ world, ∃ added, (ask world).2.notices = added ++ world.notices ∧
    ∀ notices, ask { world with notices } =
      ((ask world).1, { (ask world).2 with notices := added ++ notices })

namespace World

theorem blind_flush : Blind flush := by
  intro world
  refine ⟨[], ?_, fun notices => ?_⟩
  · unfold flush
    dsimp only
    split_ifs <;> rfl
  · unfold flush
    dsimp only
    split_ifs <;> rfl

theorem blind_write (bytes : Bytes) : Blind fun world => world.write bytes := by
  intro world
  refine ⟨[], ?_, fun notices => ?_⟩
  · unfold write
    dsimp only
    split <;> rfl
  · unfold write
    dsimp only
    cases world.failingWrite.text? (world.writes + 1) <;> rfl

theorem blind_readLine : Blind readLine := fun _ => ⟨[], rfl, fun _ => rfl⟩

theorem blind_runCommand (command : Bytes) : Blind fun world => world.runCommand command := by
  intro world
  by_cases herrors : (world.shell.answer world.home world.files command).errors.isEmpty = true
  · refine ⟨[], ?_, fun notices => ?_⟩
    · simp only [runCommand, herrors, ↓reduceIte]
      split_ifs <;> rfl
    · simp only [runCommand, herrors, ↓reduceIte]
      split_ifs <;> rfl
  · refine ⟨[.text (world.shell.answer world.home world.files command).errors], ?_,
      fun notices => ?_⟩
    · simp only [runCommand, herrors, Bool.false_eq_true, ↓reduceIte]
      split_ifs <;> rfl
    · simp only [runCommand, herrors, Bool.false_eq_true, ↓reduceIte]
      split_ifs <;> rfl

theorem blind_log (record : LogRecord) : Blind fun world => (PUnit.unit, world.log record) :=
  fun _ => ⟨[.log record], rfl, fun _ => rfl⟩

end World

/-- What is logged of an application if it is traced. -/
def Function.record (function : Function) (depth : Nat) : LogRecord :=
  { level := .debug, message := "apply"
    fields := [("fn", function.long), ("depth", Bytes.ofNat depth)] }

theorem Notice.withoutDepth_record (function : Function) (depth other : Nat) :
    (Notice.log (function.record depth)).withoutDepth =
      (Notice.log (function.record other)).withoutDepth := by
  simp [withoutDepth, Function.record, List.filter_cons]

theorem Machine.enter_of_not_trace {machine : Machine} (htrace : machine.trace = false)
    (function : Function) :
    machine.enter function = { machine with depth := machine.depth + 1 } := by
  simp [enter, htrace]

theorem Machine.enter_of_trace {machine : Machine} (htrace : machine.trace = true)
    (function : Function) :
    machine.enter function =
      { machine with
        depth := machine.depth + 1
        world := machine.world.log (function.record (machine.depth + 1)) } := by
  simp [enter, htrace, Function.record]

/-- A machine with limits that are looser than its own and with notices of its own, the operations
that a run on it may come to, and the area that such a run stays in. -/
structure Relaxation where
  start : Machine
  depth : Nat
  maxDepth : Int
  checked : Bool
  notices : List Notice
  allowed : Builtin → Prop
  area : Set Nat
  depth_le : depth ≤ start.depth
  maxDepth_le : start.maxDepth ≤ maxDepth
  checked_of_checked : checked = true → start.checked = true
  confined : start.Confined allowed area

/-- A machine with the given limits instead of its own. -/
def Machine.Confined.relaxed {machine : Machine} {allowed : Builtin → Prop} {area : Set Nat}
    (confined : machine.Confined allowed area) {depth : Nat} {maxDepth : Int} {checked : Bool}
    (hdepth : depth ≤ machine.depth) (hlimit : machine.maxDepth ≤ maxDepth)
    (hchecked : checked = true → machine.checked = true) : Relaxation where
  start := machine
  depth := depth
  maxDepth := maxDepth
  checked := checked
  notices := machine.world.notices
  allowed := allowed
  area := area
  depth_le := hdepth
  maxDepth_le := hlimit
  checked_of_checked := hchecked
  confined := confined

namespace Relaxation

variable (relaxation : Relaxation)

/-- Whether nesting is limited in the same way. -/
def SameDepth : Prop :=
  relaxation.depth = relaxation.start.depth ∧ relaxation.maxDepth = relaxation.start.maxDepth

/-- What may stop a run under the tighter limits and not under the looser ones. After a broken rule
of ownership nothing is said about the second run, nor after a loop that ran out of turns. -/
def Cuts : Stop → Prop
  | .error error =>
      error.kind = .depth ∧ ¬relaxation.SameDepth ∨
        error.kind = .overflow ∧ relaxation.checked ≠ relaxation.start.checked
  | .fault _ => True
  | .exhausted => relaxation.allowed .whileLoop

/-- The second machine, as it is when the first has come to be `machine` inside `level` more
applications than at the start. -/
def loosened (level : Nat) (machine : Machine) (notices : List Notice) : Machine :=
  { machine with
    depth := relaxation.depth + level
    maxDepth := relaxation.maxDepth
    checked := relaxation.checked
    world := { machine.world with notices } }

/-- The two machines have added the same to their notices, but for the depths that traces tell; to
the letter the same, if the machines started at the same depth. -/
def Told (first second : List Notice) : Prop :=
  ∃ added more, first = added ++ relaxation.start.world.notices ∧
    second = more ++ relaxation.notices ∧
    more.map Notice.withoutDepth = added.map Notice.withoutDepth ∧
    (relaxation.depth = relaxation.start.depth → more = added)

/-- A machine that has come from the start, and the notices of the one beside it. -/
structure Beside (level : Nat) (machine : Machine) (notices : List Notice) : Prop where
  depth : machine.depth = relaxation.start.depth + level
  maxDepth : machine.maxDepth = relaxation.start.maxDepth
  checked : machine.checked = relaxation.start.checked
  told : relaxation.Told machine.world.notices notices
  confined : machine.Confined relaxation.allowed relaxation.area
  leads : relaxation.start.LeadsTo machine

/-- Two runs ended alike, with the same good value or the same error, or the first was cut off. -/
inductive Alike {α : Type} (level : Nat) (good : α → Prop) :
    EStateM.Result Stop Machine α → EStateM.Result Stop Machine α → Prop where
  | ok {value : α} {machine : Machine} {notices : List Notice} :
      good value → relaxation.Beside level machine notices →
      Alike level good (.ok value machine) (.ok value (relaxation.loosened level machine notices))
  | error {error : Error} {machine : Machine} {notices : List Notice} :
      relaxation.Beside level machine notices →
      Alike level good (.error (.error error) machine)
        (.error (.error error) (relaxation.loosened level machine notices))
  | cut {stop : Stop} {machine : Machine} {result : EStateM.Result Stop Machine α} :
      relaxation.Cuts stop → relaxation.start.LeadsTo machine →
      Alike level good (.error stop machine) result

/-- Two actions that end alike on machines beside each other. -/
def Agree {α : Type} (level : Nat) (good : α → Prop) (first second : Run α) : Prop :=
  ∀ machine notices, relaxation.Beside level machine notices →
    relaxation.Alike level good (first machine) (second (relaxation.loosened level machine notices))

/-- Two actions that end alike and give values of the area. -/
abbrev AgreeValue (level : Nat) (first second : Run Value) : Prop :=
  relaxation.Agree level (fun value => value.Within relaxation.area) first second

variable {relaxation}

theorem Told.append {first second added more : List Notice} (htold : relaxation.Told first second)
    (hsame : more.map Notice.withoutDepth = added.map Notice.withoutDepth)
    (heq : relaxation.depth = relaxation.start.depth → more = added) :
    relaxation.Told (added ++ first) (more ++ second) := by
  obtain ⟨before, before', rfl, rfl, hsame', heq'⟩ := htold
  refine ⟨added ++ before, more ++ before', by simp, by simp, ?_, fun hdepth => ?_⟩
  · rw [List.map_append, List.map_append, hsame, hsame']
  · rw [heq hdepth, heq' hdepth]

theorem beside_start : relaxation.Beside 0 relaxation.start relaxation.notices where
  depth := rfl
  maxDepth := rfl
  checked := rfl
  told := ⟨[], [], rfl, rfl, rfl, fun _ => rfl⟩
  confined := relaxation.confined
  leads := .refl

theorem cuts_depth {error : Error} (hdepth : error.kind = .depth) (hsame : ¬relaxation.SameDepth) :
    relaxation.Cuts (.error error) := Or.inl ⟨hdepth, hsame⟩

/-! ### Steps of both machines -/

namespace Beside

variable {level : Nat} {machine : Machine} {notices : List Notice}

theorem setStore {store : Store} (beside : relaxation.Beside level machine notices)
    (htrims : machine.store.Trims store) :
    relaxation.Beside level { machine with store } notices :=
  { beside with
    confined := beside.confined.trim htrims
    leads := beside.leads.step (.trim htrims) }

theorem pushNode {function : Function} {args : List Value}
    (beside : relaxation.Beside level machine notices)
    (hfunction : function.IsAmong relaxation.allowed)
    (hargs : ∀ value ∈ args, value.Within relaxation.area)
    (holder : ∀ child, .expr child ∈ args → child < machine.store.nodes.size) :
    relaxation.Beside level
      { machine with
        store := { machine.store with
          nodes := machine.store.nodes.push { function, args, refs := 1 } } } notices :=
  { beside with
    confined := beside.confined.pushNode 1 hfunction hargs
    leads := beside.leads.step (.make function holder) }

theorem fetch (beside : relaxation.Beside level machine notices) (name : Bytes) :
    relaxation.Beside level
      { machine with environment := (machine.environment.fetch name).2 } notices :=
  { beside with
    confined := beside.confined.fetch name
    leads := beside.leads.step (.fetch name) }

theorem assign {value : Value} (beside : relaxation.Beside level machine notices)
    (hvalue : value.Within relaxation.area) (cell : Nat) :
    relaxation.Beside level
      { machine with environment := machine.environment.assign cell value } notices :=
  { beside with
    confined := beside.confined.assign hvalue cell
    leads := beside.leads.step (.assign cell value) }

theorem draw (beside : relaxation.Beside level machine notices) (random : UInt64) :
    relaxation.Beside level { machine with random } notices :=
  { beside with
    confined := beside.confined.keep rfl rfl rfl
    leads := beside.leads.step (.draw random) }

theorem setWorld {world : World} {added : List Notice}
    (beside : relaxation.Beside level machine notices)
    (hadded : world.notices = added ++ machine.world.notices) :
    relaxation.Beside level { machine with world } (added ++ notices) where
  depth := beside.depth
  maxDepth := beside.maxDepth
  checked := beside.checked
  told := by
    rw [hadded]
    exact beside.told.append rfl fun _ => rfl
  confined := beside.confined.keep rfl rfl rfl
  leads := beside.leads.step (.exchange world)

/-- Both machines enter an application, and may trace it with depths of their own. -/
theorem enter (beside : relaxation.Beside level machine notices) (function : Function) :
    ∃ more, (relaxation.loosened level machine notices).enter function =
        relaxation.loosened (level + 1) (machine.enter function) more ∧
      relaxation.Beside (level + 1) (machine.enter function) more := by
  have hleads := Machine.leadsTo_enter beside.leads function
  have hdepth : machine.depth + 1 = relaxation.start.depth + (level + 1) := by
    rw [beside.depth, Nat.add_assoc]
  cases htrace : machine.trace with
  | false =>
      have hother : (relaxation.loosened level machine notices).trace = false := htrace
      rw [Machine.enter_of_not_trace hother]
      rw [Machine.enter_of_not_trace htrace] at hleads ⊢
      exact ⟨notices, rfl,
        { beside with
          depth := hdepth
          confined := beside.confined.keep rfl rfl rfl
          leads := hleads }⟩
  | true =>
      have hother : (relaxation.loosened level machine notices).trace = true := htrace
      rw [Machine.enter_of_trace hother]
      rw [Machine.enter_of_trace htrace] at hleads ⊢
      refine ⟨.log (function.record (relaxation.depth + (level + 1))) :: notices, rfl, ?_⟩
      exact
        { depth := hdepth
          maxDepth := beside.maxDepth
          checked := beside.checked
          told := by
            let added := [Notice.log (function.record (machine.depth + 1))]
            let more := [Notice.log (function.record (relaxation.depth + (level + 1)))]
            have hsame : more.map Notice.withoutDepth = added.map Notice.withoutDepth :=
              congrArg (· :: []) (Notice.withoutDepth_record function _ _)
            refine beside.told.append hsame fun hequal => ?_
            simp only [more, added, hequal, hdepth]
          confined := beside.confined.keep rfl rfl rfl
          leads := hleads }

theorem leave (beside : relaxation.Beside (level + 1) machine notices) :
    relaxation.Beside level machine.leave notices where
  depth := by
    have hlevel := beside.depth
    simp only [Machine.leave]
    omega
  maxDepth := beside.maxDepth
  checked := beside.checked
  told := beside.told
  confined := beside.confined.keep rfl rfl rfl
  leads := beside.leads.step (.nest _)

section Relaxed

variable {start : Machine} {allowed : Builtin → Prop} {area : Set Nat}
  {confined : start.Confined allowed area} {depth : Nat} {maxDepth : Int} {checked : Bool}
  {hdepth : depth ≤ start.depth} {hlimit : start.maxDepth ≤ maxDepth}
  {hchecked : checked = true → start.checked = true}
  (beside : (confined.relaxed hdepth hlimit hchecked).Beside 0 machine notices)

include beside

theorem withoutDepth_eq :
    notices.map Notice.withoutDepth = machine.world.notices.map Notice.withoutDepth := by
  obtain ⟨added, more, hadded, hmore, hsame, -⟩ := beside.told
  rw [hadded, hmore, List.map_append, List.map_append, hsame]
  rfl

/-- Where nesting is limited in the same way, only the checking of arithmetic can differ. -/
theorem loosened_eq (hsame : (confined.relaxed hdepth hlimit hchecked).SameDepth) :
    (confined.relaxed hdepth hlimit hchecked).loosened 0 machine notices =
      { machine with checked } := by
  obtain ⟨added, more, hadded, hmore, -, heq⟩ := beside.told
  have hnotices : notices = machine.world.notices := by
    rw [hadded, hmore, heq hsame.1]
    rfl
  have hdepth : depth = machine.depth := hsame.1.trans beside.depth.symm
  have hlimit : maxDepth = machine.maxDepth := hsame.2.trans beside.maxDepth.symm
  simp only [loosened, Machine.Confined.relaxed, hnotices, hdepth, hlimit, Nat.add_zero]

end Relaxed

end Beside

/-! ### Actions made of actions -/

namespace Agree

variable {α β : Type} {level : Nat} {good : α → Prop} {good' : β → Prop} {first second : Run α}

theorem pure {value : α} (hgood : good value) :
    relaxation.Agree level good (Pure.pure value) (Pure.pure value) :=
  fun _ _ beside => .ok hgood beside

/-- What comes next may count on the machine that the first action left. -/
theorem bindFrom {next next' : α → Run β} (hfirst : relaxation.Agree level good first second)
    (hnext : ∀ before value machine notices, first before = .ok value machine → good value →
      relaxation.Beside level machine notices →
      relaxation.Alike level good' (next value machine)
        (next' value (relaxation.loosened level machine notices))) :
    relaxation.Agree level good' (first >>= next) (second >>= next') := by
  intro machine notices beside
  have halike := hfirst machine notices beside
  change relaxation.Alike level good' (EStateM.bind first next machine)
    (EStateM.bind second next' (relaxation.loosened level machine notices))
  unfold EStateM.bind
  generalize hresult : first machine = result at halike ⊢
  generalize second (relaxation.loosened level machine notices) = result' at halike ⊢
  cases halike with
  | ok hgood hend => exact hnext machine _ _ _ hresult hgood hend
  | error hend => exact .error hend
  | cut hcut hleads => exact .cut hcut hleads

theorem bind {next next' : α → Run β} (hfirst : relaxation.Agree level good first second)
    (hnext : ∀ value, good value → relaxation.Agree level good' (next value) (next' value)) :
    relaxation.Agree level good' (first >>= next) (second >>= next') :=
  hfirst.bindFrom fun _ value machine notices _ hgood beside =>
    hnext value hgood machine notices beside

theorem observe {next next' : Machine → Run β}
    (hnext : ∀ machine notices, relaxation.Beside level machine notices →
      relaxation.Agree level good' (next machine)
        (next' (relaxation.loosened level machine notices))) :
    relaxation.Agree level good' (get >>= next) (get >>= next') :=
  fun machine notices beside => hnext machine notices beside machine notices beside

theorem error (error : Error) :
    relaxation.Agree level good (throw (.error error)) (throw (.error error)) :=
  fun _ _ beside => .error beside

theorem raise (reason : Reason) :
    relaxation.Agree level good (Run.raise reason) (Run.raise reason) := error _

theorem raiseBecause (reason : Reason) (cause : Bytes) :
    relaxation.Agree level good (Run.raiseBecause reason cause) (Run.raiseBecause reason cause) :=
  error _

theorem ite {condition : Prop} [Decidable condition] {other other' : Run α}
    (hthen : relaxation.Agree level good first second)
    (helse : relaxation.Agree level good other other') :
    relaxation.Agree level good (if condition then first else other)
      (if condition then second else other') := by
  split
  · exact hthen
  · exact helse

/-! ### The store -/

theorem onStore {action : StoreM α} (htrims : Store.Trimming action) :
    relaxation.Agree level (fun _ => True) (Run.onStore action) (Run.onStore action) := by
  intro machine notices beside
  cases haction : action machine.store with
  | ok value after =>
      have hfirst : Run.onStore action machine = .ok value { machine with store := after } := by
        simp only [Run.onStore, haction]
      have hsecond : Run.onStore action (relaxation.loosened level machine notices) =
          .ok value (relaxation.loosened level { machine with store := after } notices) := by
        simp only [Run.onStore, loosened, haction]
      rw [hfirst, hsecond]
      exact .ok trivial (beside.setStore (htrims.ok haction))
  | error fault after =>
      have hfirst : Run.onStore action machine =
          .error (.fault fault) { machine with store := after } := by
        simp only [Run.onStore, haction]
      rw [hfirst]
      exact .cut trivial (beside.leads.step (.trim (htrims.error haction)))

theorem tryOnStore {action : StoreM (Except Reason α)} (htrims : Store.Trimming action) :
    relaxation.Agree level (fun _ => True) (Run.tryOnStore action) (Run.tryOnStore action) := by
  refine (onStore htrims).bind fun result _ => ?_
  cases result with
  | ok value => exact pure trivial
  | error reason => exact raise reason

theorem retain (value : Value) :
    relaxation.Agree level (fun _ => True) (Run.retain value) (Run.retain value) :=
  onStore (Store.trimming_retain value)

theorem release (value : Value) :
    relaxation.Agree level (fun _ => True) (Run.release value) (Run.release value) :=
  onStore (Store.trimming_release value)

theorem intern (contents : Bytes) :
    relaxation.Agree level (fun _ => True) (Run.onStore (Store.intern contents))
      (Run.onStore (Store.intern contents)) :=
  onStore (Store.trimming_intern contents)

/-- Both release a value at their end. -/
theorem released {value : Value} {machine : Machine} {notices : List Notice}
    (beside : relaxation.Beside level machine notices)
    {ended : Machine → EStateM.Result Stop Machine α}
    (hended : ∀ after notices, relaxation.Beside level after notices →
      relaxation.Alike level good (ended after) (ended (relaxation.loosened level after notices))) :
    relaxation.Alike level good
      (match Run.release value machine with
      | .ok _ after => ended after
      | .error stop after => .error stop after)
      (match Run.release value (relaxation.loosened level machine notices) with
      | .ok _ after => ended after
      | .error stop after => .error stop after) := by
  have halike := release value machine notices beside
  generalize Run.release value machine = result at halike ⊢
  generalize Run.release value (relaxation.loosened level machine notices) = result' at halike ⊢
  cases halike with
  | ok _ hend => exact hended _ _ hend
  | error hend => exact .error hend
  | cut hcut hleads => exact .cut hcut hleads

/-- A run that is cut off stays cut off when it releases a value at its end. -/
theorem cut_released {value : Value} {stop : Stop} {machine : Machine}
    (hcut : relaxation.Cuts stop) (hleads : relaxation.start.LeadsTo machine)
    (result : EStateM.Result Stop Machine α) :
    relaxation.Alike level good
      (match Run.release value machine with
      | .ok _ after => .error stop after
      | .error stop after => .error stop after) result := by
  obtain ⟨store, htrims, hrelease | ⟨fault, hrelease⟩⟩ := Run.release_trims value machine
  · rw [hrelease]
    exact .cut hcut (hleads.step (.trim htrims))
  · rw [hrelease]
    exact .cut trivial (hleads.step (.trim htrims))

theorem deferring {value : Value} (haction : relaxation.Agree level good first second) :
    relaxation.Agree level good (Run.deferring (Run.release value) first)
      (Run.deferring (Run.release value) second) := by
  intro machine notices beside
  have halike := haction machine notices beside
  unfold Run.deferring
  generalize first machine = result at halike ⊢
  generalize second (relaxation.loosened level machine notices) = result' at halike ⊢
  cases halike with
  | ok hgood hend => exact released hend fun _ _ beside => .ok hgood beside
  | error hend => exact released hend fun _ _ beside => .error beside
  | cut hcut hleads => exact cut_released hcut hleads _

theorem concluding {value : Value} (haction : relaxation.Agree level good first second) :
    relaxation.Agree level good (Run.concluding (Run.release value) first)
      (Run.concluding (Run.release value) second) := by
  intro machine notices beside
  have halike := haction machine notices beside
  unfold Run.concluding
  generalize first machine = result at halike ⊢
  generalize second (relaxation.loosened level machine notices) = result' at halike ⊢
  cases halike with
  | ok hgood hend => exact released hend fun _ _ beside => .ok hgood beside
  | error hend => exact released hend fun _ _ beside => .error beside
  | @cut stop _ _ hcut hleads =>
      cases stop with
      | error error => exact cut_released hcut hleads _
      | fault fault => exact .cut hcut hleads
      | exhausted => exact .cut hcut hleads

theorem onError {value : Value} (haction : relaxation.Agree level good first second) :
    relaxation.Agree level good (Run.onError (Run.release value) first)
      (Run.onError (Run.release value) second) := by
  intro machine notices beside
  have halike := haction machine notices beside
  unfold Run.onError
  generalize first machine = result at halike ⊢
  generalize second (relaxation.loosened level machine notices) = result' at halike ⊢
  cases halike with
  | ok hgood hend => exact .ok hgood hend
  | error hend => exact released hend fun _ _ beside => .error beside
  | @cut stop _ _ hcut hleads =>
      cases stop with
      | error error => exact cut_released hcut hleads _
      | fault fault => exact .cut hcut hleads
      | exhausted => exact .cut hcut hleads

/-! ### The cells -/

theorem fetch (name : Bytes) :
    relaxation.Agree level (fun _ => True) (Run.fetch name) (Run.fetch name) :=
  fun _ _ beside => .ok trivial (beside.fetch name)

theorem read (cell : Nat) :
    relaxation.AgreeValue level (Run.read cell) (Run.read cell) := by
  refine observe fun machine notices beside => ?_
  dsimp only [loosened]
  cases hvalue : machine.environment.value? cell with
  | none => exact raise _
  | some value =>
      refine (retain value).bind fun _ _ => ?_
      exact pure (beside.confined.cells cell value hvalue)

theorem assign {value : Value} (hvalue : value.Within relaxation.area) (cell : Nat) :
    relaxation.Agree level (fun _ => True) (Run.assign cell value) (Run.assign cell value) := by
  refine observe fun machine notices beside => ?_
  have hassign : relaxation.Agree level (fun _ => True)
      (modify fun machine : Machine =>
        { machine with environment := machine.environment.assign cell value })
      (modify fun machine : Machine =>
        { machine with environment := machine.environment.assign cell value }) :=
    fun _ _ beside => .ok trivial (beside.assign hvalue cell)
  refine hassign.bind fun _ _ => ?_
  dsimp only [loosened]
  cases machine.environment.value? cell with
  | none => exact pure trivial
  | some previous => exact release previous

/-! ### The outside -/

theorem askWorld {ask : World → α × World} (hblind : World.Blind ask) :
    relaxation.Agree level (fun _ => True)
      (modifyGet fun machine : Machine =>
        ((ask machine.world).1, { machine with world := (ask machine.world).2 }))
      (modifyGet fun machine : Machine =>
        ((ask machine.world).1, { machine with world := (ask machine.world).2 })) := by
  intro machine notices beside
  obtain ⟨added, hadded, hask⟩ := hblind machine.world
  have hother := hask notices
  change relaxation.Alike level _ (.ok _ _)
    (.ok (ask { machine.world with notices }).1
      { relaxation.loosened level machine notices with
        world := (ask { machine.world with notices }).2 })
  rw [hother]
  exact .ok trivial (beside.setWorld hadded)

theorem flush : relaxation.Agree level (fun _ => True) Run.flush Run.flush := by
  refine (askWorld World.blind_flush).bind fun failure _ => ?_
  cases failure with
  | some text => exact raiseBecause _ _
  | none => exact pure trivial

theorem write (bytes : Bytes) :
    relaxation.Agree level (fun _ => True) (Run.write bytes) (Run.write bytes) := by
  refine (askWorld (World.blind_write bytes)).bind fun failure _ => ?_
  cases failure with
  | some text => exact raiseBecause _ _
  | none => exact flush

theorem log (record : LogRecord) :
    relaxation.Agree level (fun _ => True) (Run.log record) (Run.log record) :=
  askWorld (World.blind_log record)

theorem drawRandom : relaxation.Agree level (fun _ => True) Run.drawRandom Run.drawRandom :=
  fun _ _ beside => .ok trivial (beside.draw _)

/-! ### Expressions -/

theorem fetchAll (names : List Bytes) :
    relaxation.Agree level (fun _ => True) (names.forM fun name => do let _ ← Run.fetch name)
      (names.forM fun name => do let _ ← Run.fetch name) := by
  induction names with
  | nil => exact pure trivial
  | cons name rest ih =>
      have hname : relaxation.Agree level (fun _ => True) (do let _ ← Run.fetch name)
          (do let _ ← Run.fetch name) := (fetch name).bind fun _ _ => pure trivial
      exact hname.bind fun _ _ => ih

mutual

theorem load (tree : Tree)
    (htree : ∀ function, tree.Applies function → function.IsAmong relaxation.allowed) :
    relaxation.AgreeValue level tree.load tree.load := by
  cases tree with
  | null | boolean flag | number word => exact pure (Value.within_of_isLiteral rfl)
  | text contents =>
      exact (intern contents).bind fun _ _ => pure (Value.within_of_isLiteral rfl)
  | «variable» name => exact (fetch name).bind fun _ _ => pure fun index heq => nomatch heq
  | apply function args =>
      have hargs : ∀ tree ∈ args, ∀ function, tree.Applies function →
          function.IsAmong relaxation.allowed :=
        fun tree hmem other happlies => htree other (.argument hmem happlies)
      refine (loadAll args hargs).bindFrom ?_
      intro before values machine notices hload hvalues beside
      have holder : ∀ child, .expr child ∈ values → child < machine.store.nodes.size := by
        obtain ⟨values', after, hload', -, hstands⟩ := Machine.stands_loadAll args before
        cases hload'.symm.trans hload
        exact fun child hmem => hstands.lt_size hmem
      refine .ok ?_ (beside.pushNode (htree function .self) hvalues holder)
      rintro index ⟨⟩
      exact beside.confined.fresh _ le_rfl

theorem loadAll (trees : List Tree)
    (htrees : ∀ tree ∈ trees, ∀ function, tree.Applies function →
      function.IsAmong relaxation.allowed) :
    relaxation.Agree level (fun values => ∀ value ∈ values, value.Within relaxation.area)
      (Tree.loadAll trees) (Tree.loadAll trees) := by
  cases trees with
  | nil => exact pure (by simp)
  | cons tree rest =>
      obtain ⟨htree, hrest⟩ := List.forall_mem_cons.mp htrees
      refine (load tree htree).bind fun value hvalue => ?_
      refine (loadAll rest hrest).bind fun values hvalues => ?_
      exact pure (List.forall_mem_cons.mpr ⟨hvalue, hvalues⟩)

end

end Agree

end Relaxation

end KnightLang
