import KnightLang.Proofs.Limits
import KnightLang.Proofs.Logic.Evaluation

/-!
The applications that a run enters, in order, and accounts of a run that are kept along them. An
account says what holds of a stretch of a run; to keep one it is enough to say how it begins, how
two stretches join, and what entering an application adds.
-/

namespace KnightLang

/-- An application that was entered, how many more may nest inside it, and the machine right after
it was entered. -/
structure Entry where
  node : Nat
  function : Function
  budget : Nat
  inside : Machine

/-- The evaluator of what is inside an application. -/
def Entry.evaluator (entry : Entry) (fuel : Nat) : Evaluator :=
  { budget := entry.budget, fuel, apply := Evaluator.applyWithin fuel entry.budget }

/-- The applications that a plan enters from a machine when at most `budget` of them may nest, in
the order in which they are entered. What does not depend on how applications are applied enters
none. -/
inductive Enters (fuel : Nat) :
    (budget : Nat) → {α : Type} → Plan α → Machine → List Entry → Prop where
  | alone {budget : Nat} {α : Type} (action : Run α) (machine : Machine) :
      Enters fuel budget (fun _ => action) machine []
  | bind_ok {budget : Nat} {α β : Type} {first : Plan α} {next : α → Plan β}
      {machine middle : Machine} {value : α} {entries more : List Entry} :
      Enters fuel budget first machine entries →
      first (Evaluator.applyWithin fuel budget) machine = .ok value middle →
      Enters fuel budget (next value) middle more →
      Enters fuel budget (fun apply => first apply >>= fun value => next value apply) machine
        (entries ++ more)
  | bind_error {budget : Nat} {α β : Type} {first : Plan α} {next : α → Plan β}
      {machine after : Machine} {stop : Stop} {entries : List Entry} :
      Enters fuel budget first machine entries →
      first (Evaluator.applyWithin fuel budget) machine = .error stop after →
      Enters fuel budget (fun apply => first apply >>= fun value => next value apply) machine
        entries
  | deferring {budget : Nat} {α : Type} {plan : Plan α} {machine : Machine} {entries : List Entry}
      (cleanup : Run PUnit) :
      Enters fuel budget plan machine entries →
      Enters fuel budget (fun apply => Run.deferring cleanup (plan apply)) machine entries
  | concluding {budget : Nat} {α : Type} {plan : Plan α} {machine : Machine} {entries : List Entry}
      (cleanup : Run PUnit) :
      Enters fuel budget plan machine entries →
      Enters fuel budget (fun apply => Run.concluding cleanup (plan apply)) machine entries
  | onError {budget : Nat} {α : Type} {plan : Plan α} {machine : Machine} {entries : List Entry}
      (cleanup : Run PUnit) :
      Enters fuel budget plan machine entries →
      Enters fuel budget (fun apply => Run.onError cleanup (plan apply)) machine entries
  | tooDeep (node : Nat) (machine : Machine) :
      Enters fuel 0 (fun apply => apply node) machine []
  | dangling {budget node : Nat} {machine : Machine} :
      machine.store.node? node = none →
      Enters fuel (budget + 1) (fun apply => apply node) machine []
  | application {budget node : Nat} {machine : Machine} {found : Node} {inner : List Entry} :
      machine.store.node? node = some found →
      Enters fuel budget
        (fun apply => Evaluator.act { budget, fuel, apply } node found.function.action)
        (machine.enter found.function) inner →
      Enters fuel (budget + 1) (fun apply => apply node) machine
        ({ node, function := found.function, budget, inside := machine.enter found.function } ::
          inner)

/-! ### What is left alone -/

/-- A run gave a value, or came to a stop that was expected. -/
def Stop.Expected (expects : Stop → Prop) : Option Stop → Prop
  | none => True
  | some stop => expects stop

/-- As many applications run inside each other as before, under the same settings. -/
structure Machine.Level (before after : Machine) : Prop where
  depth : after.depth = before.depth
  maxDepth : after.maxDepth = before.maxDepth
  trace : after.trace = before.trace

namespace Machine.Level

theorem refl (machine : Machine) : machine.Level machine := ⟨rfl, rfl, rfl⟩

theorem trans {before middle after : Machine} (first : before.Level middle)
    (second : middle.Level after) : before.Level after where
  depth := second.depth.trans first.depth
  maxDepth := second.maxDepth.trans first.maxDepth
  trace := second.trace.trans first.trace

end Machine.Level

/-- What a run can come to: the machines it passes through, the values it may evaluate and the
functions it may apply. -/
structure Realm where
  holds : Machine → Prop
  within : Value → Prop
  allows : Function → Prop
  within_plain : ∀ {value : Value}, (∀ index, value ≠ .expr index) → within value
  within_new : ∀ {machine : Machine}, holds machine → within (.expr machine.store.nodes.size)
  within_cell : ∀ {machine : Machine} {cell : Nat} {value : Value}, holds machine →
    machine.environment.value? cell = some value → within value
  within_arg : ∀ {machine : Machine} {index : Nat} {node : Node} {value : Value}, holds machine →
    within (.expr index) → machine.store.node? index = some node → value ∈ node.args →
    within value
  allows_node : ∀ {machine : Machine} {index : Nat} {node : Node}, holds machine →
    within (.expr index) → machine.store.node? index = some node → allows node.function
  allows_listed : ∀ {machine : Machine} {byte : UInt8} {function : Function}, holds machine →
    machine.functions.find? byte = some function → allows function
  keep : ∀ {machine after : Machine}, holds machine → after.functions = machine.functions →
    after.environment = machine.environment → after.store = machine.store → holds after
  trim : ∀ {machine : Machine} {store : Store}, holds machine → machine.store.Trims store →
    holds { machine with store }
  push : ∀ {machine : Machine} {function : Function} {args : List Value}, holds machine →
    allows function → (∀ value ∈ args, within value) →
    holds { machine with
      store := { machine.store with
        nodes := machine.store.nodes.push { function, args, refs := 1 } } }
  fetch : ∀ {machine : Machine} (name : Bytes), holds machine →
    holds { machine with environment := (machine.environment.fetch name).2 }
  assign : ∀ {machine : Machine} {value : Value} (cell : Nat), holds machine → within value →
    holds { machine with environment := machine.environment.assign cell value }

namespace Realm

/-- Any machine, any value and any function. -/
def all : Realm where
  holds _ := True
  within _ := True
  allows _ := True
  within_plain _ := trivial
  within_new _ := trivial
  within_cell _ _ := trivial
  within_arg _ _ _ _ := trivial
  allows_node _ _ _ := trivial
  allows_listed _ _ := trivial
  keep _ _ _ _ := trivial
  trim _ _ := trivial
  push _ _ _ := trivial
  fetch _ _ := trivial
  assign _ _ _ := trivial

/-- Machines that are confined to an area of applications of allowed operations. -/
def confined (allowed : Builtin → Prop) (area : Set Nat) : Realm where
  holds machine := machine.Confined allowed area
  within value := value.Within area
  allows function := function.IsAmong allowed
  within_plain hplain index heq := absurd heq (hplain index)
  within_new hconfined index heq := by
    cases heq
    exact hconfined.fresh _ le_rfl
  within_cell hconfined hvalue := hconfined.cells _ _ hvalue
  within_arg hconfined hindex hnode hmem := (hconfined.nodes _ _ (hindex _ rfl) hnode).2 _ hmem
  allows_node hconfined hindex hnode := (hconfined.nodes _ _ (hindex _ rfl) hnode).1
  allows_listed hconfined hfind := hconfined.functions _ _ hfind
  keep hconfined := hconfined.keep
  trim hconfined := hconfined.trim
  push hconfined := hconfined.pushNode 1
  fetch name hconfined := hconfined.fetch name
  assign cell hconfined hvalue := hconfined.assign hvalue cell

variable (realm : Realm)

theorem within_literal {value : Value} (hliteral : value.isLiteral = true) :
    realm.within value := by
  refine realm.within_plain ?_
  rintro index rfl
  cases hliteral

theorem within_operand {machine : Machine} {node : Nat} (hholds : realm.holds machine)
    (hnode : realm.within (.expr node)) (position : Nat) :
    realm.within (machine.store.arg node position) := by
  unfold Store.arg
  split
  · next found hfound =>
      rw [List.getD_eq_getElem?_getD]
      cases harg : found.args[position]? with
      | none => exact realm.within_literal rfl
      | some value => exact realm.within_arg hholds hnode hfound (List.mem_of_getElem? harg)
  · exact realm.within_literal rfl

/-- A machine goes over into another of the realm without an application or a line of input. -/
structure Calm (before after : Machine) : Prop where
  holds : realm.holds after
  level : before.Level after
  quiet : before.world.Quiet after.world

theorem calm_trim {machine : Machine} {store : Store} (hholds : realm.holds machine)
    (htrims : machine.store.Trims store) : realm.Calm machine { machine with store } where
  holds := realm.trim hholds htrims
  level := ⟨rfl, rfl, rfl⟩
  quiet := .refl _

/-- A stretch of a run has ended, and something can be said about its stop and the world it
left. -/
inductive Ends {α : Type} (good : α → Prop) (before : Machine)
    (said : Option Stop → World → Prop) : EStateM.Result Stop Machine α → Prop where
  | ok {value : α} {after : Machine} :
      good value → realm.holds after → before.Level after → said none after.world →
      Ends good before said (.ok value after)
  | error {error : Error} {after : Machine} :
      realm.holds after → before.Level after → said (some (.error error)) after.world →
      Ends good before said (.error (.error error) after)
  | cut {stop : Stop} {after : Machine} :
      stop.IsCut → realm.holds after → said (some stop) after.world →
      Ends good before said (.error stop after)

namespace Ends

variable {realm} {α : Type} {good : α → Prop} {before middle after : Machine}
  {said other : Option Stop → World → Prop} {result : EStateM.Result Stop Machine α}

theorem stop {stop : Stop} (hholds : realm.holds after) (hlevel : before.Level after)
    (hsaid : said (some stop) after.world) : realm.Ends good before said (.error stop after) := by
  cases stop with
  | error error => exact .error hholds hlevel hsaid
  | fault fault => exact .cut trivial hholds hsaid
  | exhausted => exact .cut trivial hholds hsaid

/-- What is said about a stretch can be said about a longer one that begins on the same level. -/
theorem extend (hends : realm.Ends good middle said result) (hlevel : before.Level middle)
    (hother : ∀ outcome world, said outcome world → other outcome world) :
    realm.Ends good before other result := by
  cases hends with
  | ok hgood hholds hmore hsaid =>
      exact .ok hgood hholds (hlevel.trans hmore) (hother _ _ hsaid)
  | error hholds hmore hsaid => exact .error hholds (hlevel.trans hmore) (hother _ _ hsaid)
  | cut hstop hholds hsaid => exact .cut hstop hholds (hother _ _ hsaid)

end Ends

end Realm

/-! ### Accounts -/

/-- Something that can be said about any stretch of a run: about the machine it begins with, the
applications it enters, the stop it ends with if it gives no value, and the world afterwards. -/
structure Account (realm : Realm) (fuel : Nat) where
  holds : Machine → List Entry → Option Stop → World → Prop
  /-- The stops that need no explanation. -/
  expects : Stop → Prop
  expects_ordinary : ∀ {stop : Stop}, stop.IsOrdinary → expects stop
  expects_host : ∀ {function : Function} {action : HostAction} (stop : Stop),
    realm.allows function → function.action = .host action → expects stop
  still : ∀ {before : Machine} {outcome : Option Stop} {after : World},
    before.world.Quiet after → Stop.Expected expects outcome → holds before [] outcome after
  append : ∀ {before middle : Machine} {first second : List Entry} {outcome : Option Stop}
    {after : World}, before.Level middle → holds before first none middle.world →
    holds middle second outcome after → holds before (first ++ second) outcome after
  settle : ∀ {before : Machine} {entries : List Entry} {outcome : Option Stop}
    {middle after : World}, holds before entries outcome middle → middle.Quiet after →
    holds before entries outcome after
  fault : ∀ {before : Machine} {entries : List Entry} {outcome : Option Stop} {after : World}
    (fault : Fault), holds before entries outcome after →
    holds before entries (some (.fault fault)) after
  /-- An application other than PROMPT adds itself to what is inside it. -/
  application : ∀ {machine : Machine} {entry : Entry} {inner : List Entry}
    {outcome : Option Stop} {after : World}, (machine.depth : Int) < machine.maxDepth →
    entry.inside = machine.enter entry.function → entry.function.action ≠ .builtin .prompt →
    holds entry.inside inner outcome after → holds machine (entry :: inner) outcome after
  /-- PROMPT reads a line unless the output cannot be flushed. -/
  prompt : ∀ {machine : Machine} {entry : Entry} {outcome : Option Stop} {after : World},
    (machine.depth : Int) < machine.maxDepth → entry.inside = machine.enter entry.function →
    entry.function.action = .builtin .prompt → after.traced = entry.inside.world.traced →
    (after.input = if entry.inside.world.flush.1 = none then entry.inside.world.input.readLine.2
      else entry.inside.world.input) →
    Stop.Expected expects outcome → holds machine [entry] outcome after
  /-- QUIT stops with the number that its argument converts to. -/
  quit : ∀ {machine : Machine} {entry : Entry} {inner : List Entry} {status : Int64}
    {last : Machine}, entry.function.action = .builtin .quit →
    Enters fuel entry.budget
      (fun apply => Evaluator.toNumber { budget := entry.budget, fuel, apply }
        (entry.inside.store.arg entry.node 0)) entry.inside inner →
    (entry.evaluator fuel).toNumber (entry.inside.store.arg entry.node 0) entry.inside =
      .ok status last →
    holds machine (entry :: inner) none last.world →
    holds machine (entry :: inner) (some (.error (.raise (.quit status)))) last.world

namespace Account

variable {realm : Realm} {fuel : Nat} (account : Account realm fuel)

/-- Wherever a plan starts in the realm with just this much room, the applications it enters account
for what it does. -/
def Keeps (budget : Nat) {α : Type} (good : α → Prop) (plan : Plan α) : Prop :=
  ∀ machine, realm.holds machine → (machine.maxDepth - machine.depth).toNat = budget →
    ∃ entries, Enters fuel budget plan machine entries ∧
      realm.Ends good machine (account.holds machine entries)
        (plan (Evaluator.applyWithin fuel budget) machine)

variable {account} {budget : Nat} {α β : Type} {good : α → Prop} {good' : β → Prop}

/-! ### Ends of stretches -/

namespace Keeps

variable {before middle : Machine} {entries : List Entry}

/-- A value is released at the end of a stretch. -/
theorem released {value : Value} {outcome : Option Stop}
    {ended : Machine → EStateM.Result Stop Machine α} (hholds : realm.holds middle)
    (haccount : account.holds before entries outcome middle.world)
    (hended : ∀ after, realm.Calm middle after →
      account.holds before entries outcome after.world →
      realm.Ends good before (account.holds before entries) (ended after)) :
    realm.Ends good before (account.holds before entries)
      (match Run.release value middle with
      | .ok _ after => ended after
      | .error stop after => .error stop after) := by
  obtain ⟨store, htrims, hrelease | ⟨fault, hrelease⟩⟩ := Run.release_trims value middle
  · have hcalm := realm.calm_trim hholds htrims
    rw [hrelease]
    exact hended _ hcalm (account.settle haccount hcalm.quiet)
  · have hcalm := realm.calm_trim hholds htrims
    rw [hrelease]
    exact .cut trivial hcalm.holds (account.fault fault (account.settle haccount hcalm.quiet))

theorem released_ok {value : Value} {result : α} (hgood : good result)
    (hholds : realm.holds middle) (hlevel : before.Level middle)
    (haccount : account.holds before entries none middle.world) :
    realm.Ends good before (account.holds before entries)
      (match Run.release value middle with
      | .ok _ after => .ok result after
      | .error stop after => .error stop after) :=
  released hholds haccount fun _ hcalm hafter =>
    .ok hgood hcalm.holds (hlevel.trans hcalm.level) hafter

theorem released_error {value : Value} {error : Error} (hholds : realm.holds middle)
    (hlevel : before.Level middle)
    (haccount : account.holds before entries (some (.error error)) middle.world) :
    realm.Ends good before (account.holds before entries)
      (match Run.release value middle with
      | .ok _ after => .error (.error error) after
      | .error stop after => .error stop after) :=
  released hholds haccount fun _ hcalm hafter =>
    .error hcalm.holds (hlevel.trans hcalm.level) hafter

/-! ### Plans made of plans -/

theorem bind {first : Plan α} {next : α → Plan β} (hfirst : account.Keeps budget good first)
    (hnext : ∀ value, good value → account.Keeps budget good' (next value)) :
    account.Keeps budget good' fun apply => first apply >>= fun value => next value apply := by
  intro machine hholds hbudget
  obtain ⟨entries, henters, hends⟩ := hfirst machine hholds hbudget
  change ∃ entries, _ ∧
    realm.Ends good' machine (account.holds machine entries) (EStateM.bind _ _ machine)
  unfold EStateM.bind
  generalize hresult : first (Evaluator.applyWithin fuel budget) machine = result at hends ⊢
  cases hends with
  | @ok value middle hgood hmiddle hlevel haccount =>
      -- What comes next has the same room, as the first part left all that it entered.
      have hroom : (middle.maxDepth - middle.depth).toNat = budget := by
        rw [hlevel.maxDepth, hlevel.depth]
        exact hbudget
      obtain ⟨more, hmore, hlast⟩ := hnext value hgood middle hmiddle hroom
      refine ⟨entries ++ more, .bind_ok henters hresult hmore, hlast.extend hlevel ?_⟩
      exact fun _ _ hafter => account.append hlevel haccount hafter
  | error hafter hlevel haccount =>
      exact ⟨entries, .bind_error henters hresult, .error hafter hlevel haccount⟩
  | cut hstop hafter haccount =>
      exact ⟨entries, .bind_error henters hresult, .cut hstop hafter haccount⟩

theorem deferring {value : Value} {plan : Plan α} (hplan : account.Keeps budget good plan) :
    account.Keeps budget good fun apply => Run.deferring (Run.release value) (plan apply) := by
  intro machine hholds hbudget
  obtain ⟨entries, henters, hends⟩ := hplan machine hholds hbudget
  refine ⟨entries, .deferring _ henters, ?_⟩
  change realm.Ends good machine (account.holds machine entries) (Run.deferring _ _ machine)
  unfold Run.deferring
  generalize plan (Evaluator.applyWithin fuel budget) machine = result at hends ⊢
  cases hends with
  | ok hgood hafter hlevel haccount => exact released_ok hgood hafter hlevel haccount
  | error hafter hlevel haccount => exact released_error hafter hlevel haccount
  | cut hstop hafter haccount =>
      exact released hafter haccount fun _ hcalm hlast => .cut hstop hcalm.holds hlast

theorem concluding {value : Value} {plan : Plan α} (hplan : account.Keeps budget good plan) :
    account.Keeps budget good fun apply => Run.concluding (Run.release value) (plan apply) := by
  intro machine hholds hbudget
  obtain ⟨entries, henters, hends⟩ := hplan machine hholds hbudget
  refine ⟨entries, .concluding _ henters, ?_⟩
  change realm.Ends good machine (account.holds machine entries) (Run.concluding _ _ machine)
  unfold Run.concluding
  generalize plan (Evaluator.applyWithin fuel budget) machine = result at hends ⊢
  cases hends with
  | ok hgood hafter hlevel haccount => exact released_ok hgood hafter hlevel haccount
  | error hafter hlevel haccount => exact released_error hafter hlevel haccount
  | @cut stop _ hstop hafter haccount =>
      cases stop with
      | error error => exact hstop.elim
      | fault fault => exact .cut hstop hafter haccount
      | exhausted => exact .cut hstop hafter haccount

theorem onError {value : Value} {plan : Plan α} (hplan : account.Keeps budget good plan) :
    account.Keeps budget good fun apply => Run.onError (Run.release value) (plan apply) := by
  intro machine hholds hbudget
  obtain ⟨entries, henters, hends⟩ := hplan machine hholds hbudget
  refine ⟨entries, .onError _ henters, ?_⟩
  change realm.Ends good machine (account.holds machine entries) (Run.onError _ _ machine)
  unfold Run.onError
  generalize plan (Evaluator.applyWithin fuel budget) machine = result at hends ⊢
  cases hends with
  | ok hgood hafter hlevel haccount => exact .ok hgood hafter hlevel haccount
  | error hafter hlevel haccount => exact released_error hafter hlevel haccount
  | @cut stop _ hstop hafter haccount =>
      cases stop with
      | error error => exact hstop.elim
      | fault fault => exact .cut hstop hafter haccount
      | exhausted => exact .cut hstop hafter haccount

/-! ### Actions that enter nothing -/

theorem step {action : Run α}
    (haction : ∀ machine, realm.holds machine → ∃ value after, action machine = .ok value after ∧
      good value ∧ realm.Calm machine after) :
    account.Keeps budget good fun _ => action := by
  intro machine hholds _
  obtain ⟨value, after, hresult, hgood, hcalm⟩ := haction machine hholds
  refine ⟨[], .alone action machine, ?_⟩
  change realm.Ends good machine (account.holds machine []) (action machine)
  rw [hresult]
  exact .ok hgood hcalm.holds hcalm.level (account.still hcalm.quiet trivial)

theorem pure {value : α} (hgood : good value) :
    account.Keeps budget good fun _ => Pure.pure value :=
  step fun machine hholds => ⟨value, machine, rfl, hgood, hholds, .refl _, .refl _⟩

theorem throw {stop : Stop} (hstop : account.expects stop) :
    account.Keeps budget good fun _ => MonadExcept.throw stop := by
  intro machine hholds _
  refine ⟨[], .alone _ machine, ?_⟩
  have haccount : account.holds machine [] (some stop) machine.world :=
    account.still (.refl _) hstop
  exact .stop hholds (.refl _) haccount

theorem onStore {action : StoreM α} (htrims : Store.Trimming action) :
    account.Keeps budget (fun value => ∃ store after, action store = .ok value after)
      fun _ => Run.onStore action := by
  intro machine hholds _
  refine ⟨[], .alone _ machine, ?_⟩
  change realm.Ends _ machine (account.holds machine []) (Run.onStore action machine)
  cases haction : action machine.store with
  | ok value store =>
      have hcalm := realm.calm_trim hholds (htrims.ok haction)
      have hresult : Run.onStore action machine = .ok value { machine with store } := by
        simp only [Run.onStore, haction]
      rw [hresult]
      exact .ok ⟨_, _, haction⟩ hcalm.holds hcalm.level (account.still hcalm.quiet trivial)
  | error fault store =>
      have hcalm := realm.calm_trim hholds (htrims.error haction)
      have hresult : Run.onStore action machine =
          .error (.fault fault) { machine with store } := by
        simp only [Run.onStore, haction]
      rw [hresult]
      exact .cut trivial hcalm.holds
        (account.still hcalm.quiet (account.expects_ordinary trivial))

end Keeps

/-! ### Accounts are logics -/

/-- Applying any application of the realm keeps the account. -/
def Calls (account : Account realm fuel) (budget : Nat) : Prop :=
  ∀ node, realm.within (.expr node) → account.Keeps budget realm.within fun apply => apply node

/-- An account is kept by whatever is made of actions that keep it. PROMPT and QUIT have accounts of
their own. -/
def logic (account : Account realm fuel) (hcalls : account.Calls budget) : Logic budget fuel where
  Keeps good plan := account.Keeps budget good plan
  holds := realm.holds
  allows operation := operation ≠ .prompt ∧ operation ≠ .quit
  acts := True
  lists := realm.allows
  expects := account.expects
  may := realm.within
  becomes _ _ := True
  gives := realm.within
  pure := .pure
  bind := .bind
  look := .step fun machine hholds => ⟨machine, machine, rfl, hholds, hholds, .refl _, .refl _⟩
  throw := .throw
  deferring := .deferring
  concluding := .concluding
  onError := .onError
  onStore _ htrims := .onStore htrims
  addNode _ hfunction hargs := .step fun _ hholds =>
    ⟨_, _, rfl, realm.within_new hholds, realm.push hholds hfunction hargs, ⟨rfl, rfl, rfl⟩,
      .refl _⟩
  fetch _ _ := .step fun _ hholds =>
    ⟨_, _, rfl, trivial, realm.fetch _ hholds, ⟨rfl, rfl, rfl⟩, .refl _⟩
  update cell _ hvalue := .step fun _ hholds =>
    ⟨_, _, rfl, trivial, realm.assign cell hholds hvalue, ⟨rfl, rfl, rfl⟩, .refl _⟩
  askWorld ask _ hask := .step fun machine hholds =>
    ⟨_, _, rfl, trivial, realm.keep hholds rfl rfl rfl, ⟨rfl, rfl, rfl⟩, hask machine.world⟩
  readLine hallows := absurd rfl hallows.1
  drawRandom _ := .step fun _ hholds =>
    ⟨_, _, rfl, trivial, realm.keep hholds rfl rfl rfl, ⟨rfl, rfl, rfl⟩, .refl _⟩
  apply hmay := hcalls _ hmay
  acts_of _ _ := trivial
  lists_of := realm.allows_listed
  expects_ordinary hordinary _ := account.expects_ordinary hordinary
  expects_cut {stop} hcut := account.expects_ordinary (by cases stop <;> trivial)
  expects_quit _ hallows := absurd rfl hallows.2
  expects_stuck limit _ _ := account.expects_ordinary (Error.isOrdinary_raise trivial)
  expects_unread _ hordinary := account.expects_ordinary hordinary
  may_variable _ := realm.within_plain nofun
  may_literal := realm.within_literal
  becomes_literal _ := trivial
  becomes_expr _ := trivial
  becomes_read _ _ := trivial
  gives_literal := realm.within_literal
  gives_may := id
  gives_becomes _ := trivial
  gives_cell := realm.within_cell
  gives_block _ := id

/-- The arguments of an application of the realm are values of the realm. -/
theorem inside_logic (account : Account realm fuel) (hcalls : account.Calls budget) {node : Nat}
    (hnode : realm.within (.expr node)) (converts : Nat → Prop) :
    (account.logic hcalls).Inside node converts where
  may position hholds := realm.within_operand hholds hnode position
  becomes _ _ := trivial

end Account

end KnightLang
