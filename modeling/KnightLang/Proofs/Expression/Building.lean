import KnightLang.Proofs.Expression.Rereading
import KnightLang.Proofs.Restoration

/-!
Expressions that are built while they are read. A token becomes a value as soon as it is read, and
an application is made as soon as its last argument is; if an argument cannot be read, those in
front of it are released. This ends as reading the whole expression first and building it then: with
the same value in the same machine, or with the same failure and nothing of the expression left.
-/

namespace KnightLang

/-- A place in a text, and the machine that what is read there is put into. -/
structure Builder where
  scanner : Scanner
  machine : Machine

abbrev Build := EStateM Stop Builder

namespace Build

variable {α β : Type}

def read (scan : Scan α) : Build α := fun builder =>
  match scan builder.scanner with
  | .ok value scanner => .ok value { builder with scanner }
  | .error error scanner => .error (.error error) { builder with scanner }

def perform (action : Run α) : Build α := fun builder =>
  match action builder.machine with
  | .ok value machine => .ok value { builder with machine }
  | .error stop machine => .error stop { builder with machine }

def releaseAll (values : List Value) : Build PUnit :=
  values.forM fun value => perform (Run.release value)

/-- Builds arguments from the given index on, behind those that are built. If one cannot be read,
all before it are released. -/
def arguments (grammar : Grammar) (expression : Build Value) (function : Function)
    (start : Position) : Nat → Nat → List Value → Build (List Value)
  | _, 0, built => return built
  | index, count + 1, built => fun builder =>
    match expression builder with
    | .ok value builder =>
      arguments grammar expression function start (index + 1) count (built ++ [value]) builder
    | .error (.error error) builder =>
      (do
        releaseAll built
        throw (.error (Scan.argumentError grammar function start index error)) :
          Build (List Value)) builder
    | .error stop builder => .error stop builder

/-- Builds one expression with at most `budget` applications inside each other. -/
def expression (grammar : Grammar) (budget : Nat) : Build Value := do
  let byte ← read (Scan.peekToken grammar)
  let start := (← get).scanner.position
  if Byte.isDigit byte then perform (← read (Scan.number grammar)).load
  else if Byte.isNameStart byte then perform (← read (Scan.identifier grammar)).load
  else if byte == 34 || byte == 39 then perform (← read (Scan.quoted grammar byte)).load
  else
    match ← read (Scan.head grammar byte) with
    | .literal tree => perform tree.load
    | .function function =>
      match budget with
      | 0 =>
        throw (.error (Scan.errorAt grammar start (.expressionDepth grammar.limit) []))
      | budget + 1 => do
        let args ← arguments grammar (expression grammar budget) function start 1 function.arity []
        perform (Run.onStore (Store.addNode function args))

end Build

/-- Parses one expression from a source and builds it on the way. -/
def Run.buildFrom (source : Source) (label : Bytes) : Run (Except Error Value × Source) :=
  fun machine =>
    let grammar := machine.grammar label source.failure
    let builder : Builder := { scanner := { unread := source.unread }, machine }
    match Build.expression grammar grammar.limit.toNat builder with
    | .ok value builder =>
      .ok (.ok value, { source with unread := builder.scanner.unread }) builder.machine
    | .error (.error error) builder =>
      .ok (.error error, { source with unread := builder.scanner.unread }) builder.machine
    | .error stop builder => .error stop builder.machine

namespace Build

variable {α β : Type} {first : Build α} {next : α → Build β} {before after : Builder}

theorem bind_ok {value : α} (hfirst : first before = .ok value after) :
    (first >>= next) before = next value after := by
  simp only [bind, EStateM.bind, hfirst]

theorem bind_error {stop : Stop} (hfirst : first before = .error stop after) :
    (first >>= next) before = .error stop after := by
  simp only [bind, EStateM.bind, hfirst]

end Build

/-! ### Tokens that note nothing -/

namespace Scan

variable {α β : Type}

/-- Wherever it starts and however it ends, reading notes no variable. -/
def Silent (read : Scan α) : Prop := ∀ scanner, namesOf (read scanner) = scanner.names

namespace Silent

theorem pure (value : α) : Silent (Pure.pure value : Scan α) := fun _ => rfl

theorem throw (error : Error) : Silent (MonadExcept.throw error : Scan α) := fun _ => rfl

theorem bind {read : Scan α} {next : α → Scan β} (hread : Silent read)
    (hnext : ∀ value, Silent (next value)) : Silent (read >>= next) := by
  intro scanner
  have hfirst := hread scanner
  cases hresult : read scanner with
  | error error after =>
      rw [hresult] at hfirst
      rw [bind_error hresult]
      exact hfirst
  | ok value middle =>
      rw [hresult] at hfirst
      rw [bind_ok hresult]
      exact (hnext value middle).trans hfirst

theorem observe {next : Scanner → Scan α} (hnext : ∀ scanner, Silent (next scanner)) :
    Silent (get >>= next) := fun scanner => hnext scanner scanner

theorem ite {condition : Prop} [Decidable condition] {read other : Scan α} (hthen : Silent read)
    (helse : Silent other) : Silent (if condition then read else other) := by
  split
  · exact hthen
  · exact helse

end Silent

variable (grammar : Grammar)

theorem silent_takeRun (test : UInt8 → Bool) : Silent (takeRun test) := fun _ => rfl

theorem silent_checkEnd : Silent (checkEnd grammar) := by
  intro scanner
  unfold checkEnd
  split <;> rfl

theorem silent_advance : Silent advance := by
  intro scanner
  unfold advance
  split <;> rfl

theorem silent_peekToken : Silent (peekToken grammar) := by
  intro scanner
  have hcases := peekToken_cases grammar scanner
  cases hresult : peekToken grammar scanner with
  | ok byte after =>
      rw [hresult] at hcases
      exact hcases.1
  | error error after =>
      rw [hresult] at hcases
      exact hcases

theorem silent_number : Silent (number grammar) := by
  intro scanner
  unfold number
  dsimp only
  split <;> split <;> rfl

theorem silent_quoted (quote : UInt8) : Silent (quoted grammar quote) := by
  refine .observe fun start => ?_
  refine silent_advance.bind fun _ => ?_
  refine (silent_takeRun _).bind fun contents => ?_
  refine .observe fun rest => ?_
  refine .ite (.throw _) ?_
  exact silent_advance.bind fun _ => .pure _

theorem silent_head (byte : UInt8) : Silent (head grammar byte) := by
  refine .observe fun start => ?_
  refine .ite ?_ ?_
  · refine silent_advance.bind fun _ => ?_
    refine (silent_takeRun _).bind fun _ => ?_
    refine (silent_checkEnd grammar).bind fun _ => ?_
    refine .ite (.pure _) (.ite (.pure _) (.ite (.pure _) ?_))
    cases grammar.functions.find? byte with
    | none => exact .throw _
    | some function => exact .pure _
  · cases grammar.functions.find? byte with
    | none => exact .throw _
    | some function => exact silent_advance.bind fun _ => .pure _

/-- A variable that cannot be read is not noted. -/
theorem names_of_identifier_error {scanner after : Scanner} {error : Error}
    (hread : identifier grammar scanner = .error error after) : after.names = scanner.names := by
  rcases bind_eq_error hread with hrun | ⟨name, middle, hrun, hrest⟩
  · cases hrun
  · cases hrun
    rcases bind_eq_error hrest with hend | ⟨_, last, -, hlast⟩
    · have hsilent := silent_checkEnd grammar
        { scanner with
          unread := scanner.unread.dropWhile Byte.isNameByte
          position := scanner.position.after (scanner.unread.takeWhile Byte.isNameByte) }
      rwa [hend] at hsilent
    · cases hlast

end Scan

/-! ### Builders beside readers -/

namespace Builder

/-- Some variables were met on the way, and what they need was put into the machine; for the rest,
only the store may be different. -/
def Meets (before after : Builder) (met : List Bytes) : Prop :=
  after.scanner.names = met.reverse ++ before.scanner.names ∧
    after.machine =
      { before.machine with
        store := after.machine.store, environment := before.machine.environment.fetchAll met }

variable {before middle after : Builder} {first second : List Bytes}

theorem Meets.trans (hfirst : before.Meets middle first) (hsecond : middle.Meets after second) :
    before.Meets after (first ++ second) := by
  obtain ⟨hnames, hmachine⟩ := hfirst
  obtain ⟨hnames', hmachine'⟩ := hsecond
  refine ⟨by simp [hnames', hnames], ?_⟩
  rw [hmachine', hmachine, Environment.fetchAll_append]

/-- Only the store is different. -/
theorem Meets.store {machine : Machine} (hmeets : before.Meets after first)
    (hmachine : machine = { after.machine with store := machine.store }) :
    before.Meets { after with machine } first := by
  refine ⟨hmeets.1, ?_⟩
  rw [hmachine, hmeets.2]

theorem meets_of_load {tree : Tree} {value : Value} {scanner : Scanner} {machine : Machine}
    (hload : tree.load before.machine = .ok value machine)
    (hnames : scanner.names = tree.names.reverse ++ before.scanner.names) :
    before.Meets { scanner, machine } tree.names := by
  rw [Machine.load_eq tree before.machine (before.machine.cellsOf_cellFor tree.names)] at hload
  cases hload
  exact ⟨hnames, rfl⟩

end Builder

/-- What a builder does beside a reader. If something is read, it is what `plant` makes of it in the
machine; if not, what was built so far is released again. -/
inductive Builds {α β : Type} (start : Machine) (held : Multiset Value) (plant : α → Run β)
    (before : Builder) :
    EStateM.Result Error Scanner α → EStateM.Result Stop Builder β → Prop where
  | ok {value : α} {scanner : Scanner} {result : β} {machine : Machine} :
      plant value before.machine = .ok result machine →
      Builds start held plant before (.ok value scanner) (.ok result { scanner, machine })
  | error {error : Error} {after : Builder} {met : List Bytes} {lasting : Machine} :
      before.Meets after met → start.InStep held after.machine lasting →
      Builds start held plant before (.error error after.scanner) (.error (.error error) after)

namespace Builds

variable {α β γ : Type} {start lasting : Machine} {held : Multiset Value} {plant : β → Run γ}
  {before : Builder}

theorem moved {scanner : Scanner} (hnames : scanner.names = before.scanner.names)
    {result : EStateM.Result Error Scanner β} {result' : EStateM.Result Stop Builder γ}
    (hbuilds : Builds start held plant { before with scanner } result result') :
    Builds start held plant before result result' := by
  cases hbuilds with
  | ok hplant => exact .ok hplant
  | error hmeets hinstep => exact .error ⟨hmeets.1.trans (by rw [hnames]), hmeets.2⟩ hinstep

theorem silent_error (instep : start.InStep held before.machine lasting) {error : Error}
    {scanner : Scanner} (hnames : scanner.names = before.scanner.names) :
    Builds start held plant before (.error error scanner)
      (.error (.error error) { before with scanner }) := by
  have hmeets : before.Meets { before with scanner } [] := ⟨hnames, rfl⟩
  exact .error hmeets instep

/-- A token that notes nothing is read on the way. -/
theorem read_bind {read : Scan α} {next : α → Scan β} {next' : α → Build γ}
    (hsilent : Scan.Silent read) (instep : start.InStep held before.machine lasting)
    (hnext : ∀ value scanner, read before.scanner = .ok value scanner →
      Builds start held plant { before with scanner } (next value scanner)
        (next' value { before with scanner })) :
    Builds start held plant before ((read >>= next) before.scanner)
      ((Build.read read >>= next') before) := by
  have hnames := hsilent before.scanner
  cases hread : read before.scanner with
  | ok value scanner =>
      rw [hread] at hnames
      have hread' : Build.read read before = .ok value { before with scanner } := by
        simp only [Build.read, hread]
      rw [Scan.bind_ok hread, Build.bind_ok hread']
      exact (hnext value scanner hread).moved hnames
  | error error scanner =>
      rw [hread] at hnames
      have hread' : Build.read read before = .error (.error error) { before with scanner } := by
        simp only [Build.read, hread]
      rw [Scan.bind_error hread, Build.bind_error hread']
      exact silent_error instep hnames

theorem ite {condition : Prop} [Decidable condition] {read other : Scan β} {build other' : Build γ}
    {scanner : Scanner}
    (hthen : condition → Builds start held plant before (read scanner) (build before))
    (helse : ¬condition → Builds start held plant before (other scanner) (other' before)) :
    Builds start held plant before ((if condition then read else other) scanner)
      ((if condition then build else other') before) := by
  split
  · next hcondition => exact hthen hcondition
  · next hcondition => exact helse hcondition

/-- An expression that was read is put into the machine. -/
theorem load (before : Builder) (tree : Tree) (scanner : Scanner) :
    Builds start held Tree.load before (.ok tree scanner)
      (Build.perform tree.load { before with scanner }) := by
  obtain ⟨value, after, hload, -, -⟩ := before.machine.stands_load tree
  have hperform : Build.perform tree.load { before with scanner } =
      .ok value { scanner, machine := after } := by
    simp only [Build.perform, hload]
  rw [hperform]
  exact .ok hload

/-- A token that is an expression by itself. -/
theorem token {read : Scan Tree} (instep : start.InStep held before.machine lasting)
    (hnames : ∀ error scanner, read before.scanner = .error error scanner →
      scanner.names = before.scanner.names) :
    Builds start held Tree.load before (read before.scanner)
      ((do Build.perform (← Build.read read).load) before) := by
  cases hread : read before.scanner with
  | ok tree scanner =>
      have hread' : Build.read read before = .ok tree { before with scanner } := by
        simp only [Build.read, hread]
      rw [Build.bind_ok hread']
      exact load before tree scanner
  | error error scanner =>
      have hread' : Build.read read before = .error (.error error) { before with scanner } := by
        simp only [Build.read, hread]
      rw [Build.bind_error hread']
      exact silent_error instep (hnames error scanner hread)

theorem silent_token {read : Scan Tree} (hsilent : Scan.Silent read)
    (instep : start.InStep held before.machine lasting) :
    Builds start held Tree.load before (read before.scanner)
      ((do Build.perform (← Build.read read).load) before) := by
  refine token instep fun error scanner hread => ?_
  have hnames := hsilent before.scanner
  rwa [hread] at hnames

end Builds

/-! ### Arguments -/

namespace Machine.InStep

variable {start counting after lasting : Machine} {held more : Multiset Value}

/-- Beside the same lasting machine, only the store of a counting one can change. -/
theorem aside (before : start.InStep held counting lasting)
    (behind : start.InStep more after lasting) :
    after = { counting with store := after.store } := by
  have hsame : { after with store := lasting.store } = { counting with store := lasting.store } :=
    behind.same.symm.trans before.same
  exact congrArg (fun machine => { machine with store := after.store }) hsame

theorem releaseAll (values : List Value) {counting : Machine}
    (instep : start.InStep ((values : Multiset Value) + held) counting lasting)
    (scanner : Scanner) :
    ∃ after, Build.releaseAll values { scanner, machine := counting } =
        .ok ⟨⟩ { scanner, machine := after } ∧
      start.InStep held after lasting := by
  induction values generalizing counting with
  | nil => exact ⟨counting, rfl, by simpa using instep⟩
  | cons value rest ih =>
      rw [← Multiset.cons_coe, Multiset.cons_add] at instep
      obtain ⟨middle, hrelease, -, hreleased⟩ := instep.release
      obtain ⟨after, hrest, hafter⟩ := ih hreleased
      have hperform : Build.perform (Run.release value) { scanner, machine := counting } =
          .ok ⟨⟩ { scanner, machine := middle } := by
        simp only [Build.perform, hrelease]
      exact ⟨after, (Build.bind_ok hperform).trans hrest, hafter⟩

end Machine.InStep

namespace Builds

variable {start lasting : Machine} {held : Multiset Value} {grammar : Grammar} {read : Scan Tree}
  {build : Build Value}

/-- What the first argument puts into the machine is put there before the others. -/
theorem cons {before middle : Builder} {met : List Bytes} {tree : Tree} {value : Value}
    {built : List Value} {others : Scan (List Tree)}
    {result : EStateM.Result Stop Builder (List Value)}
    (hload : tree.load before.machine = .ok value middle.machine)
    (hmeets : before.Meets middle met)
    (hbuilds : Builds start held
      (fun trees => do return (built ++ [value]) ++ (← Tree.loadAll trees)) middle
      (others middle.scanner) result) :
    Builds start held (fun trees => do return built ++ (← Tree.loadAll trees)) before
      ((do return tree :: (← others)) middle.scanner) result := by
  cases hothers : others middle.scanner with
  | ok trees scanner =>
      rw [hothers] at hbuilds
      rw [Scan.bind_ok hothers]
      obtain ⟨values, after, hrest, -, -⟩ := middle.machine.stands_loadAll trees
      have hall : Tree.loadAll (tree :: trees) before.machine = .ok (value :: values) after :=
        (Run.bind_ok hload).trans (Run.bind_ok hrest)
      cases hbuilds with
      | ok hplant =>
          rw [Run.bind_ok hrest] at hplant
          cases hplant
          refine .ok ((Run.bind_ok hall).trans ?_)
          rw [List.append_assoc, List.singleton_append]
          rfl
  | error error scanner =>
      rw [hothers] at hbuilds
      rw [Scan.bind_error hothers]
      cases hbuilds with
      | error hmeets' hinstep => exact .error (hmeets.trans hmeets') hinstep

theorem arguments
    (hread : ∀ {held : Multiset Value} {lasting : Machine} {before : Builder},
      start.InStep held before.machine lasting →
      Builds start held Tree.load before (read before.scanner) (build before))
    (hnotices : ∀ scanner, Scan.Notices grammar Tree.names scanner (read scanner))
    (function : Function) (position : Position) (index count : Nat) (built : List Value)
    {lasting : Machine} {before : Builder}
    (instep : start.InStep ((built : Multiset Value) + held) before.machine lasting) :
    Builds start held (fun trees => do return built ++ (← Tree.loadAll trees)) before
      (Scan.arguments grammar read function position index count before.scanner)
      (Build.arguments grammar build function position index count built before) := by
  induction count generalizing index built lasting before with
  | zero =>
      have hplant : (do return built ++ (← Tree.loadAll []) : Run (List Value)) before.machine =
          .ok built before.machine :=
        congrArg (fun values => EStateM.Result.ok values before.machine) (List.append_nil built)
      exact .ok hplant
  | succ count ih =>
      have hfirst := hread instep
      have hnoticed := hnotices before.scanner
      cases hresult : read before.scanner with
      | ok tree scanner =>
          rw [hresult] at hfirst hnoticed
          rw [Scan.arguments_of_ok hresult]
          generalize hbuild : build before = result' at hfirst
          cases hfirst with
          | @ok _ _ value machine hload =>
              obtain ⟨-, -, -, hnames⟩ := hnoticed
              obtain ⟨other, after, after', hload', -, hloaded⟩ := instep.load tree
              rw [hload] at hload'
              cases hload'
              have hbuilt : start.InStep (((built ++ [value] : List Value) : Multiset Value) + held)
                  machine after' := by
                rw [← Multiset.coe_add, Multiset.coe_singleton, add_comm (built : Multiset Value),
                  add_assoc, Multiset.singleton_add]
                exact hloaded
              simp only [Build.arguments, hbuild]
              exact cons hload (Builder.meets_of_load hload hnames)
                (ih (index + 1) (built ++ [value]) hbuilt)
      | error error scanner =>
          rw [hresult] at hfirst
          rw [Scan.arguments_of_error hresult]
          generalize hbuild : build before = result' at hfirst
          cases hfirst with
          | @error _ after met lasting' hmeets hinstep =>
              obtain ⟨machine, hrelease, hreleased⟩ := hinstep.releaseAll built after.scanner
              simp only [Build.arguments, hbuild]
              rw [Build.bind_ok hrelease]
              have hmeets' : before.Meets { after with machine } met :=
                hmeets.store (hinstep.aside hreleased)
              exact .error hmeets' hreleased

/-- An application is made of the arguments that were read. -/
theorem apply (function : Function) {scanner : Scanner} {before : Builder}
    {others : Scan (List Tree)} {built : Build (List Value)}
    (hbuilds : Builds start held (fun trees => do return [] ++ (← Tree.loadAll trees)) before
      (others scanner) (built before)) :
    Builds start held Tree.load before ((do return Tree.apply function (← others)) scanner)
      ((do
        let args ← built
        Build.perform (Run.onStore (Store.addNode function args))) before) := by
  cases hothers : others scanner with
  | ok trees scanner =>
      rw [hothers] at hbuilds
      rw [Scan.bind_ok hothers]
      generalize hbuilt : built before = result at hbuilds
      cases hbuilds with
      | ok hplant =>
          obtain ⟨values, after, hload, -, -⟩ := before.machine.stands_loadAll trees
          rw [Run.bind_ok hload] at hplant
          cases hplant
          rw [Build.bind_ok hbuilt]
          exact .ok (Run.bind_ok hload)
  | error error scanner =>
      rw [hothers] at hbuilds
      rw [Scan.bind_error hothers]
      generalize hbuilt : built before = result at hbuilds
      cases hbuilds with
      | error hmeets hinstep =>
          rw [Build.bind_error hbuilt]
          exact .error hmeets hinstep

/-- A builder does what reading the whole expression first and building it then does. -/
theorem expression (budget : Nat) {held : Multiset Value} {lasting : Machine} {before : Builder}
    (instep : start.InStep held before.machine lasting) :
    Builds start held Tree.load before (Scan.expression grammar budget before.scanner)
      (Build.expression grammar budget before) := by
  induction budget using Nat.strongRecOn generalizing held lasting before with
  | _ budget ih =>
      rw [Scan.expression.eq_def, Build.expression.eq_def]
      refine read_bind (Scan.silent_peekToken grammar) instep fun byte scanner _ => ?_
      refine .ite (fun _ => silent_token (Scan.silent_number grammar) instep) fun _ => ?_
      refine .ite (fun _ => ?_) fun _ => ?_
      · exact token instep fun _ _ => Scan.names_of_identifier_error grammar
      refine .ite (fun _ => silent_token (Scan.silent_quoted grammar byte) instep) fun _ => ?_
      refine read_bind (Scan.silent_head grammar byte) instep fun head moved _ => ?_
      cases head with
      | literal tree => exact load _ tree moved
      | function function =>
          cases budget with
          | zero =>
              let after : Builder := { scanner := moved, machine := before.machine }
              have hafter : start.InStep held after.machine lasting := instep
              exact silent_error hafter rfl
          | succ budget =>
              have hread {held : Multiset Value} {lasting : Machine} {before : Builder}
                  (instep : start.InStep held before.machine lasting) :=
                ih budget (Nat.lt_succ_self budget) instep
              have hnotices := @Scan.expression_notices grammar budget
              have hstart : start.InStep ((([] : List Value) : Multiset Value) + held)
                  before.machine lasting := by
                rwa [Multiset.coe_nil, zero_add]
              exact apply function (arguments hread hnotices function _ 1 _ [] hstart)

end Builds

/-! ### Parsing in a machine -/

theorem Environment.holds_fetchAll (environment : Environment) (names : List Bytes) :
    (environment.fetchAll names).holds = environment.holds := by
  induction names generalizing environment with
  | nil => rfl
  | cons name names ih => simp [ih]

namespace Run

variable {machine : Machine} {owned : Multiset Value}

/-- Building an expression while it is read ends as reading it first. If it can be read, the machine
is the same; if not, it has the same cells, and nothing that was built meanwhile is live. -/
def BuildsAlike (machine : Machine) (source : Source) (label : Bytes) : Prop :=
  ∃ result rest after, parseFrom source label machine = .ok (result, rest) after ∧
    match result with
    | .ok _ => buildFrom source label machine = .ok (result, rest) after
    | .error _ => ∃ built, buildFrom source label machine = .ok (result, rest) built ∧
        built = { after with store := built.store } ∧
        ∀ value, built.store.refs? value = machine.store.refs? value ∧
          built.store.live? value = machine.store.live? value

/-- Building from a source, beside reading it. -/
theorem builds_from
    (hbalanced : machine.store.Balanced machine.environment.cells.size
      (machine.environment.holds + owned)) (source : Source) (label : Bytes) :
    Builds machine owned Tree.load { scanner := { unread := source.unread }, machine }
      ((machine.grammar label source.failure).parse source.unread)
      (Build.expression (machine.grammar label source.failure)
        (machine.grammar label source.failure).limit.toNat
        { scanner := { unread := source.unread }, machine }) := by
  let before : Builder := { scanner := { unread := source.unread }, machine }
  have hinstep : machine.InStep owned before.machine machine := Machine.inStep_self hbalanced
  exact Builds.expression _ hinstep

theorem buildFrom_buildsAlike
    (hbalanced : machine.store.Balanced machine.environment.cells.size
      (machine.environment.holds + owned)) (source : Source) (label : Bytes) :
    BuildsAlike machine source label := by
  have hbuilds := builds_from hbalanced source label
  generalize hbuild : Build.expression _ _ _ = result at hbuilds
  cases hparse : (machine.grammar label source.failure).parse source.unread with
  | ok tree scanner =>
      rw [hparse] at hbuilds
      have hcells := machine.cellsOf_cellFor tree.names
      refine ⟨_, _, _, parseFrom_eq_ok hparse hcells, ?_⟩
      cases hbuilds with
      | ok hload =>
          have hplaced : tree.load machine = _ := Machine.load_eq tree machine hcells
          rw [hplaced] at hload
          cases hload
          simp only [buildFrom]
          rw [hbuild]
  | error error scanner =>
      rw [hparse] at hbuilds
      refine ⟨_, _, _, parseFrom_eq_error hparse, ?_⟩
      cases hbuilds with
      | @error _ after met lasting hmeets hend =>
          obtain ⟨hnames, hmachine⟩ := hmeets
          have hmet : after.scanner.names.reverse = met := by
            rw [hnames, List.append_nil, List.reverse_reverse]
          have hholds : after.machine.environment.holds = machine.environment.holds := by
            rw [hmachine]
            exact machine.environment.holds_fetchAll met
          refine ⟨after.machine, ?_, ?_, (Machine.inStep_self hbalanced).payloads_eq hend hholds⟩
          · simp only [buildFrom]
            rw [hbuild]
          · rw [hmet]
            exact hmachine

/-- A machine that an expression was built in has got variables and keeps step with one where
nothing is ever freed. An expression that could be read is owned by whoever asked for it; of one
that could not, nothing is. -/
theorem buildFrom_inStep
    (hbalanced : machine.store.Balanced machine.environment.cells.size
      (machine.environment.holds + owned)) (source : Source) (label : Bytes) :
    ∃ result rest built lasting, buildFrom source label machine = .ok (result, rest) built ∧
      (∃ names, built.environment = machine.environment.fetchAll names) ∧
      machine.InStep (Lockstep.parsed (result, rest) + owned) built lasting := by
  have hbuilds := builds_from hbalanced source label
  generalize hbuild : Build.expression _ _ _ = result at hbuilds
  generalize Grammar.parse _ _ = parse at hbuilds
  cases hbuilds with
  | @ok tree scanner value built hload =>
      obtain ⟨other, after, lasting, hload', -, hloaded⟩ :=
        (Machine.inStep_self hbalanced).load tree
      cases hload.symm.trans hload'
      have hplaced : tree.load machine = _ :=
        Machine.load_eq tree machine (machine.cellsOf_cellFor tree.names)
      cases hplaced.symm.trans hload
      refine ⟨.ok _, { source with unread := scanner.unread }, _, lasting, ?_, ⟨_, rfl⟩, hloaded⟩
      simp only [buildFrom]
      rw [hbuild]
  | @error error after met lasting hmeets hend =>
      refine ⟨.error error, { source with unread := after.scanner.unread }, after.machine, lasting,
        ?_, ⟨met, ?_⟩, ?_⟩
      · simp only [buildFrom]
        rw [hbuild]
      · rw [hmeets.2]
      · rwa [Lockstep.parsed, zero_add]

end Run

/-- Whatever the host has done, every payload still has as many references as owners after an
expression was built while it was read, and also after the expression broke off. -/
theorem Machine.Reachable.counted_after_building {machine : Machine} {owned : Multiset Value}
    (hreachable : machine.Reachable owned) (source : Source) (label : Bytes) :
    ∃ result rest built, Run.buildFrom source label machine = .ok (result, rest) built ∧
      match result with
      | .ok value => built.Counted (value ::ₘ owned)
      | .error _ => built.Counted owned := by
  obtain ⟨result, rest, built, lasting, hbuild, -, hend⟩ :=
    Run.buildFrom_inStep hreachable.inStep.balanced source label
  refine ⟨result, rest, built, hbuild, ?_⟩
  cases result with
  | ok value => exact hend.counted
  | error error => simpa [Run.Lockstep.parsed] using hend.counted

end KnightLang
