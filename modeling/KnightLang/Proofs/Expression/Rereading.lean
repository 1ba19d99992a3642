import KnightLang.Proofs.Expression.Continuation
import KnightLang.Proofs.Expression.Frame

/-!
Reading the lines of a program once more, together with those that follow. Whatever was made of the
first lines is made of them again: what was read is the same expression, and the variables that were
noted are the first ones to be noted, also where reading failed.
-/

namespace KnightLang

/-- What may follow the lines of a program: nothing, or a newline and more lines. -/
def OnNewLine (tail : Bytes) : Prop := tail = [] ∨ ∃ more, tail = Byte.newline :: more

namespace OnNewLine

variable {tail rest token : Bytes}

theorem atom {tree : Tree} (hline : OnNewLine tail) (hatom : Atom rest token tree) :
    Atom (rest ++ tail) token tree := by
  rcases hline with rfl | ⟨more, rfl⟩
  · rwa [List.append_nil]
  · exact hatom.extend more

theorem names {table : FunctionTable} {function : Function} (hline : OnNewLine tail)
    (hnames : Names table rest token function) : Names table (rest ++ tail) token function := by
  rcases hline with rfl | ⟨more, rfl⟩
  · rwa [List.append_nil]
  · exact hnames.extend more

end OnNewLine

namespace Scan

/-- The same place in a text that goes on. -/
structure Ahead (tail : Bytes) (scanner longer : Scanner) : Prop where
  unread : longer.unread = scanner.unread ++ tail
  names : longer.names = scanner.names

/-- The variables noted at the end of reading, the latest first. -/
def namesOf {α : Type} : EStateM.Result Error Scanner α → List Bytes
  | .ok _ after => after.names
  | .error _ after => after.names

/-- Reading a text again with more behind it gives the same and goes on where the first reading
ended, or else notes at least what the first one noted. -/
structure Rereads {α : Type} (tail : Bytes) (first second : EStateM.Result Error Scanner α) :
    Prop where
  ok : ∀ {value : α} {after : Scanner}, first = .ok value after →
    ∃ longer, second = .ok value longer ∧ Ahead tail after longer
  error : ∀ {error : Error} {after : Scanner}, first = .error error after →
    after.names <:+ namesOf second

variable {grammar other : Grammar} {tail : Bytes} {scanner longer : Scanner}

theorem names_suffix_of_notices {α : Type} {names : α → List Bytes}
    {result : EStateM.Result Error Scanner α} (hnotices : Notices grammar names scanner result) :
    scanner.names <:+ namesOf result := by
  cases result with
  | ok value after =>
      obtain ⟨word, -, -, hnames⟩ := hnotices
      exact ⟨(names value).reverse, hnames.symm⟩
  | error error after =>
      obtain ⟨met, rest, ⟨word, -, -, hnames⟩, -⟩ := hnotices
      exact ⟨met.reverse, hnames.symm⟩

theorem namesOf_map {α β : Type} (wrap : α → β) (read : Scan α) (scanner : Scanner) :
    namesOf ((do return wrap (← read)) scanner) = namesOf (read scanner) := by
  cases hread : read scanner with
  | ok value after => rw [bind_ok hread]; rfl
  | error error after => rw [bind_error hread]; rfl

theorem arguments_names_suffix (grammar : Grammar) (budget : Nat) (function : Function)
    (start : Position) (index count : Nat) (scanner : Scanner) :
    scanner.names <:+
      namesOf (arguments grammar (expression grammar budget) function start index count scanner) :=
  names_suffix_of_notices
    (arguments_notices (expression_notices budget) function start index count scanner)

/-- A first reading that fails in front of every further token. -/
theorem Rereads.of_error {first : EStateM.Result Error Scanner Tree} {budget : Nat}
    (hahead : Ahead tail scanner longer) {error : Error} {after : Scanner}
    (hfirst : first = .error error after) (hnames : after.names = scanner.names) :
    Rereads tail first (expression other budget longer) where
  ok hok := by
    rw [hfirst] at hok
    cases hok
  error herror := by
    rw [hfirst] at herror
    cases herror
    rw [hnames, ← hahead.names]
    exact names_suffix_of_notices (expression_notices budget longer)

theorem Rereads.map {α β : Type} {wrap : α → β} {read read' : Scan α}
    (hrereads : Rereads tail (read scanner) (read' longer)) :
    Rereads tail ((do return wrap (← read)) scanner) ((do return wrap (← read')) longer) where
  ok hok := by
    obtain ⟨value, middle, hread, hdone⟩ := bind_eq_ok hok
    cases hdone
    obtain ⟨after, hread', hafter⟩ := hrereads.ok hread
    exact ⟨after, bind_ok hread', hafter⟩
  error herror := by
    rw [namesOf_map]
    rcases bind_eq_error herror with hread | ⟨value, middle, -, hdone⟩
    · exact hrereads.error hread
    · cases hdone

section Arguments

variable {budget : Nat}
  (hexpression : ∀ {scanner longer : Scanner}, Ahead tail scanner longer →
    Rereads tail (expression grammar budget scanner) (expression other budget longer))

include hexpression

theorem arguments_rereads (function : Function) (start start' : Position) (index count : Nat)
    {scanner longer : Scanner} (hahead : Ahead tail scanner longer) :
    Rereads tail (arguments grammar (expression grammar budget) function start index count scanner)
      (arguments other (expression other budget) function start' index count longer) := by
  induction count generalizing index scanner longer with
  | zero =>
      constructor
      · intro trees after hread
        cases hread
        exact ⟨longer, rfl, hahead⟩
      · intro error after hread
        cases hread
  | succ count ih =>
      have hfirst := hexpression hahead
      constructor
      · intro trees after hread
        obtain ⟨tree, others, middle, htree, hothers, rfl⟩ := arguments_eq_ok hread
        obtain ⟨middle', htree', hmiddle⟩ := hfirst.ok htree
        obtain ⟨after', hothers', hafter⟩ := (ih (index + 1) hmiddle).ok hothers
        exact ⟨after', (arguments_of_ok htree').trans (bind_ok hothers'), hafter⟩
      · intro error after hread
        rcases arguments_eq_error hread with ⟨cause, hcause, -⟩ | ⟨tree, middle, htree, hothers⟩
        · have hnames := hfirst.error hcause
          cases hlonger : expression other budget longer with
          | error error' after' =>
              rw [hlonger] at hnames
              rw [arguments_of_error hlonger]
              exact hnames
          | ok tree middle =>
              rw [hlonger] at hnames
              rw [arguments_of_ok hlonger, namesOf_map]
              exact hnames.trans
                (arguments_names_suffix other budget function start' (index + 1) count middle)
        · obtain ⟨middle', htree', hmiddle⟩ := hfirst.ok htree
          rw [arguments_of_ok htree', namesOf_map]
          exact (ih (index + 1) hmiddle).error hothers

end Arguments

/-- An expression is read again as far as it was read, whatever the source is called. -/
theorem expression_rereads (hfailure : grammar.failure = none) (hfailure' : other.failure = none)
    (hfunctions : other.functions = grammar.functions) (hline : OnNewLine tail) (budget : Nat)
    {scanner longer : Scanner} (hahead : Ahead tail scanner longer) :
    Rereads tail (expression grammar budget scanner) (expression other budget longer) := by
  induction budget using Nat.strongRecOn generalizing scanner longer with
  | _ budget ih =>
      have hshape := shape_total grammar.functions scanner.unread
      generalize hunread : scanner.unread = bytes at hshape
      have hlonger := hahead.unread
      rw [hunread] at hlonger
      cases hshape with
      | void hvoid =>
          exact .of_error hahead (expression_void hfailure budget (hunread ▸ hvoid)) rfl
      | unclosed hblank hquote hcontents =>
          exact .of_error hahead
            (expression_unclosed hfailure hblank budget hunread hquote hcontents) rfl
      | wrong hblank hwrong =>
          obtain ⟨unread, position, hread⟩ := expression_wrong hfailure hblank budget hunread hwrong
          exact .of_error hahead hread rfl
      | @atom blank token rest tree hblank hatom =>
          rw [List.append_assoc, List.append_assoc] at hlonger
          have hread := expression_atom hfailure hblank budget hunread hatom
          have hread' := expression_atom hfailure' hblank budget hlonger (hline.atom hatom)
          constructor
          · intro value after hok
            rw [hread] at hok
            cases hok
            exact ⟨_, hread', rfl, by rw [hahead.names]⟩
          · intro error after herror
            rw [hread] at herror
            cases herror
      | @application blank others rest byte function hblank hnames hfree =>
          rw [List.append_assoc, List.append_assoc] at hlonger
          have hnames' := hline.names hnames
          rw [← hfunctions] at hnames'
          cases budget with
          | zero =>
              exact .of_error hahead
                (expression_application_zero hfailure hblank hunread hnames hfree) rfl
          | succ inner =>
              rw [expression_application_succ hfailure hblank inner hunread hnames hfree,
                expression_application_succ hfailure' hblank inner hlonger hnames' hfree]
              have hmoved : Ahead tail
                  { scanner with
                    unread := rest, position := scanner.position.after (blank ++ byte :: others) }
                  { longer with
                    unread := rest ++ tail
                    position := longer.position.after (blank ++ byte :: others) } :=
                ⟨rfl, hahead.names⟩
              exact (arguments_rereads (ih inner (Nat.lt_succ_self inner)) function _ _ 1
                function.arity hmoved).map

end Scan

/-! ### Parsing in a machine -/

theorem Environment.fetchAll_of_first (environment : Environment) {first names : List Bytes}
    (hfirst : first <+: names) :
    (environment.fetchAll first).fetchAll names = environment.fetchAll names := by
  obtain ⟨others, rfl⟩ := hfirst
  simp

/-- The variables that a parse notes, in order. -/
def Machine.noted (machine : Machine) (source : Source) (label : Bytes) : List Bytes :=
  (Scan.namesOf ((machine.grammar label source.failure).parse source.unread)).reverse

namespace Run

variable {machine : Machine} {source : Source} {label : Bytes}

theorem noted_of_ok {tree : Tree} {scanner : Scanner}
    (hparse : (machine.grammar label source.failure).parse source.unread = .ok tree scanner) :
    machine.noted source label = tree.names := by
  have hnotices : Scan.Notices _ Tree.names { unread := source.unread }
      ((machine.grammar label source.failure).parse source.unread) := Scan.expression_notices _ _
  unfold Machine.noted
  rw [hparse] at hnotices ⊢
  obtain ⟨word, -, -, hnames⟩ := hnotices
  rw [Scan.namesOf, hnames, List.append_nil, List.reverse_reverse]

/-- Cells that a parse would make may be there before. -/
theorem parseFrom_of_fetched {environment : Environment}
    (henvironment : environment.fetchAll (machine.noted source label) =
      machine.environment.fetchAll (machine.noted source label)) :
    parseFrom source label { machine with environment } = parseFrom source label machine := by
  have hgrammar : Machine.grammar { machine with environment } label source.failure =
      machine.grammar label source.failure := rfl
  cases hparse : (machine.grammar label source.failure).parse source.unread with
  | ok tree scanner =>
      rw [noted_of_ok hparse] at henvironment
      have hcells := machine.cellsOf_cellFor tree.names
      have hcells' : Machine.CellsOf { machine with environment } tree.names
          (machine.cellFor tree.names) := by
        intro name hmem
        rw [henvironment]
        exact hcells name hmem
      rw [parseFrom_eq_ok hparse hcells, parseFrom_eq_ok (hgrammar ▸ hparse) hcells', henvironment]
  | error error scanner =>
      have hnoted : machine.noted source label = scanner.names.reverse := by
        rw [Machine.noted, hparse, Scan.namesOf]
      rw [hnoted] at henvironment
      rw [parseFrom_eq_error hparse, parseFrom_eq_error (hgrammar ▸ hparse), henvironment]

theorem parse_rereads (machine : Machine) (label label' bytes : Bytes) {tail : Bytes}
    (hline : OnNewLine tail) :
    Scan.Rereads tail ((machine.grammar label none).parse bytes)
      ((machine.grammar label' none).parse (bytes ++ tail)) := by
  have hahead : Scan.Ahead tail { unread := bytes } { unread := bytes ++ tail } := ⟨rfl, rfl⟩
  exact @Scan.expression_rereads (machine.grammar label none) (machine.grammar label' none) tail rfl
    rfl rfl hline machine.maxDepth.toNat _ _ hahead

/-- What a parse of the first lines notes if it fails, comes first among what a parse of all lines
notes, whatever the sources are called. -/
theorem noted_first {bytes tail label' : Bytes} (hline : OnNewLine tail) {error : Error}
    {scanner : Scanner}
    (hparse : (machine.grammar label none).parse bytes = .error error scanner) :
    machine.noted { unread := bytes } label <+:
      machine.noted { unread := bytes ++ tail } label' := by
  have hrereads := parse_rereads machine label label' bytes hline
  unfold Machine.noted
  rw [hparse, List.reverse_prefix]
  exact hrereads.error hparse

/-- A parse that fails leaves cells behind, with which a parse of the same lines and any further
ones does what it does without them. -/
theorem parseFrom_after_failure {bytes tail label' : Bytes} (hline : OnNewLine tail) {error : Error}
    {rest : Source} {after : Machine}
    (hfrom : parseFrom { unread := bytes } label machine = .ok (.error error, rest) after) :
    parseFrom { unread := bytes ++ tail } label' after =
      parseFrom { unread := bytes ++ tail } label' machine := by
  obtain ⟨scanner, hparse, -⟩ := parse_of_parseFrom_error hfrom
  rw [parseFrom_eq_error hparse] at hfrom
  cases hfrom
  refine parseFrom_of_fetched (machine.environment.fetchAll_of_first ?_)
  have hfirst : machine.noted { unread := bytes } label <+:
      machine.noted { unread := bytes ++ tail } label' := noted_first hline hparse
  rwa [Machine.noted, hparse] at hfirst

end Run

end KnightLang
