import KnightLang.Proofs.Expression.Loading
import KnightLang.Proofs.Expression.Shape

/-!
Parsing is exact: it succeeds on what the rules of the written form derive, and on nothing else.
-/

namespace KnightLang

theorem Names.exists_cons {table : FunctionTable} {rest token : Bytes} {function : Function}
    (hnames : Names table rest token function) :
    ∃ byte others, token = byte :: others ∧ table.find? byte = some function := by
  cases hnames with
  | word _ hfind _ _ => exact ⟨_, _, rfl, hfind⟩
  | symbol _ hfind => exact ⟨_, _, rfl, hfind⟩

namespace Scan

variable {grammar : Grammar}

/-! ### Arguments one by one -/

section Arguments

variable {expression : Scan Tree} {function : Function} {start : Position} {index count : Nat}
  {scanner middle after : Scanner}

/-- The failure of an application whose argument fails. -/
def argumentError (grammar : Grammar) (function : Function) (start : Position) (index : Nat)
    (error : Error) : Error :=
  if error = .endOfInput then
    errorAt grammar start (.missingArgument index function.long) [.unexpectedEnd]
  else error

theorem errorAt_ne_endOfInput {reason : Reason} {causes : List Link} :
    errorAt grammar start reason causes ≠ .endOfInput := by
  intro heq
  cases heq

theorem argumentError_ne_endOfInput (error : Error) :
    argumentError grammar function start index error ≠ .endOfInput := by
  unfold argumentError
  split
  · exact errorAt_ne_endOfInput
  · next hne => exact hne

theorem arguments_of_ok {tree : Tree} (hfirst : expression scanner = .ok tree middle) :
    arguments grammar expression function start index (count + 1) scanner =
      (do
        let rest ← arguments grammar expression function start (index + 1) count
        return tree :: rest : Scan (List Tree)) middle := by
  simp only [arguments, hfirst, bind, EStateM.bind]
  cases arguments grammar expression function start (index + 1) count middle <;> rfl

theorem arguments_of_error {error : Error} (hfirst : expression scanner = .error error after) :
    arguments grammar expression function start index (count + 1) scanner =
      .error (argumentError grammar function start index error) after := by
  simp only [arguments, hfirst, argumentError]
  split <;> rfl

theorem arguments_eq_ok {trees : List Tree}
    (hread : arguments grammar expression function start index (count + 1) scanner =
      .ok trees after) :
    ∃ tree rest middle, expression scanner = .ok tree middle ∧
      arguments grammar expression function start (index + 1) count middle = .ok rest after ∧
      trees = tree :: rest := by
  cases hfirst : expression scanner with
  | error error middle =>
      rw [arguments_of_error hfirst] at hread
      cases hread
  | ok tree middle =>
      rw [arguments_of_ok hfirst] at hread
      obtain ⟨rest, last, hrest, hdone⟩ := bind_eq_ok hread
      cases hdone
      exact ⟨tree, rest, middle, rfl, hrest, rfl⟩

theorem arguments_eq_error {error : Error}
    (hread : arguments grammar expression function start index (count + 1) scanner =
      .error error after) :
    (∃ cause, expression scanner = .error cause after ∧
      error = argumentError grammar function start index cause) ∨
    ∃ tree middle, expression scanner = .ok tree middle ∧
      arguments grammar expression function start (index + 1) count middle =
        .error error after := by
  cases hfirst : expression scanner with
  | error cause middle =>
      rw [arguments_of_error hfirst] at hread
      cases hread
      exact Or.inl ⟨cause, rfl, rfl⟩
  | ok tree middle =>
      rw [arguments_of_ok hfirst] at hread
      rcases bind_eq_error hread with hrest | ⟨rest, last, -, hdone⟩
      · exact Or.inr ⟨tree, middle, rfl, hrest⟩
      · cases hdone

end Arguments

/-! ### What is read is derived -/

theorem arguments_sound {budget : Nat}
    (hexpression : ∀ {scanner after : Scanner} {tree : Tree},
      expression grammar budget scanner = .ok tree after →
      ∃ word, scanner.unread = word ++ after.unread ∧
        Derives grammar.functions budget word tree after.unread)
    (function : Function) (start : Position) (index count : Nat) {scanner after : Scanner}
    {trees : List Tree}
    (hread : arguments grammar (expression grammar budget) function start index count scanner =
      .ok trees after) :
    trees.length = count ∧ ∃ word, scanner.unread = word ++ after.unread ∧
      DerivesAll grammar.functions budget word trees after.unread := by
  induction count generalizing index scanner trees with
  | zero =>
      cases hread
      exact ⟨rfl, [], rfl, .nil⟩
  | succ count ih =>
      obtain ⟨tree, rest, middle, hfirst, hrest, rfl⟩ := arguments_eq_ok hread
      obtain ⟨hlength, others, hothers, hderives⟩ := ih _ hrest
      obtain ⟨word, hword, hderived⟩ := hexpression hfirst
      refine ⟨congrArg Nat.succ hlength, word ++ others, ?_, ?_⟩
      · rw [hword, hothers, List.append_assoc]
      · rw [hothers] at hderived
        exact .cons hderived hderives

/-- An expression that is read is a token by itself, or an application whose arguments are read. -/
theorem expression_ok_cases (hfailure : grammar.failure = none) {budget : Nat}
    {scanner after : Scanner} {tree : Tree}
    (hread : expression grammar budget scanner = .ok tree after) :
    (∃ blank token, scanner.unread = blank ++ (token ++ after.unread) ∧ Blank blank ∧
      Atom after.unread token tree) ∨
    ∃ inner blank head function trees start middle, budget = inner + 1 ∧
      tree = .apply function trees ∧ scanner.unread = blank ++ (head ++ middle.unread) ∧
      Blank blank ∧ Names grammar.functions middle.unread head function ∧
      arguments grammar (expression grammar inner) function start 1 function.arity middle =
        .ok trees after := by
  have hshape := shape_total grammar.functions scanner.unread
  generalize hunread : scanner.unread = bytes at hshape ⊢
  cases hshape with
  | void hvoid =>
      rw [expression_void hfailure budget (hunread ▸ hvoid)] at hread
      cases hread
  | atom hblank hatom =>
      rw [expression_atom hfailure hblank budget hunread hatom] at hread
      cases hread
      exact Or.inl ⟨_, _, rfl, hblank, hatom⟩
  | application hblank hnames hfree =>
      cases budget with
      | zero =>
          rw [expression_application_zero hfailure hblank hunread hnames hfree] at hread
          cases hread
      | succ inner =>
          rw [expression_application_succ hfailure hblank inner hunread hnames hfree] at hread
          obtain ⟨trees, middle, hargs, hdone⟩ := bind_eq_ok hread
          cases hdone
          exact Or.inr ⟨inner, _, _, _, trees, _, _, rfl, rfl, rfl, hblank, hnames, hargs⟩
  | unclosed hblank hquote hcontents =>
      rw [expression_unclosed hfailure hblank budget hunread hquote hcontents] at hread
      cases hread
  | wrong hblank hwrong =>
      obtain ⟨unread, position, herror⟩ := expression_wrong hfailure hblank budget hunread hwrong
      rw [herror] at hread
      cases hread

theorem expression_sound (hfailure : grammar.failure = none) (budget : Nat)
    {scanner after : Scanner} {tree : Tree}
    (hread : expression grammar budget scanner = .ok tree after) :
    ∃ word, scanner.unread = word ++ after.unread ∧
      Derives grammar.functions budget word tree after.unread := by
  induction budget using Nat.strongRecOn generalizing scanner after tree with
  | _ budget ih =>
      rcases expression_ok_cases hfailure hread with ⟨blank, token, hunread, hblank, hatom⟩ |
        ⟨inner, blank, head, function, trees, start, middle, rfl, rfl, hunread, hblank, hnames,
          hargs⟩
      · exact ⟨blank ++ token, by rw [hunread, List.append_assoc], .atom hblank hatom⟩
      · obtain ⟨hlength, args, hmiddle, hderives⟩ :=
          arguments_sound (ih inner (Nat.lt_succ_self inner)) function start 1 function.arity hargs
        refine ⟨blank ++ (head ++ args), ?_, ?_⟩
        · simp [hunread, hmiddle]
        · rw [hmiddle] at hnames
          exact .apply hblank hnames hderives hlength

/-! ### What is derived is read -/

theorem arguments_complete {budget : Nat}
    (hexpression : ∀ {scanner : Scanner} {word rest : Bytes} {tree : Tree},
      Derives grammar.functions budget word tree rest → scanner.unread = word ++ rest →
      ∃ after, expression grammar budget scanner = .ok tree after ∧ after.unread = rest)
    (function : Function) (start : Position) (index : Nat) (trees : List Tree)
    {scanner : Scanner} {word rest : Bytes}
    (hderives : DerivesAll grammar.functions budget word trees rest)
    (hunread : scanner.unread = word ++ rest) :
    ∃ after, arguments grammar (expression grammar budget) function start index trees.length
      scanner = .ok trees after ∧ after.unread = rest := by
  induction trees generalizing index scanner word with
  | nil =>
      cases hderives
      exact ⟨scanner, rfl, hunread⟩
  | cons tree trees ih =>
      cases hderives with
      | @cons _ first others _ _ _ hfirst hothers =>
          rw [List.append_assoc] at hunread
          obtain ⟨middle, hread, hmiddle⟩ := hexpression hfirst hunread
          obtain ⟨after, hrest, hafter⟩ := ih (index + 1) hothers hmiddle
          exact ⟨after, (arguments_of_ok hread).trans (bind_ok hrest), hafter⟩

theorem expression_complete (hfailure : grammar.failure = none)
    (hdefined : grammar.functions.Defined) (budget : Nat) {scanner : Scanner} {word rest : Bytes}
    {tree : Tree} (hderives : Derives grammar.functions budget word tree rest)
    (hunread : scanner.unread = word ++ rest) :
    ∃ after, expression grammar budget scanner = .ok tree after ∧ after.unread = rest := by
  induction budget using Nat.strongRecOn generalizing scanner word rest tree with
  | _ budget ih =>
      cases hderives with
      | atom hblank hatom =>
          rw [List.append_assoc] at hunread
          exact ⟨_, expression_atom hfailure hblank budget hunread hatom, rfl⟩
      | @apply inner blank head args function trees _ hblank hnames hargs hlength =>
          obtain ⟨byte, others, rfl, hfind⟩ := hnames.exists_cons
          have hfree := hdefined.isReserved_eq_false hfind
          simp only [List.append_assoc] at hunread
          have hread := expression_application_succ hfailure hblank inner hunread hnames hfree
          generalize hmoved : Scanner.mk (args ++ rest)
            (scanner.position.after (blank ++ byte :: others)) scanner.names = moved at hread
          have hmiddle : moved.unread = args ++ rest := by rw [← hmoved]
          obtain ⟨after, hread', hafter⟩ :=
            arguments_complete (ih inner (Nat.lt_succ_self inner)) function
              (scanner.position.after blank) 1 trees hargs hmiddle
          rw [hlength] at hread'
          exact ⟨after, hread.trans (bind_ok hread'), hafter⟩

/-! ### Where there is nothing to read -/

/-- Input that ends before an argument does is reported as such. -/
theorem arguments_ne_endOfInput {expression : Scan Tree} {function : Function} {start : Position}
    {index count : Nat} {scanner after : Scanner} {error : Error}
    (hread : arguments grammar expression function start index count scanner =
      .error error after) : error ≠ .endOfInput := by
  induction count generalizing index scanner with
  | zero => cases hread
  | succ count ih =>
      rcases arguments_eq_error hread with ⟨cause, -, rfl⟩ | ⟨tree, middle, -, hrest⟩
      · exact argumentError_ne_endOfInput cause
      · exact ih hrest

theorem expression_endOfInput (hfailure : grammar.failure = none) {budget : Nat}
    {scanner after : Scanner}
    (hread : expression grammar budget scanner = .error .endOfInput after) :
    Void scanner.unread := by
  have hshape := shape_total grammar.functions scanner.unread
  generalize hunread : scanner.unread = bytes at hshape ⊢
  cases hshape with
  | void hvoid => exact hvoid
  | atom hblank hatom =>
      rw [expression_atom hfailure hblank budget hunread hatom] at hread
      cases hread
  | application hblank hnames hfree =>
      cases budget with
      | zero =>
          rw [expression_application_zero hfailure hblank hunread hnames hfree] at hread
          cases hread
      | succ inner =>
          rw [expression_application_succ hfailure hblank inner hunread hnames hfree] at hread
          rcases bind_eq_error hread with hargs | ⟨trees, middle, -, hdone⟩
          · exact absurd rfl (arguments_ne_endOfInput hargs)
          · cases hdone
  | unclosed hblank hquote hcontents =>
      rw [expression_unclosed hfailure hblank budget hunread hquote hcontents] at hread
      cases hread
  | wrong hblank hwrong =>
      obtain ⟨unread, position, herror⟩ := expression_wrong hfailure hblank budget hunread hwrong
      rw [herror] at hread
      cases hread

end Scan

theorem Atom.ne_nil {rest token : Bytes} {tree : Tree} (hatom : Atom rest token tree) :
    token ≠ [] := by
  cases hatom with
  | number hne _ _ _ => exact hne
  | «variable» _ _ _ => exact List.cons_ne_nil _ _
  | text _ _ => exact List.cons_ne_nil _ _
  | word _ _ _ => exact List.cons_ne_nil _ _

theorem Derives.ne_nil {table : FunctionTable} {budget : Nat} {word rest : Bytes} {tree : Tree}
    (hderives : Derives table budget word tree rest) : word ≠ [] := by
  cases hderives with
  | atom _ hatom => exact List.append_ne_nil_of_right_ne_nil _ hatom.ne_nil
  | apply _ hnames _ _ =>
      obtain ⟨byte, others, rfl, -⟩ := hnames.exists_cons
      simp

/-! ### Parsing in a machine -/

namespace Run

variable {machine : Machine} {label bytes : Bytes} {failure : Option Bytes} {scanner : Scanner}

theorem parseFrom_of_ok {tree : Tree}
    (hparse : (machine.grammar label failure).parse bytes = .ok tree scanner) :
    ∃ value after, tree.load machine = .ok value after ∧ after.Stands tree value ∧
      parseFrom { unread := bytes, failure } label machine =
        .ok (.ok value, { unread := scanner.unread, failure }) after := by
  obtain ⟨value, after, hload, -, hstands⟩ := Machine.stands_load tree machine
  refine ⟨value, after, hload, hstands, ?_⟩
  have hget : (get : Run Machine) machine = .ok machine machine := rfl
  simp only [parseFrom, bind, EStateM.bind, hget, hparse, hload]
  rfl

theorem forM_fetch_ok (names : List Bytes) (machine : Machine) :
    ∃ after, (names.forM fun name => do let _ ← fetch name) machine = .ok ⟨⟩ after := by
  induction names generalizing machine with
  | nil => exact ⟨machine, rfl⟩
  | cons name rest ih => exact ih _

/-- A parse that fails leaves behind the cells of the variables it met. -/
theorem parseFrom_of_error {error : Error}
    (hparse : (machine.grammar label failure).parse bytes = .error error scanner) :
    ∃ after, (scanner.names.reverse.forM fun name => do let _ ← fetch name) machine = .ok ⟨⟩ after ∧
      parseFrom { unread := bytes, failure } label machine =
        .ok (.error error, { unread := scanner.unread, failure }) after := by
  obtain ⟨after, hfetch⟩ := forM_fetch_ok scanner.names.reverse machine
  refine ⟨after, hfetch, ?_⟩
  have hget : (get : Run Machine) machine = .ok machine machine := rfl
  simp only [bind] at hfetch
  simp only [parseFrom, bind, EStateM.bind, hget, hparse, hfetch]
  rfl

theorem parseFrom_total (machine : Machine) (label bytes : Bytes) :
    ∃ result rest after, parseFrom { unread := bytes } label machine =
      .ok (result, rest) after := by
  cases hparse : (machine.grammar label none).parse bytes with
  | ok tree scanner =>
      obtain ⟨value, after, -, -, hfrom⟩ := parseFrom_of_ok hparse
      exact ⟨_, _, after, hfrom⟩
  | error error scanner =>
      obtain ⟨after, -, hfrom⟩ := parseFrom_of_error hparse
      exact ⟨_, _, after, hfrom⟩

theorem parse_of_parseFrom_ok {value : Value} {rest : Source} {after : Machine}
    (hfrom : parseFrom { unread := bytes } label machine = .ok (.ok value, rest) after) :
    ∃ tree scanner, (machine.grammar label none).parse bytes = .ok tree scanner ∧
      rest = { unread := scanner.unread } ∧ tree.load machine = .ok value after ∧
      after.Stands tree value := by
  cases hparse : (machine.grammar label none).parse bytes with
  | ok tree scanner =>
      obtain ⟨value', after', hload, hstands, hfrom'⟩ := parseFrom_of_ok hparse
      rw [hfrom] at hfrom'
      cases hfrom'
      exact ⟨tree, scanner, rfl, rfl, hload, hstands⟩
  | error error scanner =>
      obtain ⟨after', -, hfrom'⟩ := parseFrom_of_error hparse
      rw [hfrom] at hfrom'
      cases hfrom'

theorem parse_of_parseFrom_error {error : Error} {rest : Source} {after : Machine}
    (hfrom : parseFrom { unread := bytes, failure } label machine =
      .ok (.error error, rest) after) :
    ∃ scanner, (machine.grammar label failure).parse bytes = .error error scanner ∧
      (scanner.names.reverse.forM fun name => do let _ ← fetch name) machine = .ok ⟨⟩ after := by
  cases hparse : (machine.grammar label failure).parse bytes with
  | ok tree scanner =>
      obtain ⟨value, after', -, -, hfrom'⟩ := parseFrom_of_ok hparse
      rw [hfrom] at hfrom'
      cases hfrom'
  | error error' scanner =>
      obtain ⟨after', hfetch, hfrom'⟩ := parseFrom_of_error hparse
      rw [hfrom] at hfrom'
      cases hfrom'
      exact ⟨scanner, rfl, hfetch⟩

end Run

end KnightLang
