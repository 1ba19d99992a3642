import KnightLang.Proofs.Expression.Consumption
import KnightLang.Proofs.Expression.Interruption
import Mathlib.Data.List.DropRight

/-!
Where the failures of a parse point. A position is counted byte by byte while tokens, strings and
comments go past; it is the line and the column of an offset in the source, and the token that is at
fault stands there.
-/

namespace KnightLang

/-! ### Positions and offsets -/

/-- The position behind some bytes: newlines end lines, and the other bytes fill columns. -/
def Position.behind (bytes : Bytes) : Position where
  line := 1 + bytes.count Byte.newline
  column := 1 + (bytes.rtakeWhile (· != Byte.newline)).length

theorem Position.after_eq_behind (bytes : Bytes) : ({} : Position).after bytes = behind bytes := by
  induction bytes using List.reverseRecOn with
  | nil => rfl
  | append_singleton bytes byte ih =>
      rw [after_append, ih]
      by_cases hnewline : byte = Byte.newline
      · simp [hnewline, after, next, behind, Nat.add_assoc]
      · simp [hnewline, after, next, behind, Nat.add_assoc]

/-! ### The token at fault -/

/-- Bytes in front of `rest` open applications, each of them within an argument of the one before:
what is taken goes from the depth `outer` to the depth `inner`, and the arguments in front of the
open ones are complete. -/
inductive Opens (table : FunctionTable) (limit : Int) :
    (outer inner : Nat) → (taken rest : Bytes) → Prop where
  | here {depth : Nat} {blank rest : Bytes} : Blank blank → Opens table limit depth depth blank rest
  | argument {outer inner : Nat} {blank head args taken rest : Bytes} {function : Function}
      {trees : List Tree} :
      (outer : Int) < limit → Blank blank → Names table (args ++ (taken ++ rest)) head function →
      DerivesAll table (limit.toNat - (outer + 1)) args trees (taken ++ rest) →
      trees.length < function.arity → Opens table limit (outer + 1) inner taken rest →
      Opens table limit outer inner (blank ++ (head ++ (args ++ taken))) rest

/-- Bytes that begin with a token at fault, inside `depth` applications, and why it is. -/
inductive Offends (table : FunctionTable) (limit : Int) (depth : Nat) : Bytes → Reason → Prop where
  /-- The quote of a string that has no end. -/
  | string {quote : UInt8} {contents : Bytes} :
      quote = 34 ∨ quote = 39 → quote ∉ contents →
      Offends table limit depth (quote :: contents) .unterminatedString
  /-- A token that nothing can be made of. -/
  | token {token rest : Bytes} {reason : Reason} :
      Wrong table rest token reason → Offends table limit depth (token ++ rest) reason
  /-- The name of an application behind whose first arguments there is nothing. -/
  | argument {head args void : Bytes} {function : Function} {trees : List Tree} :
      (depth : Int) < limit → Names table (args ++ void) head function →
      DerivesAll table (limit.toNat - (depth + 1)) args trees void → Void void →
      trees.length < function.arity →
      Offends table limit depth (head ++ (args ++ void))
        (.missingArgument (trees.length + 1) function.long)
  /-- The name of an application that is inside too many others. -/
  | nested {head rest : Bytes} {function : Function} :
      limit ≤ (depth : Int) → Names table rest head function →
      Offends table limit depth (head ++ rest) (.expressionDepth limit)

/-- A reason and a place are those of the token at fault at an offset in some bytes. -/
structure Blames (table : FunctionTable) (limit : Int) (label bytes : Bytes) (offset : Nat)
    (reason : Reason) (place : Place) : Prop where
  inside : offset < bytes.length
  place : place =
    { label
      line := (Position.behind (bytes.take offset)).line
      column := (Position.behind (bytes.take offset)).column }
  token : ∃ depth, Opens table limit 0 depth (bytes.take offset) (bytes.drop offset) ∧
    Offends table limit depth (bytes.drop offset) reason

theorem Wrong.ne_nil {table : FunctionTable} {rest token : Bytes} {reason : Reason}
    (hwrong : Wrong table rest token reason) : token ≠ [] := by
  cases hwrong with
  | number hne _ _ _ => exact hne
  | word _ _ _ _ _ => exact List.cons_ne_nil _ _
  | symbol _ _ _ => exact List.cons_ne_nil _ _

theorem Names.ne_nil {table : FunctionTable} {rest token : Bytes} {function : Function}
    (hnames : Names table rest token function) : token ≠ [] := by
  obtain ⟨byte, others, rfl, -⟩ := hnames.exists_cons
  exact List.cons_ne_nil byte others

theorem Offends.ne_nil {table : FunctionTable} {limit : Int} {depth : Nat} {bytes : Bytes}
    {reason : Reason} (hoffends : Offends table limit depth bytes reason) : bytes ≠ [] := by
  cases hoffends with
  | string _ _ => exact List.cons_ne_nil _ _
  | token hwrong => exact List.append_ne_nil_of_left_ne_nil hwrong.ne_nil _
  | argument _ hnames _ _ _ => exact List.append_ne_nil_of_left_ne_nil hnames.ne_nil _
  | nested _ hnames => exact List.append_ne_nil_of_left_ne_nil hnames.ne_nil _

namespace Scan

variable {grammar : Grammar}

/-- A failure points at a token at fault, which a scanner at the depth `outer` has yet to reach. -/
def Points (grammar : Grammar) (outer : Nat) (scanner : Scanner) (error : Error) : Prop :=
  ∃ taken bytes inner reason causes, scanner.unread = taken ++ bytes ∧
    Opens grammar.functions grammar.limit outer inner taken bytes ∧
    Offends grammar.functions grammar.limit inner bytes reason ∧
    error = errorAt grammar (scanner.position.after taken) reason causes

/-- A token at fault in an argument is at fault in the application. -/
theorem Points.argument {outer : Nat} {scanner middle : Scanner} {error : Error}
    {blank head args : Bytes} {function : Function} {trees : List Tree}
    (hpoints : Points grammar (outer + 1) middle error) (hdepth : (outer : Int) < grammar.limit)
    (hunread : scanner.unread = blank ++ (head ++ (args ++ middle.unread)))
    (hposition : middle.position = scanner.position.after (blank ++ (head ++ args)))
    (hblank : Blank blank) (hnames : Names grammar.functions (args ++ middle.unread) head function)
    (hargs : DerivesAll grammar.functions (grammar.limit.toNat - (outer + 1)) args trees
      middle.unread)
    (hcount : trees.length < function.arity) : Points grammar outer scanner error := by
  obtain ⟨taken, bytes, inner, reason, causes, hmiddle, hopens, hoffends, rfl⟩ := hpoints
  rw [hmiddle] at hunread hnames hargs
  refine ⟨blank ++ (head ++ (args ++ taken)), bytes, inner, reason, causes, ?_, ?_, hoffends, ?_⟩
  · simp only [hunread, List.append_assoc]
  · exact .argument hdepth hblank hnames hargs hcount hopens
  · rw [hposition, ← Position.after_append]
    simp only [List.append_assoc]

section Ending

variable (hending : grammar.failure = none)

include hending

/-- An expression that is read is derived, and the position goes past its bytes. -/
theorem expression_reads (budget : Nat) {scanner after : Scanner} {tree : Tree}
    (hpositive : scanner.position.IsPositive)
    (hread : expression grammar budget scanner = .ok tree after) :
    ∃ word, scanner.unread = word ++ after.unread ∧
      after.position = scanner.position.after word ∧
      Derives grammar.functions budget word tree after.unread := by
  obtain ⟨word, hword, hderives⟩ := expression_sound hending budget hread
  obtain ⟨taken, htaken, hposition⟩ := (advances_expression grammar budget).ok hpositive hread
  obtain rfl : word = taken := List.append_cancel_right (hword.symm.trans htaken)
  exact ⟨word, hword, hposition, hderives⟩

/-- Arguments fail where one of them fails, and those in front of it are derived. -/
theorem arguments_fail (budget : Nat) (function : Function) (start : Position) (index count : Nat)
    {scanner after : Scanner} {error : Error} (hpositive : scanner.position.IsPositive)
    (hread : arguments grammar (expression grammar budget) function start index count scanner =
      .error error after) :
    ∃ args trees middle cause, scanner.unread = args ++ middle.unread ∧
      middle.position = scanner.position.after args ∧
      DerivesAll grammar.functions budget args trees middle.unread ∧ trees.length < count ∧
      expression grammar budget middle = .error cause after ∧
      error = argumentError grammar function start (index + trees.length) cause := by
  induction count generalizing index scanner with
  | zero => cases hread
  | succ count ih =>
      rcases arguments_eq_error hread with ⟨cause, hfirst, herror⟩ | ⟨tree, next, hfirst, hrest⟩
      · exact ⟨[], [], scanner, cause, rfl, rfl, .nil, Nat.succ_pos count, hfirst, herror⟩
      · obtain ⟨word, hword, hposition, hderived⟩ :=
          expression_reads hending budget hpositive hfirst
        have hnext : next.position.IsPositive := hposition ▸ hpositive.after word
        obtain ⟨args, trees, middle, cause, hargs, hmiddle, hderives, hcount, hcause, herror⟩ :=
          ih (index + 1) hnext hrest
        refine ⟨word ++ args, tree :: trees, middle, cause, ?_, ?_, ?_, ?_, hcause, ?_⟩
        · rw [hword, hargs, List.append_assoc]
        · simp [hmiddle, hposition]
        · exact .cons (hargs ▸ hderived) hderives
        · exact Nat.succ_lt_succ hcount
        · rw [herror, List.length_cons, Nat.add_right_comm, Nat.add_assoc]

/-- An application that lacks an argument is at fault itself; one with an argument that fails leads
to what is at fault there. -/
theorem points_of_arguments {outer : Nat} (hdepth : (outer : Int) < grammar.limit)
    (hinner : ∀ {scanner after : Scanner} {error : Error}, scanner.position.IsPositive →
      expression grammar (grammar.limit.toNat - (outer + 1)) scanner = .error error after →
      error ≠ .endOfInput → Points grammar (outer + 1) scanner error)
    {scanner moved after : Scanner} {blank head : Bytes} {function : Function} {error : Error}
    (hpositive : scanner.position.IsPositive) (hblank : Blank blank)
    (hunread : scanner.unread = blank ++ (head ++ moved.unread))
    (hmoved : moved.position = scanner.position.after (blank ++ head))
    (hnames : Names grammar.functions moved.unread head function)
    (hargs : arguments grammar (expression grammar (grammar.limit.toNat - (outer + 1))) function
      (scanner.position.after blank) 1 function.arity moved = .error error after) :
    Points grammar outer scanner error := by
  have hpositive' : moved.position.IsPositive := hmoved ▸ hpositive.after (blank ++ head)
  obtain ⟨args, trees, middle, cause, hrest, hposition, hderives, hcount, hcause, rfl⟩ :=
    arguments_fail hending _ function _ 1 _ hpositive' hargs
  rw [hrest] at hunread hnames
  by_cases hend : cause = .endOfInput
  · subst hend
    have hvoid := expression_endOfInput hending hcause
    rw [argumentError, if_pos rfl, Nat.add_comm]
    exact ⟨blank, _, outer, _, _, hunread, .here hblank,
      .argument hdepth hnames hderives hvoid hcount, rfl⟩
  · have hmiddle : middle.position.IsPositive := hposition ▸ hpositive'.after args
    rw [argumentError, if_neg hend]
    refine (hinner hmiddle hcause hend).argument hdepth hunread ?_ hblank hnames hderives hcount
    rw [hposition, hmoved, ← Position.after_append, List.append_assoc]

/-- A failure other than that there is nothing to read points at a token at fault. -/
theorem expression_points (budget outer : Nat) (hbudget : budget = grammar.limit.toNat - outer)
    {scanner after : Scanner} {error : Error} (hpositive : scanner.position.IsPositive)
    (hread : expression grammar budget scanner = .error error after)
    (hne : error ≠ .endOfInput) : Points grammar outer scanner error := by
  induction budget using Nat.strongRecOn generalizing outer scanner after error with
  | _ budget ih =>
      have hshape := shape_total grammar.functions scanner.unread
      generalize hunread : scanner.unread = bytes at hshape
      cases hshape with
      | void hvoid =>
          rw [expression_void hending budget (hunread ▸ hvoid)] at hread
          cases hread
          exact absurd rfl hne
      | atom hblank hatom =>
          rw [expression_atom hending hblank budget hunread hatom] at hread
          cases hread
      | unclosed hblank hquote hcontents =>
          rw [expression_unclosed hending hblank budget hunread hquote hcontents] at hread
          cases hread
          exact ⟨_, _, outer, _, _, hunread, .here hblank, .string hquote hcontents, rfl⟩
      | wrong hblank hwrong =>
          obtain ⟨unread, position, herror⟩ := expression_wrong hending hblank budget hunread hwrong
          rw [herror] at hread
          cases hread
          exact ⟨_, _, outer, _, _, hunread, .here hblank, .token hwrong, rfl⟩
      | @application blank others rest byte function hblank hnames hfree =>
          cases budget with
          | zero =>
              rw [expression_application_zero hending hblank hunread hnames hfree] at hread
              cases hread
              have hnested : grammar.limit ≤ (outer : Int) := by omega
              exact ⟨_, _, outer, _, _, hunread, .here hblank, .nested hnested hnames, rfl⟩
          | succ inner =>
              rw [expression_application_succ hending hblank inner hunread hnames hfree] at hread
              have hdepth : (outer : Int) < grammar.limit := by omega
              obtain rfl : inner = grammar.limit.toNat - (outer + 1) := by omega
              rcases bind_eq_error hread with hargs | ⟨trees, middle, -, hdone⟩
              · exact points_of_arguments hending hdepth (ih _ (Nat.lt_succ_self _) (outer + 1) rfl)
                  hpositive hblank hunread rfl hnames hargs
              · cases hdone

end Ending

theorem Recast.outer_eq {text : Bytes} {plain failing : Error}
    (hrecast : Recast grammar text plain failing) : failing.outer = plain.outer := by
  cases hrecast with
  | same _ => rfl
  | string position => rfl

end Scan

theorem Grammar.parse_points {grammar : Grammar} (hending : grammar.failure = none) {bytes : Bytes}
    {error : Error} {scanner : Scanner} (hparse : grammar.parse bytes = .error error scanner)
    (hne : error ≠ .endOfInput) :
    Scan.Points grammar 0 { unread := bytes } error :=
  Scan.expression_points hending _ 0 rfl ⟨Nat.one_pos, Nat.one_pos⟩ hparse hne

/-- A failure with a place is found in the same bytes where the source just ends after them. -/
theorem Run.parse_points {machine : Machine} {label bytes : Bytes} {failure : Option Bytes}
    {error : Error} {scanner : Scanner}
    (hparse : (machine.grammar label failure).parse bytes = .error error scanner)
    {reason : Reason} {place : Place} (hraised : error.outer = .raised reason place)
    (hplace : place ≠ {}) :
    ∃ other, other.outer = .raised reason place ∧
      Scan.Points (machine.grammar label none) 0 { unread := bytes } other := by
  cases failure with
  | none =>
      have hne : error ≠ .endOfInput := by
        rintro rfl
        cases hraised
      exact ⟨error, hraised, Grammar.parse_points rfl hparse hne⟩
  | some text =>
      have hinterrupts : Scan.Interrupts (machine.grammar label none) text _
          (Scan.expression (machine.grammar label (some text)) machine.maxDepth.toNat) :=
        Scan.interrupts_expression rfl machine.maxDepth.toNat
      rcases hinterrupts.error hparse with rfl | ⟨other, hother, hrecast⟩
      · cases hraised
        exact absurd rfl hplace
      · have hother' : (machine.grammar label none).parse bytes = .error other scanner := hother
        refine ⟨other, ?_, Grammar.parse_points rfl hother' hrecast.ne_endOfInput.1⟩
        rw [← hrecast.outer_eq, hraised]

/-- A failure of a parse that has a place points at an offset in the source: the line is one more
than the newlines in front of it, the column one more than the bytes after the last of them, and the
token at the offset is the one at fault. -/
theorem Run.parseFrom_error_points {machine after : Machine} {source rest : Source} {label : Bytes}
    {error : Error} (hfrom : parseFrom source label machine = .ok (.error error, rest) after)
    {reason : Reason} {place : Place} (hraised : error.outer = .raised reason place)
    (hplace : place ≠ {}) :
    ∃ offset,
      Blames machine.functions machine.maxDepth label source.unread offset reason place := by
  obtain ⟨scanner, hparse, -⟩ := parse_of_parseFrom_error hfrom
  obtain ⟨other, hother, taken, bytes, depth, reason', causes, hunread, hopens, hoffends, rfl⟩ :=
    parse_points hparse hraised hplace
  dsimp only at hunread hopens hoffends hother
  rw [Position.after_eq_behind] at hother
  cases hother
  have htake : source.unread.take taken.length = taken := by rw [hunread, List.take_left]
  have hdrop : source.unread.drop taken.length = bytes := by rw [hunread, List.drop_left]
  refine ⟨taken.length, ?_, ?_, depth, ?_, ?_⟩
  · have hpositive := List.length_pos_iff.mpr hoffends.ne_nil
    rw [hunread, List.length_append]
    omega
  · rw [htake]
    rfl
  · rw [htake, hdrop]
    exact hopens
  · rw [hdrop]
    exact hoffends

theorem parse_product :
    (match (({} : Machine).grammar "sum" none).parse "# sum\n+ 1 * 2" with
      | .ok _ _ => none
      | .error error _ => some error) =
      some { outer := .raised (.missingArgument 2 "*") { label := "sum", line := 2, column := 5 }
             causes := [.unexpectedEnd] } := by
  decide +kernel

/-- A product inside a sum, on the second line, that lacks an argument. -/
theorem Run.parseFrom_error_points_product :
    ∃ error rest after,
      parseFrom { unread := "# sum\n+ 1 * 2" } "sum" {} = .ok (.error error, rest) after ∧
      error.text = "sum:2:5: missing argument 2 to *: unexpected EOF" ∧
      ∃ offset, Blames .standard 10000 "sum" "# sum\n+ 1 * 2" offset (.missingArgument 2 "*")
        { label := "sum", line := 2, column := 5 } := by
  have hread := parse_product
  split at hread
  · cases hread
  · next error scanner hparse =>
      rw [Option.some.injEq] at hread
      obtain ⟨after, -, hfrom⟩ := parseFrom_of_error hparse
      refine ⟨error, _, after, hfrom, ?_, ?_⟩
      · rw [hread]
        decide +kernel
      · exact parseFrom_error_points hfrom (congrArg Error.outer hread) (by decide)

end KnightLang
