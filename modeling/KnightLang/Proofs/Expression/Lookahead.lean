import KnightLang.Proofs.Expression.Continuation
import KnightLang.Proofs.Expression.Locations

/-!
Which failures of a parse come from its source. Reading either comes to its result within the bytes
at hand, whatever follows them, or it asks for what follows; and only then does it matter that the
source fails there.
-/

namespace KnightLang

/-- No link of an error is a text of a collaborator. -/
def Error.IsTextless (error : Error) : Prop := ∀ text, .plain text ∉ error.links

namespace Scan

/-- A result with more bytes behind what it leaves unread. -/
def extended {α : Type} (more : Bytes) :
    EStateM.Result Error Scanner α → EStateM.Result Error Scanner α
  | .ok value after => .ok value (after.extend more)
  | .error error after => .error error (after.extend more)

/-- The failures that a failing source can cause. -/
inductive Interrupted (grammar : Grammar) (text : Bytes) : Error → Prop where
  | atEnd : Interrupted grammar text (atEnd (grammar.failing text))
  | string (position : Position) :
      Interrupted grammar text (errorAt grammar position .unterminatedString [.plain text])

/-- A name of a variable that no token before it can leave unread, but for a number. -/
def probe : Bytes := [95]

/-- Whether nothing is unread, or only the probe. -/
def Scanner.IsSpent (scanner : Scanner) : Prop := scanner.unread = [] ∨ scanner.unread = probe

/-- A result that used up its input; only the probe may be left, and only for a success. -/
def Spends {α : Type} : EStateM.Result Error Scanner α → Prop
  | .ok _ after => Scanner.IsSpent after
  | .error _ after => after.unread = []

/-- Reading comes to its result within what is unread, whether or not the source fails behind it;
or it asks for what follows, which interrupts it if the source fails and which it uses up if there
is more. -/
inductive Asks (grammar : Grammar) (text : Bytes) {α : Type} (plain failing : Scan α)
    (scanner : Scanner) : Prop where
  | never : (∀ more, plain (scanner.extend more) = extended more (failing scanner)) →
      Asks grammar text plain failing scanner
  | ends {error : Error} {after : Scanner} : failing scanner = .error error after →
      Interrupted grammar text error → Spends (plain (scanner.extend probe)) →
      Asks grammar text plain failing scanner

variable {grammar : Grammar} {text : Bytes}

theorem Interrupted.ne_endOfInput {error : Error} (hinterrupted : Interrupted grammar text error) :
    error ≠ .endOfInput := by
  cases hinterrupted with
  | atEnd => exact atEnd_failing_ne_endOfInput
  | string position => exact fun heq => nomatch heq

section Sequence

variable {α β : Type} {plain failing : Scan α} {scanner : Scanner}

theorem spends_bind {next : α → Scan β} (hread : Spends (plain scanner))
    (hnext : ∀ value {middle : Scanner}, Scanner.IsSpent middle → Spends (next value middle)) :
    Spends ((plain >>= next) scanner) := by
  cases hplain : plain scanner with
  | ok value middle =>
      rw [bind_ok hplain]
      rw [hplain] at hread
      exact hnext value hread
  | error error after =>
      rw [bind_error hplain]
      rwa [hplain] at hread

namespace Asks

/-- What does not depend on the unread bytes asks for none. -/
theorem never_of_eq {result : EStateM.Result Error Scanner α} (hfailing : failing scanner = result)
    (hplain : ∀ more, plain (scanner.extend more) = extended more result) :
    Asks grammar text plain failing scanner := .never (hfailing ▸ hplain)

theorem pure (value : α) :
    Asks grammar text (Pure.pure value) (Pure.pure value) scanner := .never fun _ => rfl

/-- Reading goes on where something was read that asked for nothing. -/
theorem goes_on {next next' : α → Scan β} {value : α} {middle : Scanner}
    (hfailing : failing scanner = .ok value middle)
    (hplain : ∀ more, plain (scanner.extend more) = .ok value (middle.extend more))
    (hnext : Asks grammar text (next value) (next' value) middle) :
    Asks grammar text (plain >>= next) (failing >>= next') scanner := by
  cases hnext with
  | never hlast =>
      refine never_of_eq (bind_ok hfailing) fun more => ?_
      rw [bind_ok (hplain more)]
      exact hlast more
  | ends herror hinterrupted hspent =>
      refine .ends ((bind_ok hfailing).trans herror) hinterrupted ?_
      rwa [bind_ok (hplain probe)]

theorem bind {next next' : α → Scan β} (hfirst : Asks grammar text plain failing scanner)
    (hnext : ∀ value middle, Asks grammar text (next value) (next' value) middle)
    (hspends : ∀ value {middle : Scanner}, Scanner.IsSpent middle → Spends (next value middle)) :
    Asks grammar text (plain >>= next) (failing >>= next') scanner := by
  cases hfirst with
  | ends hfailing hinterrupted hspent =>
      exact .ends (bind_error hfailing) hinterrupted (spends_bind hspent hspends)
  | never hplain =>
      cases hfailing : failing scanner with
      | ok value middle =>
          rw [hfailing] at hplain
          exact goes_on hfailing hplain (hnext value middle)
      | error error after =>
          rw [hfailing] at hplain
          exact never_of_eq (bind_error hfailing) fun more => bind_error (hplain more)

/-- What comes next may count on the position, which does not depend on what follows. -/
theorem observe {next next' : Scanner → Scan α}
    (hsame : ∀ more, next (scanner.extend more) = next scanner)
    (hnext : Asks grammar text (next scanner) (next' scanner) scanner) :
    Asks grammar text (get >>= next) (get >>= next') scanner := by
  have hplain (more : Bytes) :
      (get >>= next) (scanner.extend more) = next scanner (scanner.extend more) :=
    congrFun (hsame more) _
  cases hnext with
  | never hlast => exact .never fun more => (hplain more).trans (hlast more)
  | ends herror hinterrupted hspent =>
      refine .ends herror hinterrupted ?_
      rwa [hplain probe]

theorem ite {condition : Prop} [Decidable condition] {other other' : Scan α}
    (hthen : condition → Asks grammar text plain failing scanner)
    (helse : ¬condition → Asks grammar text other other' scanner) :
    Asks grammar text (if condition then plain else other)
      (if condition then failing else other') scanner := by
  split
  · next hcondition => exact hthen hcondition
  · next hcondition => exact helse hcondition

end Asks

end Sequence

/-! ### Tokens -/

/-- Digits that end before other bytes end there whatever follows. -/
theorem literalDigits_append (total : Int64) (position : Position) (bytes more : Bytes) :
    literalDigits total position (bytes ++ more) =
      match literalDigits total position bytes with
      | (total, position, []) => literalDigits total position more
      | (total, position, byte :: rest) => (total, position, byte :: rest ++ more) := by
  induction bytes generalizing total position with
  | nil => rfl
  | cons byte rest ih =>
      simp only [List.cons_append, literalDigits]
      split
      · exact ih _ _
      · rfl

theorem asks_number (scanner : Scanner) :
    Asks grammar text (number grammar) (number (grammar.failing text)) scanner := by
  have hmore (more : Bytes) := literalDigits_append 0 scanner.position scanner.unread more
  generalize hdigits : literalDigits 0 scanner.position scanner.unread = digits at hmore
  obtain ⟨total, position, rest⟩ := digits
  cases rest with
  | nil =>
      -- The probe is no digit, so it ends the number and stays unread.
      have hprobe : literalDigits 0 scanner.position (scanner.unread ++ probe) =
          (total, position, probe) := hmore probe
      refine .ends (by simp only [number, hdigits]; rfl) .atEnd ?_
      simp only [number, Scanner.extend, hprobe]
      exact Or.inr rfl
  | cons byte rest =>
      refine .never fun more => ?_
      simp only [number, Scanner.extend, hmore more, hdigits]
      dsimp only [List.cons_append]
      split <;> rfl

theorem quoted_interrupted {quote : UInt8} {contents : Bytes} {scanner : Scanner}
    (hunread : scanner.unread = quote :: contents) (hquote : quote ∉ contents) :
    quoted (grammar.failing text) quote scanner =
      .error (errorAt grammar scanner.position .unterminatedString [.plain text])
        { scanner with unread := [], position := scanner.position.after (quote :: contents) } :=
  quoted_cut hunread hquote

/-- A run of bytes that may go on into the probe, and what is made of it. -/
theorem asks_run (hending : grammar.failure = none) {α : Type} {test : UInt8 → Bool}
    (htest : test 95 = true) {next next' : Bytes → Scan α} (scanner : Scanner)
    (hnext : ∀ run middle, Asks grammar text (next run) (next' run) middle)
    (hspends : ∀ run {middle : Scanner}, middle.unread = [] → Spends (next run middle)) :
    Asks grammar text
      (do
        let run ← takeRun test
        checkEnd grammar
        next run)
      (do
        let run ← takeRun test
        checkEnd (grammar.failing text)
        next' run) scanner := by
  obtain ⟨run, rest, hunread, hrun, hstops⟩ := exists_run test scanner.unread
  cases rest with
  | nil =>
      refine .ends ((bind_ok (takeRun_eq hunread hrun hstops)).trans (bind_error rfl)) .atEnd ?_
      have hlonger : (scanner.extend probe).unread = (run ++ probe) ++ [] := by
        simp [Scanner.extend, hunread]
      have hprobe : ∀ byte ∈ run ++ probe, test byte = true := by
        intro byte hmem
        rcases List.mem_append.mp hmem with hmem | hmem
        · exact hrun byte hmem
        · rw [List.mem_singleton.mp hmem]
          exact htest
      rw [bind_ok (takeRun_eq hlonger hprobe hstops), bind_ok (checkEnd_eq hending _)]
      exact hspends _ rfl
  | cons byte others =>
      -- The run has ended, and the check passes on both sides.
      let moved : Scanner :=
        { scanner with unread := byte :: others, position := scanner.position.after run }
      have hfailing : (do
          let run ← takeRun test
          checkEnd (grammar.failing text)
          next' run : Scan α) scanner = next' run moved :=
        (bind_ok (takeRun_eq hunread hrun hstops)).trans (bind_ok rfl)
      have hplain (more : Bytes) : (do
          let run ← takeRun test
          checkEnd grammar
          next run : Scan α) (scanner.extend more) = next run (moved.extend more) := by
        have hlonger : (scanner.extend more).unread = run ++ (byte :: others ++ more) := by
          simp [Scanner.extend, hunread]
        exact (bind_ok (takeRun_eq hlonger hrun hstops)).trans (bind_ok (checkEnd_eq hending _))
      cases hnext run moved with
      | never hlast =>
          exact .never_of_eq hfailing fun more => (hplain more).trans (hlast more)
      | ends herror hinterrupted hspent =>
          refine .ends (hfailing.trans herror) hinterrupted ?_
          rwa [hplain probe]

section Ending

variable (hending : grammar.failure = none)

include hending

theorem asks_identifier (scanner : Scanner) :
    Asks grammar text (identifier grammar) (identifier (grammar.failing text)) scanner :=
  asks_run hending rfl scanner (fun _ _ => .never fun _ => rfl) fun _ _ hspent => Or.inl hspent

/-- A string that its quote does not end goes on to the end of the source. -/
theorem asks_quoted {quote : UInt8} (hquote : quote = 34 ∨ quote = 39) {scanner : Scanner}
    {rest : Bytes} (hunread : scanner.unread = quote :: rest) :
    Asks grammar text (quoted grammar quote) (quoted (grammar.failing text) quote) scanner := by
  by_cases hclosed : quote ∈ rest
  · obtain ⟨contents, rest, rfl, hcontents⟩ := List.eq_append_cons_of_mem hclosed
    refine .never_of_eq (quoted_eq hunread hcontents) fun more => ?_
    have hlonger : (scanner.extend more).unread =
        quote :: (contents ++ quote :: (rest ++ more)) := by
      simp [Scanner.extend, hunread]
    exact quoted_eq hlonger hcontents
  · have hlonger : (scanner.extend probe).unread = quote :: (rest ++ probe) := by
      simp [Scanner.extend, hunread]
    have hprobe : quote ∉ rest ++ probe := by
      rcases hquote with rfl | rfl <;> simpa [probe] using hclosed
    refine .ends (quoted_interrupted hunread hclosed) (.string scanner.position) ?_
    rw [quoted_unclosed hending hlonger hprobe]
    rfl

/-- The head of an application that reaches the end of the input goes on into the probe and uses it
up. -/
theorem asks_head {α : Type} {next next' : Head → Scan α}
    (hnext : ∀ token middle, Asks grammar text (next token) (next' token) middle)
    (hspends : ∀ token {middle : Scanner}, middle.unread = [] → Spends (next token middle))
    {byte : UInt8} {scanner : Scanner} {rest : Bytes} (hunread : scanner.unread = byte :: rest) :
    Asks grammar text (head grammar byte >>= next) (head (grammar.failing text) byte >>= next')
      scanner := by
  have hplain (more : Bytes) : advance (scanner.extend more) = .ok ⟨⟩
      (Scanner.extend { scanner with unread := rest, position := scanner.position.next byte }
        more) :=
    advance_eq (by simp [Scanner.extend, hunread])
  unfold head
  by_cases hupper : Byte.isUpper byte = true
  · simp only [hupper, ↓reduceIte, bind_assoc]
    refine .observe (fun _ => rfl) (.goes_on (advance_eq hunread) hplain ?_)
    refine asks_run hending rfl _ (fun run middle => ?_) fun run {middle} hspent => ?_
    · dsimp only [Grammar.failing]
      split_ifs
      · exact hnext _ middle
      · exact hnext _ middle
      · exact hnext _ middle
      · cases grammar.functions.find? byte with
        | none => exact .never fun _ => rfl
        | some function => exact hnext _ middle
    · split_ifs
      · exact hspends _ hspent
      · exact hspends _ hspent
      · exact hspends _ hspent
      · cases grammar.functions.find? byte with
        | none => exact hspent
        | some function => exact hspends _ hspent
  · simp only [hupper, Bool.false_eq_true, ↓reduceIte, bind_assoc]
    refine .observe (fun _ => rfl) ?_
    dsimp only [Grammar.failing]
    cases grammar.functions.find? byte with
    | none => exact .never fun _ => rfl
    | some function =>
        rw [bind_assoc, bind_assoc]
        exact .goes_on (advance_eq hunread) hplain (hnext _ _)

/-! ### Expressions -/

end Ending

theorem atom_probe : Atom [] probe (.variable probe) :=
  .variable rfl (List.forall_mem_nil _) fun _ hmem => nomatch hmem

/-- What is left of the input after it was asked for is no more than one variable. -/
theorem spends_expression (hending : grammar.failure = none) (budget : Nat) {scanner : Scanner}
    (hspent : Scanner.IsSpent scanner) : Spends (expression grammar budget scanner) := by
  rcases hspent with hnone | hprobe
  · rw [expression_void hending budget (hnone ▸ .blank .nil)]
    rfl
  · have hunread : scanner.unread = [] ++ (probe ++ []) := hprobe
    rw [expression_atom hending .nil budget hunread atom_probe]
    exact Or.inl rfl

/-- An argument, whose absence is a failure of the application. -/
def argument (grammar : Grammar) (expression : Scan Tree) (function : Function) (start : Position)
    (index : Nat) : Scan Tree := fun scanner =>
  match expression scanner with
  | .ok tree after => .ok tree after
  | .error error after => .error (argumentError grammar function start index error) after

theorem arguments_succ (expression : Scan Tree) (function : Function) (start : Position)
    (index count : Nat) :
    arguments grammar expression function start index (count + 1) =
      (do
        let first ← argument grammar expression function start index
        let rest ← arguments grammar expression function start (index + 1) count
        return first :: rest) := by
  funext scanner
  simp only [bind, EStateM.bind, argument]
  cases hfirst : expression scanner with
  | ok tree middle => exact arguments_of_ok hfirst
  | error error after => exact arguments_of_error hfirst

section Arguments

variable {plain failing : Scan Tree}
  (hspends : ∀ {scanner : Scanner}, Scanner.IsSpent scanner → Spends (plain scanner))
  (function : Function) (start : Position) (index count : Nat)

theorem spends_argument {scanner : Scanner} (hread : Spends (plain scanner)) :
    Spends (argument grammar plain function start index scanner) := by
  unfold argument
  cases hplain : plain scanner <;> rwa [hplain] at hread

include hspends in
theorem spends_arguments {scanner : Scanner} (hspent : Scanner.IsSpent scanner) :
    Spends (arguments grammar plain function start index count scanner) := by
  induction count generalizing index scanner with
  | zero => exact hspent
  | succ count ih =>
      rw [arguments_succ]
      refine spends_bind (spends_argument function start index (hspends hspent)) ?_
      intro tree middle hmiddle
      exact spends_bind (ih (index + 1) hmiddle) fun _ {_} hrest => hrest

theorem asks_argument {scanner : Scanner} (hasks : Asks grammar text plain failing scanner) :
    Asks grammar text (argument grammar plain function start index)
      (argument (grammar.failing text) failing function start index) scanner := by
  cases hasks with
  | never hplain =>
      refine .never fun more => ?_
      unfold argument
      rw [hplain more]
      cases failing scanner <;> rfl
  | @ends error after hfailing hinterrupted hspent =>
      -- The failure of the source is passed on as it is.
      have hargument : argument (grammar.failing text) failing function start index scanner =
          .error error after := by
        simp only [argument, hfailing, argumentError, if_neg hinterrupted.ne_endOfInput]
      exact .ends hargument hinterrupted (spends_argument function start index hspent)

include hspends in
theorem asks_arguments (hasks : ∀ scanner, Asks grammar text plain failing scanner)
    (scanner : Scanner) :
    Asks grammar text (arguments grammar plain function start index count)
      (arguments (grammar.failing text) failing function start index count) scanner := by
  induction count generalizing index scanner with
  | zero => exact .pure []
  | succ count ih =>
      have hcons (tree : Tree) (rest : List Tree) {middle : Scanner}
          (hmiddle : Scanner.IsSpent middle) :
          Spends ((pure (tree :: rest) : Scan (List Tree)) middle) := hmiddle
      rw [arguments_succ, arguments_succ]
      refine (asks_argument function start index (hasks scanner)).bind (fun tree middle => ?_) ?_
      · exact (ih (index + 1) middle).bind (fun _ _ => .pure _) (hcons tree)
      · intro tree middle hmiddle
        exact spends_bind (spends_arguments hspends function start (index + 1) count hmiddle)
          (hcons tree)

end Arguments

variable (hending : grammar.failure = none)

include hending

/-- Behind blanks at the end of the input, reading asks for what follows. -/
theorem ends_of_void (budget : Nat) {scanner : Scanner} (hvoid : Void scanner.unread) :
    Asks grammar text (expression grammar budget) (expression (grammar.failing text) budget)
      scanner := by
  have hread : expression (grammar.failing text) budget scanner =
      .error (atEnd (grammar.failing text))
        { scanner with unread := [], position := scanner.position.after scanner.unread } := by
    rw [expression.eq_def]
    refine bind_error ?_
    simp only [peekToken, skipBlank_void hvoid]
  refine .ends hread .atEnd ?_
  generalize hunread : scanner.unread = bytes at hvoid
  cases hvoid with
  | blank hblank =>
      have hlonger : (scanner.extend probe).unread = bytes ++ (probe ++ []) := by
        simp [Scanner.extend, hunread]
      rw [expression_atom hending hblank budget hlonger atom_probe]
      exact Or.inl rfl
  | @comment blank comment hblank hcomment =>
      have hlonger : (scanner.extend probe).unread = blank ++ 35 :: (comment ++ probe) := by
        simp [Scanner.extend, hunread]
      have hprobe : Byte.newline ∉ comment ++ probe := by
        simpa [probe, show Byte.newline ≠ 95 by decide] using hcomment
      have hvoid : Void (scanner.extend probe).unread := hlonger ▸ .comment hblank hprobe
      rw [expression_void hending budget hvoid]
      rfl

/-- An expression is read within the input, or it is what a failing source interrupts. -/
theorem asks_expression (budget : Nat) (scanner : Scanner) :
    Asks grammar text (expression grammar budget) (expression (grammar.failing text) budget)
      scanner := by
  induction budget using Nat.strongRecOn generalizing scanner with
  | _ budget ih =>
      rcases void_or_opens scanner.unread with hvoid | ⟨blank, byte, rest, hunread, hblank, hopens⟩
      · exact ends_of_void hending budget hvoid
      · rw [expression.eq_def, expression.eq_def]
        have hlonger (more : Bytes) :
            (scanner.extend more).unread = blank ++ byte :: (rest ++ more) := by
          simp [Scanner.extend, hunread]
        refine .goes_on (peekToken_opens _ hunread hblank hopens)
          (fun more => peekToken_opens grammar (hlonger more) hblank hopens) ?_
        refine .observe (fun _ => rfl) ?_
        refine .ite (fun _ => asks_number _) fun _ => ?_
        refine .ite (fun _ => asks_identifier hending _) fun _ => ?_
        refine .ite (fun hquote => asks_quoted hending (by simpa using hquote) rfl) fun _ => ?_
        refine asks_head hending (fun token middle => ?_) (fun token {middle} hspent => ?_) rfl
        · cases token with
          | literal tree => exact .pure tree
          | function function =>
              cases budget with
              | zero => exact .never fun _ => rfl
              | succ budget =>
                  refine Asks.bind ?_ (fun _ _ => .pure _) fun _ {_} hmiddle => hmiddle
                  exact asks_arguments (spends_expression hending budget) function _ 1 _
                    (ih budget (Nat.lt_succ_self budget)) middle
        · cases token with
          | literal tree => exact Or.inl hspent
          | function function =>
              cases budget with
              | zero => exact hspent
              | succ budget =>
                  refine spends_bind ?_ fun _ {_} hmiddle => hmiddle
                  exact spends_arguments (spends_expression hending budget) function _ 1 _
                    (Or.inl hspent)

omit hending in
theorem isTextless_errorAt (position : Position) (reason : Reason) {causes : List Link}
    (hcauses : causes ⊆ [.unexpectedEnd]) :
    (errorAt grammar position reason causes).IsTextless := by
  intro text hmem
  rcases List.mem_cons.mp hmem with heq | hmem
  · cases heq
  · cases List.mem_singleton.mp (hcauses hmem)

omit hending in
theorem isTextless_arguments {read : Scan Tree}
    (hread : ∀ {scanner after : Scanner} {error : Error}, read scanner = .error error after →
      error.IsTextless)
    (function : Function) (start : Position) (index count : Nat) {scanner after : Scanner}
    {error : Error}
    (hargs : arguments grammar read function start index count scanner = .error error after) :
    error.IsTextless := by
  induction count generalizing index scanner with
  | zero => cases hargs
  | succ count ih =>
      rcases arguments_eq_error hargs with ⟨cause, hfirst, rfl⟩ | ⟨tree, middle, -, hrest⟩
      · unfold argumentError
        split
        · exact isTextless_errorAt start _ (List.Subset.refl _)
        · exact hread hfirst
      · exact ih (index + 1) hrest

/-- No failure that is found in a source that just ends has a text of a collaborator in it. -/
theorem isTextless_of_error {budget : Nat} {scanner after : Scanner} {error : Error}
    (hread : expression grammar budget scanner = .error error after) : error.IsTextless := by
  induction budget using Nat.strongRecOn generalizing scanner after error with
  | _ budget ih =>
      have hshape := shape_total grammar.functions scanner.unread
      generalize hunread : scanner.unread = bytes at hshape
      cases hshape with
      | void hvoid =>
          rw [expression_void hending budget (hunread ▸ hvoid)] at hread
          cases hread
          exact fun text hmem => nomatch List.mem_singleton.mp hmem
      | atom hblank hatom =>
          rw [expression_atom hending hblank budget hunread hatom] at hread
          cases hread
      | unclosed hblank hquote hcontents =>
          rw [expression_unclosed hending hblank budget hunread hquote hcontents] at hread
          cases hread
          exact isTextless_errorAt _ _ (List.Subset.refl _)
      | wrong hblank hwrong =>
          obtain ⟨unread, position, herror⟩ := expression_wrong hending hblank budget hunread hwrong
          rw [herror] at hread
          cases hread
          exact isTextless_errorAt _ _ (List.nil_subset _)
      | application hblank hnames hfree =>
          cases budget with
          | zero =>
              rw [expression_application_zero hending hblank hunread hnames hfree] at hread
              cases hread
              exact isTextless_errorAt _ _ (List.nil_subset _)
          | succ inner =>
              rw [expression_application_succ hending hblank inner hunread hnames hfree] at hread
              rcases bind_eq_error hread with hargs | ⟨trees, middle, -, hdone⟩
              · exact isTextless_arguments (ih inner (Nat.lt_succ_self inner)) _ _ 1 _ hargs
              · cases hdone

end Scan

/-! ### Parsing in a machine -/

namespace Run

/-- A parse comes to a failure within some bytes: it fails so whatever follows them, and leaves what
follows unread. -/
def FailsWithin (machine : Machine) (label bytes : Bytes) (error : Error) : Prop :=
  ∀ more, ∃ rest after, parseFrom { unread := bytes ++ more } label machine =
    .ok (.error error, rest) after ∧ more <:+ rest.unread

variable {machine : Machine} {label bytes text : Bytes} {error : Error}

theorem parse_of_fails {failure : Option Bytes} {rest : Source} {after : Machine}
    (hfrom : parseFrom { unread := bytes, failure } label machine =
      .ok (.error error, rest) after) :
    ∃ scanner, (machine.grammar label failure).parse bytes = .error error scanner ∧
      rest.unread = scanner.unread := by
  obtain ⟨scanner, hparse, -⟩ := parse_of_parseFrom_error hfrom
  obtain ⟨after', -, hfrom'⟩ := parseFrom_of_error hparse
  rw [hfrom] at hfrom'
  cases hfrom'
  exact ⟨scanner, hparse, rfl⟩

/-- What fails within its bytes fails alike if the source fails behind them. -/
theorem FailsWithin.parse_failing (hwithin : FailsWithin machine label bytes error)
    (text : Bytes) :
    ∃ scanner, (machine.grammar label (some text)).parse bytes = .error error scanner := by
  have hasks : Scan.Asks (machine.grammar label none) text _
      (Scan.expression (machine.grammar label (some text)) machine.maxDepth.toNat) _ :=
    Scan.asks_expression rfl machine.maxDepth.toNat { unread := bytes }
  cases hasks with
  | never hplain =>
      obtain ⟨rest, after, hfrom, -⟩ := hwithin []
      obtain ⟨scanner, hparse, -⟩ := parse_of_fails hfrom
      have hsame := (hplain []).symm.trans hparse
      generalize hfailing : Scan.expression (machine.grammar label (some text)) _ _ = result
        at hsame
      cases result with
      | ok tree after => cases hsame
      | error error after =>
          cases hsame
          exact ⟨after, hfailing⟩
  | ends _ _ hspends =>
      -- Nothing of the probe would be left if it had been asked for.
      obtain ⟨rest, after, hfrom, hsuffix⟩ := hwithin Scan.probe
      obtain ⟨scanner, hparse, hrest⟩ := parse_of_fails hfrom
      have hplain : Scan.expression (machine.grammar label none) machine.maxDepth.toNat
          (Scanner.extend { unread := bytes } Scan.probe) = .error error scanner := hparse
      rw [hplain] at hspends
      rw [hrest, hspends] at hsuffix
      cases List.suffix_nil.mp hsuffix

theorem failsWithin_of_never
    (hnever : ∀ more, Scan.expression (machine.grammar label none) machine.maxDepth.toNat
      (Scanner.extend { unread := bytes } more) =
        Scan.extended more (Scan.expression (machine.grammar label (some text))
          machine.maxDepth.toNat { unread := bytes }))
    {scanner : Scanner}
    (hparse : (machine.grammar label (some text)).parse bytes = .error error scanner) :
    FailsWithin machine label bytes error ∧ error.IsTextless := by
  have hfailing : Scan.expression (machine.grammar label (some text)) machine.maxDepth.toNat
      { unread := bytes } = .error error scanner := hparse
  simp only [hfailing] at hnever
  refine ⟨fun more => ?_, Scan.isTextless_of_error rfl (hnever [])⟩
  have hparse' : (machine.grammar label none).parse (bytes ++ more) =
      .error error (scanner.extend more) := hnever more
  obtain ⟨after, -, hfrom⟩ := parseFrom_of_error hparse'
  exact ⟨_, after, hfrom, List.suffix_append _ _⟩

/-- A string that a failing source interrupts is on some line. -/
theorem line_of_interrupted {position : Position} {scanner : Scanner}
    (hparse : (machine.grammar label (some text)).parse bytes =
      .error (Scan.errorAt (machine.grammar label none) position .unterminatedString [.plain text])
        scanner) : 0 < position.line := by
  have hinterrupts : Scan.Interrupts (machine.grammar label none) text _
      (Scan.expression (machine.grammar label (some text)) machine.maxDepth.toNat) :=
    Scan.interrupts_expression rfl machine.maxDepth.toNat
  rcases hinterrupts.error hparse with heq | ⟨other, hother, hrecast⟩
  · cases heq
  · obtain ⟨taken, -, -, reason, causes, -, -, -, rfl⟩ :=
      Grammar.parse_points rfl hother hrecast.ne_endOfInput.1
    have hplace := Link.raised.inj hrecast.outer_eq
    have hline := Int.ofNat.inj (congrArg Place.line hplace.2)
    rw [hline]
    exact (Position.IsPositive.after ⟨Nat.one_pos, Nat.one_pos⟩ taken).1

/-- A source that fails behind its bytes fails a parse in one of three ways. A failure that the
parse comes to within the bytes is reported as it is. Otherwise the failure of the source is
reported, as an external one; but within a string it is the cause of a failure to parse, at the
quote of the string. -/
theorem parseFrom_failing (machine : Machine) (label bytes text : Bytes) :
    (∀ error, FailsWithin machine label bytes error →
      ∃ rest after, parseFrom { unread := bytes, failure := some text } label machine =
        .ok (.error error, rest) after) ∧
    ∀ error rest after, parseFrom { unread := bytes, failure := some text } label machine =
        .ok (.error error, rest) after →
      (FailsWithin machine label bytes error ∧ error.IsTextless) ∨
      (error = .because (.readingSource label) (.plain text) ∧ error.kind = .external) ∨
      ∃ offset place, error.kind = .parse ∧
        error = { outer := .raised .unterminatedString place, causes := [.plain text] } ∧
        Blames machine.functions machine.maxDepth label bytes offset .unterminatedString place := by
  refine ⟨fun error hwithin => ?_, fun error rest after hfrom => ?_⟩
  · obtain ⟨scanner, hparse⟩ := hwithin.parse_failing text
    obtain ⟨after, -, hfrom⟩ := parseFrom_of_error hparse
    exact ⟨_, after, hfrom⟩
  · obtain ⟨scanner, hparse, -⟩ := parse_of_fails hfrom
    have hasks : Scan.Asks (machine.grammar label none) text _
        (Scan.expression (machine.grammar label (some text)) machine.maxDepth.toNat) _ :=
      Scan.asks_expression rfl machine.maxDepth.toNat { unread := bytes }
    cases hasks with
    | never hnever => exact Or.inl (failsWithin_of_never hnever hparse)
    | ends hfailing hinterrupted _ =>
        cases hfailing.symm.trans hparse
        cases hinterrupted with
        | atEnd => exact Or.inr (Or.inl ⟨rfl, rfl⟩)
        | string position =>
            have hline := line_of_interrupted hparse
            obtain ⟨offset, hblames⟩ := parseFrom_error_points hfrom rfl fun heq =>
              hline.ne' (Int.ofNat.inj (congrArg Place.line heq))
            exact Or.inr (Or.inr ⟨offset, _, rfl, rfl, hblames⟩)

/-- A source that fails within a string is not an external failure: the failure of the source is in
the chain, and the kind is that of a failure to parse. -/
theorem parseFrom_failing_string :
    ¬∀ (machine : Machine) (label bytes text : Bytes) (error : Error) (rest : Source)
      (after : Machine), parseFrom { unread := bytes, failure := some text } label machine =
        .ok (.error error, rest) after →
      .plain text ∈ error.links → error.kind = .external := by
  intro hexternal
  have hread : (match (({} : Machine).grammar "main" (some "disk on fire")).parse "'abc" with
      | .ok _ _ => none
      | .error error _ => some error) =
      some { outer := .raised .unterminatedString { label := "main", line := 1, column := 1 }
             causes := [.plain "disk on fire"] } := by
    decide +kernel
  split at hread
  · cases hread
  · next error scanner hparse =>
      rw [Option.some.injEq] at hread
      obtain ⟨after, -, hfrom⟩ := parseFrom_of_error hparse
      have hkind := hexternal _ _ _ _ _ _ _ hfrom (by rw [hread]; decide)
      rw [hread] at hkind
      cases hkind

end Run

end KnightLang
