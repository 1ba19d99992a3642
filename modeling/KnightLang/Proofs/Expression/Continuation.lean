import KnightLang.Proofs.Expression.Exact
import KnightLang.Proofs.Ownership

/-!
What more lines can change about a parse. An expression that was read stays what it is, and so does
a failure, unless the input ended before an expression did; and then some further line completes
the expression.
-/

namespace KnightLang

/-- A failure that more input does not mend. -/
structure Error.IsFinal (error : Error) : Prop where
  ne_endOfInput : error ≠ .endOfInput
  complete : error.isIncomplete = false

def Scanner.extend (scanner : Scanner) (more : Bytes) : Scanner :=
  { scanner with unread := scanner.unread ++ more }

@[simp]
theorem Scanner.extend_extend (scanner : Scanner) (first second : Bytes) :
    (scanner.extend first).extend second = scanner.extend (first ++ second) := by
  simp [extend]

/-! ### Tokens in front of a newline -/

section Newline

variable {table : FunctionTable} {rest token : Bytes} (more : Bytes)

theorem Stops.extend_digit (hstops : Stops Byte.isDigit rest) :
    Stops Byte.isDigit (rest ++ Byte.newline :: more) := hstops.append (by decide) more

theorem Stops.extend_name (hstops : Stops Byte.isNameByte rest) :
    Stops Byte.isNameByte (rest ++ Byte.newline :: more) := hstops.append (by decide) more

theorem Stops.extend_word (hstops : Stops Byte.isWordByte rest) :
    Stops Byte.isWordByte (rest ++ Byte.newline :: more) := hstops.append (by decide) more

theorem Atom.extend {tree : Tree} (hatom : Atom rest token tree) :
    Atom (rest ++ Byte.newline :: more) token tree := by
  cases hatom with
  | number hne hdigits hstops hvalue => exact .number hne hdigits (hstops.extend_digit more) hvalue
  | «variable» hname hothers hstops => exact .variable hname hothers (hstops.extend_name more)
  | text hquote hcontents => exact .text hquote hcontents
  | word hliteral hothers hstops => exact .word hliteral hothers (hstops.extend_word more)

theorem Names.extend {function : Function} (hnames : Names table rest token function) :
    Names table (rest ++ Byte.newline :: more) token function := by
  cases hnames with
  | word hupper hfind hothers hstops => exact .word hupper hfind hothers (hstops.extend_word more)
  | symbol hupper hfind => exact .symbol hupper hfind

theorem Wrong.extend {reason : Reason} (hwrong : Wrong table rest token reason) :
    Wrong table (rest ++ Byte.newline :: more) token reason := by
  cases hwrong with
  | number hne hdigits hstops hvalue => exact .number hne hdigits (hstops.extend_digit more) hvalue
  | word hupper hfree hfind hothers hstops =>
      exact .word hupper hfree hfind hothers (hstops.extend_word more)
  | symbol hupper hfree hfind => exact .symbol hupper hfree hfind

end Newline

namespace Scan

/-- Whatever reading gives, it gives as well when more bytes follow, except for a failure that these
might mend. -/
structure Persists {α : Type} (read : Scan α) (more : Bytes) (scanner : Scanner) : Prop where
  ok : ∀ {value : α} {after : Scanner}, read scanner = .ok value after →
    read (scanner.extend more) = .ok value (after.extend more)
  error : ∀ {error : Error} {after : Scanner}, read scanner = .error error after →
    error.IsFinal → ∃ unread position, read (scanner.extend more) =
      .error error { after with unread, position }

namespace Persists

variable {α : Type} {read : Scan α} {more : Bytes} {scanner after : Scanner}

theorem of_ok {value : α} (hread : read scanner = .ok value after)
    (hmore : read (scanner.extend more) = .ok value (after.extend more)) :
    Persists read more scanner where
  ok heq := by
    rw [hread] at heq
    cases heq
    exact hmore
  error heq := by
    rw [hread] at heq
    cases heq

theorem of_error {error : Error} (hread : read scanner = .error error after)
    (hmore : error.IsFinal → ∃ unread position, read (scanner.extend more) =
      .error error { after with unread, position }) : Persists read more scanner where
  ok heq := by
    rw [hread] at heq
    cases heq
  error heq hfinal := by
    rw [hread] at heq
    cases heq
    exact hmore hfinal

theorem map {β : Type} {wrap : α → β} (persists : Persists read more scanner) :
    Persists (do return wrap (← read)) more scanner where
  ok heq := by
    obtain ⟨value, middle, hread, hdone⟩ := bind_eq_ok heq
    cases hdone
    exact bind_ok (persists.ok hread)
  error heq hfinal := by
    rcases bind_eq_error heq with hread | ⟨value, middle, -, hdone⟩
    · obtain ⟨unread, position, hmore⟩ := persists.error hread hfinal
      exact ⟨unread, position, bind_error hmore⟩
    · cases hdone

theorem goes_on {moved : Scanner} {next : Scan α} (persists : Persists next more moved)
    (hread : read scanner = next moved)
    (hmore : read (scanner.extend more) = next (moved.extend more)) :
    Persists read more scanner where
  ok heq := hmore.trans (persists.ok (hread.symm.trans heq))
  error heq hfinal := by
    obtain ⟨unread, position, herror⟩ := persists.error (hread.symm.trans heq) hfinal
    exact ⟨unread, position, hmore.trans herror⟩

end Persists

variable {grammar : Grammar}

theorem not_isFinal_unexpectedEnd (start : Position) (reason : Reason) :
    ¬(errorAt grammar start reason [.unexpectedEnd]).IsFinal := by
  intro hfinal
  have hcomplete := hfinal.complete
  simp [errorAt, Error.isIncomplete, Error.links] at hcomplete

theorem isFinal_errorAt (start : Position) (reason : Reason) :
    (errorAt grammar start reason []).IsFinal where
  ne_endOfInput heq := nomatch heq
  complete := by simp [errorAt, Error.isIncomplete, Error.links]

theorem isFinal_argumentError_iff {function : Function} {start : Position} {index : Nat}
    {error : Error} :
    (argumentError grammar function start index error).IsFinal ↔ error.IsFinal := by
  unfold argumentError
  split
  · next heq =>
      have hstart : ¬(errorAt grammar start (.missingArgument index function.long)
          [.unexpectedEnd]).IsFinal := not_isFinal_unexpectedEnd start _
      exact iff_of_false hstart fun hfinal => hfinal.ne_endOfInput heq
  · exact Iff.rfl

theorem arguments_persists (grammar : Grammar) {expression : Scan Tree} {more : Bytes}
    (hexpression : ∀ scanner, Persists expression more scanner) (function : Function)
    (start : Position) (index count : Nat) (scanner : Scanner) :
    Persists (arguments grammar expression function start index count) more scanner := by
  induction count generalizing index scanner with
  | zero => exact .of_ok rfl rfl
  | succ count ih =>
      refine ⟨fun hread => ?_, fun hread hfinal => ?_⟩
      · obtain ⟨tree, rest, middle, hfirst, hrest, rfl⟩ := arguments_eq_ok hread
        have hrest' := (ih (index + 1) middle).ok hrest
        exact (arguments_of_ok ((hexpression scanner).ok hfirst)).trans (bind_ok hrest')
      · rcases arguments_eq_error hread with ⟨cause, hfirst, rfl⟩ | ⟨tree, middle, hfirst, hrest⟩
        · have hcause : cause.IsFinal := isFinal_argumentError_iff.mp hfinal
          obtain ⟨unread, position, hmore⟩ := (hexpression scanner).error hfirst hcause
          exact ⟨unread, position, arguments_of_error hmore⟩
        · obtain ⟨unread, position, hmore⟩ := (ih (index + 1) middle).error hrest hfinal
          exact ⟨unread, position,
            (arguments_of_ok ((hexpression scanner).ok hfirst)).trans (bind_error hmore)⟩

/-- An expression is read alike when a newline and anything else follows. -/
theorem expression_persists (hfailure : grammar.failure = none) (budget : Nat) (more : Bytes)
    (scanner : Scanner) :
    Persists (expression grammar budget) (Byte.newline :: more) scanner := by
  induction budget using Nat.strongRecOn generalizing scanner with
  | _ budget ih =>
      have hshape := shape_total grammar.functions scanner.unread
      generalize hunread : scanner.unread = bytes at hshape
      cases hshape with
      | void hvoid =>
          refine .of_error (expression_void hfailure budget (hunread ▸ hvoid)) fun hfinal => ?_
          exact absurd rfl hfinal.ne_endOfInput
      | @atom blank token rest tree hblank hatom =>
          refine .of_ok (expression_atom hfailure hblank budget hunread hatom) ?_
          refine expression_atom hfailure hblank budget ?_ (hatom.extend more)
          simp [Scanner.extend, hunread]
      | @application blank others rest byte function hblank hnames hfree =>
          have hunread' : (scanner.extend (Byte.newline :: more)).unread =
              blank ++ (byte :: others ++ (rest ++ Byte.newline :: more)) := by
            simp [Scanner.extend, hunread]
          cases budget with
          | zero =>
              have hmore :=
                expression_application_zero hfailure hblank hunread' (hnames.extend more) hfree
              exact .of_error (expression_application_zero hfailure hblank hunread hnames hfree)
                fun _ => ⟨_, _, hmore⟩
          | succ inner =>
              have hargs := arguments_persists grammar (ih inner (Nat.lt_succ_self inner)) function
                (scanner.position.after blank) 1 function.arity
              refine (hargs _).map.goes_on
                (expression_application_succ hfailure hblank inner hunread hnames hfree) ?_
              exact expression_application_succ hfailure hblank inner hunread'
                (hnames.extend more) hfree
      | @unclosed blank contents quote hblank hquote hcontents =>
          refine .of_error (expression_unclosed hfailure hblank budget hunread hquote hcontents)
            fun hfinal => ?_
          exact absurd hfinal (not_isFinal_unexpectedEnd _ _)
      | @wrong blank token rest reason hblank hwrong =>
          obtain ⟨unread, position, hread⟩ := expression_wrong hfailure hblank budget hunread hwrong
          refine .of_error hread fun _ => ?_
          refine expression_wrong hfailure hblank budget ?_ (hwrong.extend more)
          simp [Scanner.extend, hunread]

/-! ### Completing what was begun -/

/-- Arguments to come, each on a line of its own. -/
def missing : Nat → Bytes
  | 0 => []
  | count + 1 => Byte.newline :: 78 :: missing count

theorem stops_missing (count : Nat) : Stops Byte.isWordByte (missing count) := by
  cases count with
  | zero => simp [Stops, missing]
  | succ count =>
      have hnewline : Byte.isWordByte Byte.newline = false := by decide
      simpa [Stops, missing] using hnewline

theorem Persists.missing {expression : Scan Tree} {scanner after : Scanner} {tree : Tree}
    (hpersists : ∀ more, Persists expression (Byte.newline :: more) scanner)
    (hread : expression scanner = .ok tree after) (count : Nat) :
    expression (scanner.extend (missing count)) = .ok tree (after.extend (missing count)) := by
  cases count with
  | zero => simpa [Scanner.extend, Scan.missing] using hread
  | succ count => exact (hpersists _).ok hread

theorem expression_null (hfailure : grammar.failure = none) (budget : Nat) {scanner : Scanner}
    {blank rest : Bytes} (hunread : scanner.unread = blank ++ 78 :: rest) (hblank : Blank blank)
    (hstops : Stops Byte.isWordByte rest) :
    ∃ after, expression grammar budget scanner = .ok .null after ∧ after.unread = rest := by
  have hatom : Atom rest [78] .null := .word rfl (by simp) hstops
  exact ⟨_, expression_atom hfailure hblank budget hunread hatom, rfl⟩

theorem arguments_missing (hfailure : grammar.failure = none) (budget : Nat) (function : Function)
    (start : Position) (index count : Nat) {scanner : Scanner}
    (hunread : scanner.unread = missing count) :
    ∃ trees after, arguments grammar (expression grammar budget) function start index count
      scanner = .ok trees after ∧ after.unread = [] := by
  induction count generalizing index scanner with
  | zero => exact ⟨[], scanner, rfl, hunread⟩
  | succ count ih =>
      have hblank : Blank [Byte.newline] := .separator rfl .nil
      obtain ⟨middle, hfirst, hmiddle⟩ :=
        expression_null hfailure budget hunread hblank (stops_missing count)
      obtain ⟨trees, after, hrest, hafter⟩ := ih (index + 1) hmiddle
      exact ⟨.null :: trees, after, (arguments_of_ok hfirst).trans (bind_ok hrest), hafter⟩

/-- Some further line completes what reading fails on. -/
def Completes {α : Type} (read : Scan α) (scanner : Scanner) : Prop :=
  ∃ more value after, read (scanner.extend (Byte.newline :: more)) = .ok value after ∧
    after.unread = []

theorem arguments_completes (hfailure : grammar.failure = none) {budget : Nat}
    (hexpression : ∀ {scanner after : Scanner} {error : Error},
      expression grammar budget scanner = .error error after → ¬error.IsFinal →
      Completes (expression grammar budget) scanner)
    (function : Function) (start : Position) (index count : Nat) {scanner after : Scanner}
    {error : Error}
    (hread : arguments grammar (expression grammar budget) function start index count scanner =
      .error error after) (hopen : ¬error.IsFinal) :
    Completes (arguments grammar (expression grammar budget) function start index count)
      scanner := by
  induction count generalizing index scanner with
  | zero => cases hread
  | succ count ih =>
      rcases arguments_eq_error hread with ⟨cause, hfirst, rfl⟩ | ⟨tree, middle, hfirst, hrest⟩
      · -- This argument is completed, and the others are added.
        rw [isFinal_argumentError_iff] at hopen
        obtain ⟨more, tree, middle, hmore, hmiddle⟩ := hexpression hfirst hopen
        have hfilled := Persists.missing (fun more => expression_persists hfailure budget more _)
          hmore count
        have hunread : (middle.extend (missing count)).unread = missing count := by
          simp [Scanner.extend, hmiddle]
        obtain ⟨trees, last, hothers, hlast⟩ :=
          arguments_missing hfailure budget function start (index + 1) count hunread
        rw [Scanner.extend_extend, List.cons_append] at hfilled
        exact ⟨more ++ missing count, tree :: trees, last,
          (arguments_of_ok hfilled).trans (bind_ok hothers), hlast⟩
      · -- This argument stays as it is, and those after it are completed.
        obtain ⟨more, trees, last, hmore, hlast⟩ := ih (index + 1) hrest
        have hfirst' := (expression_persists hfailure budget more scanner).ok hfirst
        exact ⟨more, tree :: trees, last, (arguments_of_ok hfirst').trans (bind_ok hmore), hlast⟩

theorem expression_completes_void (hfailure : grammar.failure = none) (budget : Nat)
    {scanner : Scanner} (hvoid : Void scanner.unread) :
    Completes (expression grammar budget) scanner := by
  -- The newline ends a comment that may be open, and a literal follows.
  have hunread : (scanner.extend [Byte.newline, 78]).unread =
      (scanner.unread ++ [Byte.newline]) ++ 78 :: [] := by simp [Scanner.extend]
  obtain ⟨last, hnull, hlast⟩ :=
    expression_null hfailure budget hunread hvoid.blank_append_newline (by simp [Stops])
  exact ⟨[78], .null, last, hnull, hlast⟩

theorem expression_completes_unclosed (hfailure : grammar.failure = none) (budget : Nat)
    {scanner : Scanner} {blank contents : Bytes} {quote : UInt8}
    (hunread : scanner.unread = blank ++ quote :: contents) (hblank : Blank blank)
    (hquote : quote = 34 ∨ quote = 39) (hcontents : quote ∉ contents) :
    Completes (expression grammar budget) scanner := by
  -- The newline becomes part of the text, and the quote that is missing ends it.
  have hclosed : quote ∉ contents ++ [Byte.newline] := by
    rcases hquote with rfl | rfl <;> simpa [Byte.newline] using hcontents
  have hatom : Atom [] (quote :: ((contents ++ [Byte.newline]) ++ [quote]))
      (.text (contents ++ [Byte.newline])) := .text hquote hclosed
  refine ⟨[quote], .text (contents ++ [Byte.newline]), _,
    expression_atom hfailure hblank budget ?_ hatom, rfl⟩
  simp [Scanner.extend, hunread]

theorem expression_completes (hfailure : grammar.failure = none) (budget : Nat)
    {scanner after : Scanner} {error : Error}
    (hread : expression grammar budget scanner = .error error after) (hopen : ¬error.IsFinal) :
    Completes (expression grammar budget) scanner := by
  induction budget using Nat.strongRecOn generalizing scanner after error with
  | _ budget ih =>
      have hshape := shape_total grammar.functions scanner.unread
      generalize hunread : scanner.unread = bytes at hshape
      cases hshape with
      | void hvoid => exact expression_completes_void hfailure budget (hunread ▸ hvoid)
      | atom hblank hatom =>
          rw [expression_atom hfailure hblank budget hunread hatom] at hread
          cases hread
      | @application blank others rest byte function hblank hnames hfree =>
          cases budget with
          | zero =>
              rw [expression_application_zero hfailure hblank hunread hnames hfree] at hread
              cases hread
              exact absurd (isFinal_errorAt _ _) hopen
          | succ inner =>
              rw [expression_application_succ hfailure hblank inner hunread hnames hfree] at hread
              rcases bind_eq_error hread with hargs | ⟨trees, middle, -, hdone⟩
              · obtain ⟨more, trees, last, hmore, hlast⟩ :=
                  arguments_completes hfailure (ih inner (Nat.lt_succ_self inner)) function _ 1
                    function.arity hargs hopen
                have hunread' : (scanner.extend (Byte.newline :: more)).unread =
                    blank ++ (byte :: others ++ (rest ++ Byte.newline :: more)) := by
                  simp [Scanner.extend, hunread]
                have happlication := expression_application_succ hfailure hblank inner hunread'
                  (hnames.extend more) hfree
                exact ⟨more, .apply function trees, last, happlication.trans (bind_ok hmore), hlast⟩
              · cases hdone
      | unclosed hblank hquote hcontents =>
          exact expression_completes_unclosed hfailure budget hunread hblank hquote hcontents
      | wrong hblank hwrong =>
          obtain ⟨unread, position, herror⟩ :=
            expression_wrong hfailure hblank budget hunread hwrong
          rw [herror] at hread
          cases hread
          exact absurd (isFinal_errorAt _ _) hopen

end Scan

/-! ### Lines that follow a program -/

namespace Run

variable {machine : Machine} {label bytes : Bytes}

theorem parseFrom_ok_append {value : Value} {rest : Bytes} {after : Machine}
    (hfrom : parseFrom { unread := bytes } label machine =
      .ok (.ok value, { unread := rest }) after) (more : Bytes) :
    parseFrom { unread := bytes ++ Byte.newline :: more } label machine =
      .ok (.ok value, { unread := rest ++ Byte.newline :: more }) after := by
  obtain ⟨tree, scanner, hparse, hrest, hload, -⟩ := parse_of_parseFrom_ok hfrom
  obtain rfl := congrArg Source.unread hrest
  have hmore : (machine.grammar label none).parse (bytes ++ Byte.newline :: more) =
      .ok tree (scanner.extend (Byte.newline :: more)) :=
    (Scan.expression_persists rfl _ more { unread := bytes }).ok hparse
  obtain ⟨value', after', hload', -, hfrom'⟩ := parseFrom_of_ok hmore
  rw [hload] at hload'
  cases hload'
  exact hfrom'

theorem parseFrom_error_append {error : Error} {rest : Source} {after : Machine}
    (hfrom : parseFrom { unread := bytes } label machine = .ok (.error error, rest) after)
    (hfinal : error.IsFinal) (more : Bytes) :
    ∃ rest', parseFrom { unread := bytes ++ Byte.newline :: more } label machine =
      .ok (.error error, rest') after := by
  obtain ⟨scanner, hparse, hfetch⟩ := parse_of_parseFrom_error hfrom
  have hmore : ∃ unread position, (machine.grammar label none).parse
      (bytes ++ Byte.newline :: more) = .error error { scanner with unread, position } :=
    (Scan.expression_persists rfl _ more { unread := bytes }).error hparse hfinal
  obtain ⟨unread, position, hmore⟩ := hmore
  obtain ⟨after', hfetch', hfrom'⟩ := parseFrom_of_error hmore
  rw [hfetch] at hfetch'
  cases hfetch'
  exact ⟨_, hfrom'⟩

theorem parseFrom_completes {error : Error} {rest : Source} {after : Machine}
    (hfrom : parseFrom { unread := bytes } label machine = .ok (.error error, rest) after)
    (hopen : ¬error.IsFinal) :
    ∃ more value rest after, parseFrom { unread := bytes ++ Byte.newline :: more } label machine =
      .ok (.ok value, rest) after := by
  obtain ⟨scanner, hparse, -⟩ := parse_of_parseFrom_error hfrom
  have hcompletes := Scan.expression_completes rfl _ hparse hopen
  obtain ⟨more, tree, last, hmore, -⟩ := hcompletes
  obtain ⟨value, after', -, -, hfrom'⟩ := parseFrom_of_ok hmore
  exact ⟨more, value, _, after', hfrom'⟩

theorem isIncomplete_of_error {error : Error} {rest : Source} {after : Machine}
    (hfrom : parseFrom { unread := bytes } "repl" machine = .ok (.error error, rest) after) :
    Session.isIncomplete bytes machine = .ok error.isIncomplete after := bind_ok hfrom

theorem isIncomplete_of_ok {value : Value} {rest : Source} {after : Machine}
    (hfrom : parseFrom { unread := bytes } "repl" machine = .ok (.ok value, rest) after) :
    Session.isIncomplete bytes machine =
      (do
        release value
        return false : Run Bool) after := bind_ok hfrom

theorem isIncomplete_eq_true_iff :
    (∃ after, Session.isIncomplete bytes machine = .ok true after) ↔
      ∃ error rest after, parseFrom { unread := bytes } "repl" machine =
        .ok (.error error, rest) after ∧ error.isIncomplete = true := by
  constructor
  · rintro ⟨after, htrue⟩
    obtain ⟨result, rest, middle, hfrom⟩ := parseFrom_total machine "repl" bytes
    cases result with
    | ok value =>
        rw [isIncomplete_of_ok hfrom] at htrue
        simp only [bind, EStateM.bind] at htrue
        split at htrue <;> cases htrue
    | error error =>
        rw [isIncomplete_of_error hfrom, EStateM.Result.ok.injEq] at htrue
        exact ⟨error, rest, middle, hfrom, htrue.1⟩
  · rintro ⟨error, rest, after, hfrom, hincomplete⟩
    refine ⟨after, ?_⟩
    rw [isIncomplete_of_error hfrom, hincomplete]

/-- A machine that its host has used by the rules can always tell. -/
theorem isIncomplete_total {owned : Multiset Value} (hreachable : machine.Reachable owned)
    (bytes : Bytes) : ∃ flag after, Session.isIncomplete bytes machine = .ok flag after := by
  obtain ⟨result, rest, middle, hfrom⟩ := parseFrom_total machine "repl" bytes
  cases result with
  | error error => exact ⟨_, middle, isIncomplete_of_error hfrom⟩
  | ok value =>
      obtain ⟨tree, scanner, -, -, hload, -⟩ := parse_of_parseFrom_ok hfrom
      obtain ⟨value', middle', lasting, hload', -, instep⟩ := hreachable.inStep.load tree
      rw [hload] at hload'
      cases hload'
      obtain ⟨after, hrelease, -, -⟩ := instep.release
      exact ⟨false, after, (isIncomplete_of_ok hfrom).trans (bind_ok hrelease)⟩

theorem isIncomplete_exact (machine : Machine) (bytes : Bytes) :
    (∃ after, Session.isIncomplete bytes machine = .ok true after) ↔
      ¬Void bytes ∧
      (∃ error rest after, parseFrom { unread := bytes } "repl" machine =
        .ok (.error error, rest) after) ∧
      ∃ more value rest after,
        parseFrom { unread := bytes ++ Byte.newline :: more } "repl" machine =
          .ok (.ok value, rest) after := by
  rw [isIncomplete_eq_true_iff]
  constructor
  · rintro ⟨error, rest, after, hfrom, hincomplete⟩
    have hopen : ¬error.IsFinal := by
      intro hfinal
      rw [hfinal.complete] at hincomplete
      cases hincomplete
    refine ⟨fun hvoid => ?_, ⟨error, rest, after, hfrom⟩, parseFrom_completes hfrom hopen⟩
    -- Without a token the failure is the end of the input, which is not inside an expression.
    obtain ⟨scanner, hparse, -⟩ := parse_of_parseFrom_error hfrom
    have hend : (machine.grammar "repl" none).parse bytes = .error .endOfInput _ :=
      Scan.expression_void rfl _ hvoid
    rw [hparse] at hend
    cases hend
    cases hincomplete
  · rintro ⟨hvoid, ⟨error, rest, after, hfrom⟩, more, value, rest', after', hmore⟩
    refine ⟨error, rest, after, hfrom, ?_⟩
    obtain ⟨scanner, hparse, -⟩ := parse_of_parseFrom_error hfrom
    have hend : error ≠ .endOfInput := by
      rintro rfl
      exact hvoid (Scan.expression_endOfInput rfl hparse)
    by_contra hincomplete
    have hfinal : error.IsFinal := ⟨hend, by simpa using hincomplete⟩
    obtain ⟨rest'', herror⟩ := parseFrom_error_append hfrom hfinal more
    rw [hmore] at herror
    cases herror

/-- Whether more lines are needed is told exactly. An expression that was read, and a failure that
is final, stay the same whatever lines follow; and more lines are asked for exactly when there is a
token, the parse fails, and some further line would make it succeed. -/
theorem continuation_exact (machine : Machine) (bytes : Bytes) :
    (∀ label value rest after,
      parseFrom { unread := bytes } label machine =
        .ok (.ok value, { unread := rest }) after →
      ∀ more, parseFrom { unread := bytes ++ Byte.newline :: more } label machine =
        .ok (.ok value, { unread := rest ++ Byte.newline :: more }) after) ∧
    (∀ label error rest after,
      parseFrom { unread := bytes } label machine = .ok (.error error, rest) after →
      error ≠ .endOfInput → error.isIncomplete = false →
      ∀ more, ∃ rest', parseFrom { unread := bytes ++ Byte.newline :: more } label machine =
        .ok (.error error, rest') after) ∧
    ((∃ after, Session.isIncomplete bytes machine = .ok true after) ↔
      ¬Void bytes ∧
      (∃ error rest after, parseFrom { unread := bytes } "repl" machine =
        .ok (.error error, rest) after) ∧
      ∃ more value rest after,
        parseFrom { unread := bytes ++ Byte.newline :: more } "repl" machine =
          .ok (.ok value, rest) after) ∧
    ∀ owned, machine.Reachable owned →
      ∃ flag after, Session.isIncomplete bytes machine = .ok flag after := by
  refine ⟨fun label value rest after hfrom => parseFrom_ok_append hfrom, ?_,
    isIncomplete_exact machine bytes, fun owned hreachable => isIncomplete_total hreachable bytes⟩
  intro label error rest after hfrom hend hcomplete
  exact parseFrom_error_append hfrom ⟨hend, hcomplete⟩

end Run

end KnightLang
