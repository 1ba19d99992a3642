import KnightLang.Proofs.Execution.Applications
import KnightLang.Proofs.Expression.Consumption

/-!
Programs and PROMPT read from one source. Programs take their expression, PROMPT takes a line at a
time, and each goes on where the other stopped, so that no byte is lost or seen twice.
-/

namespace KnightLang

/-! ### Lines -/

namespace Bytes

/-- The bytes up to and including the first newline, or all of them if there is none. -/
def line (bytes : Bytes) : Bytes :=
  bytes.takeWhile (· != Byte.newline) ++ (bytes.dropWhile (· != Byte.newline)).take 1

def afterLine (bytes : Bytes) : Bytes := (bytes.dropWhile (· != Byte.newline)).drop 1

/-- A line in front of a rest has a text. Carriage returns and a newline may follow the text; only
the last line can do without the newline. -/
def HasText (line text rest : Bytes) : Prop :=
  ∃ returns ending, line = text ++ returns ++ ending ∧ Byte.newline ∉ text ++ returns ∧
    (ending = [Byte.newline] ∨ ending = [] ∧ rest = []) ∧
    (∀ byte ∈ returns, byte = Byte.carriageReturn) ∧ text.getLast? ≠ some Byte.carriageReturn

theorem line_append_afterLine (bytes : Bytes) : bytes.line ++ bytes.afterLine = bytes := by
  rw [line, afterLine, List.append_assoc, List.take_append_drop, List.takeWhile_append_dropWhile]

theorem line_ne_nil {bytes : Bytes} (hne : bytes ≠ []) : bytes.line ≠ [] := by
  intro hline
  obtain ⟨-, hend⟩ := List.append_eq_nil_iff.mp hline
  have hrest : bytes.dropWhile (· != Byte.newline) = [] := by simpa using hend
  apply hne
  rw [← bytes.line_append_afterLine, hline, afterLine, hrest]
  rfl

theorem newline_notMem_takeWhile (bytes : Bytes) :
    Byte.newline ∉ bytes.takeWhile (· != Byte.newline) := by
  intro hmem
  have htest := List.mem_takeWhile_imp hmem
  simp at htest

theorem dropRightWhile_append_returns (bytes : Bytes) :
    ∃ returns, bytes = dropRightWhile (· == Byte.carriageReturn) bytes ++ returns ∧
      ∀ byte ∈ returns, byte = Byte.carriageReturn := by
  refine ⟨(bytes.reverse.takeWhile (· == Byte.carriageReturn)).reverse, ?_, ?_⟩
  · rw [dropRightWhile, ← List.reverse_append, List.takeWhile_append_dropWhile,
      List.reverse_reverse]
  · intro byte hmem
    have htest := List.mem_takeWhile_imp (List.mem_reverse.mp hmem)
    simpa using htest

theorem getLast?_dropRightWhile (bytes : Bytes) :
    (dropRightWhile (· == Byte.carriageReturn) bytes).getLast? ≠ some Byte.carriageReturn := by
  rw [dropRightWhile, List.getLast?_reverse]
  intro hhead
  have htest := List.head?_dropWhile_not (· == Byte.carriageReturn) bytes.reverse
  rw [hhead] at htest
  simp at htest

theorem hasText_of_body {body ending rest : Bytes} (hbody : Byte.newline ∉ body)
    (hending : ending = [Byte.newline] ∨ ending = [] ∧ rest = []) :
    (body ++ ending).HasText (body ++ ending).lineText rest := by
  have htext : (body ++ ending).lineText = dropRightWhile (· == Byte.carriageReturn) body := by
    unfold lineText
    rcases hending with rfl | ⟨rfl, -⟩
    · rw [List.getLast?_concat, List.dropLast_concat]
      simp
    · rw [List.append_nil, if_neg]
      intro hlast
      exact hbody (List.mem_of_getLast? (eq_of_beq hlast))
  obtain ⟨returns, hreturns, hall⟩ := dropRightWhile_append_returns body
  rw [htext]
  refine ⟨returns, ending, ?_, ?_, hending, hall, getLast?_dropRightWhile body⟩
  · rw [← hreturns]
  · rw [← hreturns]
    exact hbody

theorem hasText_line (bytes : Bytes) : bytes.line.HasText bytes.line.lineText bytes.afterLine := by
  refine hasText_of_body bytes.newline_notMem_takeWhile ?_
  unfold afterLine
  cases hrest : bytes.dropWhile (· != Byte.newline) with
  | nil => exact Or.inr ⟨rfl, rfl⟩
  | cons byte rest =>
      have htest := List.head?_dropWhile_not (· != Byte.newline) bytes
      rw [hrest] at htest
      have hnewline : byte = Byte.newline := by simpa using htest
      rw [hnewline]
      exact Or.inl rfl

end Bytes

theorem Source.readLine_of_ne_nil {bytes : Bytes} (hne : bytes ≠ []) :
    readLine { unread := bytes } = (.line bytes.line, { unread := bytes.afterLine }) := by
  unfold readLine Bytes.line Bytes.afterLine
  dsimp only
  split
  · next newline rest hrest =>
      rw [hrest]
      rfl
  · next hrest =>
      have hall : bytes.takeWhile (· != Byte.newline) = bytes := by
        have hsplit := List.takeWhile_append_dropWhile (p := (· != Byte.newline)) (l := bytes)
        rwa [hrest, List.append_nil] at hsplit
      rw [hrest, hall, if_neg (by simpa using hne)]
      rw [List.take_nil, List.append_nil]
      rfl

theorem Input.readLine_source (bytes : Bytes) :
    (readLine (.source { unread := bytes })).2 = .source { unread := bytes.afterLine } := by
  by_cases hnil : bytes = []
  · rw [hnil]
    rfl
  · rw [readLine, Source.readLine_of_ne_nil hnil]

/-! ### What PROMPT takes -/

/-- PROMPT gives null if no byte is left. Otherwise it takes a line and gives its text. -/
theorem Evaluator.prompt_shared {machine : Machine} {unread : Bytes}
    (hflush : machine.world.flush.1 = none) (hinput : machine.world.input = .source { unread }) :
    ∃ result after, Evaluator.prompt machine = .ok result after ∧
      (unread = [] ∧ result = .null ∨
        unread ≠ [] ∧ ∃ text, result = .string text ∧
          unread.line.HasText (after.store.bytes text) unread.afterLine) := by
  by_cases hnil : unread = []
  · have hline : machine.world.input.readLine.1 = .done := by
      rw [hinput, hnil]
      rfl
    exact ⟨_, _, Evaluator.prompt_of_done hflush hline, Or.inl ⟨hnil, rfl⟩⟩
  · have hline : machine.world.input.readLine.1 = .line unread.line := by
      rw [hinput, Input.readLine, Source.readLine_of_ne_nil hnil]
    obtain ⟨text, store, -, htext, hresult⟩ := Evaluator.prompt_of_line hflush hline
    refine ⟨_, _, hresult, Or.inr ⟨hnil, text, rfl, ?_⟩⟩
    change unread.line.HasText (store.bytes text) unread.afterLine
    rw [htext]
    exact unread.hasText_line

namespace Entry

/-- The bytes that an application takes from a source by itself, in front of a rest. Only PROMPT
takes any, once the output is flushed: the next line, whose text it gives. At the end of the source
it gives null. -/
inductive Takes (entry : Entry) : (taken rest : Bytes) → Prop where
  | other {rest : Bytes} : entry.function.action ≠ .builtin .prompt → Takes entry [] rest
  | unflushed {rest : Bytes} :
      entry.function.action = .builtin .prompt → entry.inside.world.flush.1 ≠ none →
      Takes entry [] rest
  | done {after : Machine} :
      entry.function.action = .builtin .prompt → entry.inside.world.flush.1 = none →
      Evaluator.prompt entry.inside = .ok .null after → Takes entry [] []
  | line {taken rest : Bytes} {text : TextRef} {after : Machine} :
      entry.function.action = .builtin .prompt → entry.inside.world.flush.1 = none →
      taken ≠ [] → Evaluator.prompt entry.inside = .ok (.string text) after →
      taken.HasText (after.store.bytes text) rest → Takes entry taken rest

/-- What applications take one after the other: each finds what the ones before it left. -/
inductive TakeAll : List Entry → List Bytes → (unread rest : Bytes) → Prop where
  | nil {rest : Bytes} : TakeAll [] [] rest rest
  | cons {entry : Entry} {entries : List Entry} {taken middle rest : Bytes}
      {portions : List Bytes} :
      entry.inside.world.input = .source { unread := taken ++ middle } →
      entry.Takes taken middle → TakeAll entries portions middle rest →
      TakeAll (entry :: entries) (taken :: portions) (taken ++ middle) rest

namespace TakeAll

variable {entries more : List Entry} {portions others : List Bytes} {unread middle rest : Bytes}

theorem append (hfirst : TakeAll entries portions unread middle)
    (hsecond : TakeAll more others middle rest) :
    TakeAll (entries ++ more) (portions ++ others) unread rest := by
  induction hfirst with
  | nil => exact hsecond
  | cons hinput htakes _ ih => exact .cons hinput htakes (ih hsecond)

theorem unread_eq (hall : TakeAll entries portions unread rest) :
    unread = portions.flatten ++ rest := by
  induction hall with
  | nil => rfl
  | cons _ _ _ ih => rw [List.flatten_cons, List.append_assoc, ← ih]

end TakeAll

theorem takes_line {entry : Entry} {unread : Bytes}
    (haction : entry.function.action = .builtin .prompt)
    (hflush : entry.inside.world.flush.1 = none)
    (hinput : entry.inside.world.input = .source { unread }) :
    entry.Takes unread.line unread.afterLine := by
  obtain ⟨result, after, hprompt, ⟨rfl, rfl⟩ | ⟨hne, text, rfl, htext⟩⟩ :=
    Evaluator.prompt_shared hflush hinput
  · exact .done haction hflush hprompt
  · exact .line haction hflush (Bytes.line_ne_nil hne) hprompt htext

end Entry

@[simp]
theorem Machine.input_enter (machine : Machine) (function : Function) :
    (machine.enter function).world.input = machine.world.input := by
  unfold enter
  dsimp only
  split <;> rfl

/-- The applications that were entered from a machine account for what is gone from its source. -/
def Machine.Leaves (machine : Machine) (entries : List Entry) (world : World) : Prop :=
  ∀ unread, machine.world.input = .source { unread } →
    ∃ portions rest, world.input = .source { unread := rest } ∧
      Entry.TakeAll entries portions unread rest

namespace Machine.Leaves

variable {machine middle : Machine} {entries more : List Entry} {world after : World}

theorem still (hquiet : machine.world.Quiet world) : machine.Leaves [] world := by
  intro unread hinput
  exact ⟨[], unread, hquiet.input.trans hinput, .nil⟩

theorem settle (hleaves : machine.Leaves entries world) (hquiet : world.Quiet after) :
    machine.Leaves entries after := by
  intro unread hinput
  obtain ⟨portions, rest, hrest, hall⟩ := hleaves unread hinput
  exact ⟨portions, rest, hquiet.input.trans hrest, hall⟩

theorem append (hfirst : machine.Leaves entries middle.world) (hsecond : middle.Leaves more world) :
    machine.Leaves (entries ++ more) world := by
  intro unread hinput
  obtain ⟨portions, between, hbetween, hall⟩ := hfirst unread hinput
  obtain ⟨others, rest, hrest, hmore⟩ := hsecond between hbetween
  exact ⟨portions ++ others, rest, hrest, hall.append hmore⟩

theorem enter {entry : Entry} (hinside : entry.inside = machine.enter entry.function)
    (haction : entry.function.action ≠ .builtin .prompt)
    (hinner : entry.inside.Leaves entries world) : machine.Leaves (entry :: entries) world := by
  intro unread hinput
  rw [← machine.input_enter entry.function, ← hinside] at hinput
  obtain ⟨portions, rest, hrest, hall⟩ := hinner unread hinput
  have hnothing : entry.Takes [] unread := .other haction
  exact ⟨[] :: portions, rest, hrest, .cons hinput hnothing hall⟩

theorem prompt {entry : Entry} (hinside : entry.inside = machine.enter entry.function)
    (haction : entry.function.action = .builtin .prompt)
    (hafter : after.input =
      if entry.inside.world.flush.1 = none then entry.inside.world.input.readLine.2
      else entry.inside.world.input) : machine.Leaves [entry] after := by
  intro unread hinput
  rw [← machine.input_enter entry.function, ← hinside] at hinput
  rw [hinput] at hafter
  by_cases hflush : entry.inside.world.flush.1 = none
  · rw [if_pos hflush, Input.readLine_source] at hafter
    -- The bytes are seen as a line and a rest, as that is how PROMPT takes them.
    have hsplit := unread.line_append_afterLine
    have hline := Entry.takes_line haction hflush hinput
    have hall : Entry.TakeAll [entry] [unread.line] (unread.line ++ unread.afterLine)
        unread.afterLine := .cons (by rw [hsplit, hinput]) hline .nil
    rw [hsplit] at hall
    exact ⟨_, _, hafter, hall⟩
  · rw [if_neg hflush] at hafter
    have hnothing : entry.Takes [] unread := .unflushed haction hflush
    exact ⟨[[]], unread, hafter, .cons hinput hnothing .nil⟩

end Machine.Leaves

def Account.input (fuel : Nat) : Account .all fuel where
  holds machine entries _ world := machine.Leaves entries world
  expects _ := True
  expects_ordinary _ := trivial
  expects_host _ _ _ := trivial
  still hquiet _ := .still hquiet
  append _ hfirst hsecond := hfirst.append hsecond
  settle hleaves hquiet := hleaves.settle hquiet
  fault _ hleaves := hleaves
  application _ hinside haction hinner := hinner.enter hinside haction
  prompt _ hinside haction _ hafter _ := .prompt hinside haction hafter
  quit _ _ _ hleaves := hleaves

/-! ### Programs one after the other -/

/-- The state that an action leaves, whatever came of it. -/
def Run.left {σ α : Type} : EStateM.Result Stop σ α → σ
  | .ok _ after | .error _ after => after

/-- A machine whose source has this rest. -/
def Machine.withUnread (machine : Machine) (rest : Bytes) : Machine :=
  { machine with world := { machine.world with input := .source { unread := rest } } }

/-- A session reads its programs from the source that PROMPT reads from, and these bytes are left
in it. -/
structure Session.Shares (session : Session) (unread : Bytes) : Prop where
  opened : session.opened = none
  input : session.machine.world.input = .source { unread }

/-- The next program is parsed, or parsed and evaluated. -/
inductive Reading where
  | parse (label : Bytes)
  | evaluate (label : Bytes)

namespace Reading

def label : Reading → Bytes
  | .parse label | .evaluate label => label

def perform : Reading → Host Value
  | .parse label => Session.parseNext label
  | .evaluate label => Session.evaluateNext label

def left (reading : Reading) (session : Session) : Session := Run.left (reading.perform session)

/-- What a reading takes, and what it leaves. The parser takes a program, which is just an
expression if it finds one; evaluating that expression enters applications, which take from what the
parser left. -/
inductive Takes (session : Session) : Reading → List Bytes → Prop where
  | failed {reading : Reading} {program rest : Bytes} {error : Error} {parsed : Machine} :
      session.Shares (program ++ rest) →
      Run.parseFrom { unread := program ++ rest } reading.label session.machine =
        .ok (.error error, { unread := rest }) parsed →
      (reading.left session).Shares rest → Takes session reading [program]
  | parsed {label program rest : Bytes} {tree : Tree} {value : Value} {parsed : Machine} :
      session.Shares (program ++ rest) →
      Run.parseFrom { unread := program ++ rest } label session.machine =
        .ok (.ok value, { unread := rest }) parsed →
      Derives session.machine.functions session.machine.maxDepth.toNat program tree rest →
      parsed.Stands tree value →
      ((Reading.parse label).left session).Shares rest → Takes session (.parse label) [program]
  | evaluated {label program rest unread : Bytes} {tree : Tree} {value : Value} {parsed : Machine}
      {entries : List Entry} {lines : List Bytes} :
      session.Shares (program ++ rest) →
      Run.parseFrom { unread := program ++ rest } label session.machine =
        .ok (.ok value, { unread := rest }) parsed →
      Derives session.machine.functions session.machine.maxDepth.toNat program tree rest →
      parsed.Stands tree value →
      Enters session.fuel (parsed.maxDepth - parsed.depth).toNat
        (fun apply => Run.deferring (Run.release value)
          (Evaluator.run { budget := (parsed.maxDepth - parsed.depth).toNat, fuel := session.fuel,
                           apply } value)) (parsed.withUnread rest) entries →
      Entry.TakeAll entries lines rest unread →
      ((Reading.evaluate label).left session).Shares unread →
      Takes session (.evaluate label) (program :: lines)

/-- What readings take one after the other, and the session that they leave. -/
inductive TakeAll : Session → List Reading → List Bytes → Session → Prop where
  | nil (session : Session) : TakeAll session [] [] session
  | cons {session last : Session} {reading : Reading} {readings : List Reading}
      {portions others : List Bytes} :
      reading.Takes session portions → TakeAll (reading.left session) readings others last →
      TakeAll session (reading :: readings) (portions ++ others) last

end Reading

section Programs

variable {session : Session} {label bytes rest : Bytes} {parsed : Machine} {value : Value}
  {error : Error}

theorem Session.left_evaluating {α : Type} (action : Evaluator → Run α) (session : Session) :
    Run.left (evaluating action session) =
      { session with
        machine :=
          Run.left (action (Evaluator.within session.fuel session.machine) session.machine) } := by
  change Run.left (onMachine _ session) = _
  unfold onMachine
  dsimp only
  cases action (Evaluator.within session.fuel session.machine) session.machine <;> rfl

theorem Realm.Ends.left {realm : Realm} {α : Type} {good : α → Prop} {before : Machine}
    {said : Option Stop → World → Prop} {result : EStateM.Result Stop Machine α}
    (hends : realm.Ends good before said result) :
    ∃ outcome, said outcome (Run.left result).world := by
  cases hends with
  | ok _ _ _ hsaid => exact ⟨_, hsaid⟩
  | error _ _ hsaid => exact ⟨_, hsaid⟩
  | cut _ _ hsaid => exact ⟨_, hsaid⟩

theorem Session.parseNext_of_ok (hshares : session.Shares bytes)
    (hfrom : Run.parseFrom { unread := bytes } label session.machine =
      .ok (.ok value, { unread := rest }) parsed) :
    parseNext label session = .ok value { session with machine := parsed.withUnread rest } := by
  have hget : (get : Host Session) session = .ok session session := rfl
  simp only [parseNext, bind, EStateM.bind, hget, onMachine, hshares.opened, hshares.input,
    Option.getD_none, hfrom]
  rfl

theorem Session.parseNext_of_error (hshares : session.Shares bytes)
    (hfrom : Run.parseFrom { unread := bytes } label session.machine =
      .ok (.error error, { unread := rest }) parsed) :
    parseNext label session =
      .error (.error error) { session with machine := parsed.withUnread rest } := by
  have hget : (get : Host Session) session = .ok session session := rfl
  simp only [parseNext, bind, EStateM.bind, hget, onMachine, hshares.opened, hshares.input,
    Option.getD_none, hfrom]
  rfl

theorem Session.evaluateNext_of_ok (hshares : session.Shares bytes)
    (hfrom : Run.parseFrom { unread := bytes } label session.machine =
      .ok (.ok value, { unread := rest }) parsed) :
    evaluateNext label session =
      evaluating (fun evaluator => Run.deferring (Run.release value) (evaluator.run value))
        { session with machine := parsed.withUnread rest } := by
  simp only [evaluateNext, bind, EStateM.bind, attempt, parseNext_of_ok hshares hfrom]

theorem Session.evaluateNext_of_error (hshares : session.Shares bytes)
    (hfrom : Run.parseFrom { unread := bytes } label session.machine =
      .ok (.error error, { unread := rest }) parsed) :
    evaluateNext label session =
      .error (.error (Evaluator.missingExpression label error))
        { session with machine := parsed.withUnread rest } := by
  simp only [evaluateNext, bind, EStateM.bind, attempt, parseNext_of_error hshares hfrom]
  rfl

theorem Session.exists_enters_evaluateNext (hshares : session.Shares bytes)
    (hfrom : Run.parseFrom { unread := bytes } label session.machine =
      .ok (.ok value, { unread := rest }) parsed) :
    ∃ entries lines unread,
      Enters session.fuel (parsed.maxDepth - parsed.depth).toNat
        (fun apply => Run.deferring (Run.release value)
          (Evaluator.run { budget := (parsed.maxDepth - parsed.depth).toNat, fuel := session.fuel,
                           apply } value)) (parsed.withUnread rest) entries ∧
      Entry.TakeAll entries lines rest unread ∧
      ((Reading.evaluate label).left session).Shares unread := by
  have hcalls := (Account.input session.fuel).calls (parsed.maxDepth - parsed.depth).toNat
  have hvalue : Realm.all.within value := trivial
  obtain ⟨entries, henters, hends⟩ :=
    Account.Keeps.deferring (((Account.input session.fuel).logic hcalls).run hvalue)
      (parsed.withUnread rest) trivial rfl
  -- Whatever came of the evaluation, the session goes on with the source that it left.
  obtain ⟨outcome, hleaves⟩ := hends.left
  obtain ⟨lines, unread, hinput, hall⟩ := hleaves rest rfl
  have hleft : (Reading.evaluate label).left session = _ :=
    (congrArg Run.left (evaluateNext_of_ok hshares hfrom)).trans (left_evaluating _ _)
  rw [hleft]
  exact ⟨entries, lines, unread, henters, hall, hshares.opened, hinput⟩

theorem Session.Shares.left_of_ok (hshares : session.Shares bytes)
    (hfrom : Run.parseFrom { unread := bytes } label session.machine =
      .ok (.ok value, { unread := rest }) parsed) :
    ((Reading.parse label).left session).Shares rest := by
  have hleft : (Reading.parse label).left session = _ :=
    congrArg Run.left (parseNext_of_ok hshares hfrom)
  rw [hleft]
  exact ⟨hshares.opened, rfl⟩

theorem Session.Shares.left_of_error {reading : Reading} (hshares : session.Shares bytes)
    (hfrom : Run.parseFrom { unread := bytes } reading.label session.machine =
      .ok (.error error, { unread := rest }) parsed) :
    (reading.left session).Shares rest := by
  have hleft : reading.left session = { session with machine := parsed.withUnread rest } := by
    cases reading with
    | parse label => exact congrArg Run.left (parseNext_of_error hshares hfrom)
    | evaluate label => exact congrArg Run.left (evaluateNext_of_error hshares hfrom)
  rw [hleft]
  exact ⟨hshares.opened, rfl⟩

theorem Session.Shares.takes (hshares : session.Shares bytes) (reading : Reading) :
    ∃ portions rest, reading.Takes session portions ∧ (reading.left session).Shares rest ∧
      bytes = portions.flatten ++ rest := by
  cases hparse : (session.machine.grammar reading.label none).parse bytes with
  | error error scanner =>
      have hadvances := (session.machine.grammar reading.label none).parse_advances bytes
      rw [hparse] at hadvances
      obtain ⟨⟨program, rfl⟩, -⟩ := hadvances
      obtain ⟨parsed, -, hfrom⟩ := Run.parseFrom_of_error hparse
      have hleft := hshares.left_of_error hfrom
      refine ⟨[program], scanner.unread, .failed hshares hfrom hleft, hleft, ?_⟩
      rw [List.flatten_singleton]
  | ok tree scanner =>
      obtain ⟨program, rfl, hderives⟩ := Scan.expression_sound rfl _ hparse
      obtain ⟨value, parsed, -, hstands, hfrom⟩ := Run.parseFrom_of_ok hparse
      cases reading with
      | parse label =>
          have hleft := hshares.left_of_ok hfrom
          have htakes := Reading.Takes.parsed hshares hfrom hderives hstands hleft
          exact ⟨[program], scanner.unread, htakes, hleft, by rw [List.flatten_singleton]⟩
      | evaluate label =>
          obtain ⟨entries, lines, rest, henters, hall, hleft⟩ :=
            exists_enters_evaluateNext hshares hfrom
          refine ⟨program :: lines, rest,
            .evaluated hshares hfrom hderives hstands henters hall hleft, hleft, ?_⟩
          rw [List.flatten_cons, List.append_assoc, ← hall.unread_eq]

/-- However programs are read one after the other, the bytes that the parser and PROMPT took, in
order, and what is left are all the bytes that there were. -/
theorem Session.Shares.exists_takeAll (hshares : session.Shares bytes) (readings : List Reading) :
    ∃ portions last rest, Reading.TakeAll session readings portions last ∧ last.Shares rest ∧
      bytes = portions.flatten ++ rest := by
  induction readings generalizing session bytes with
  | nil => exact ⟨[], session, bytes, .nil session, hshares, rfl⟩
  | cons reading readings ih =>
      obtain ⟨portions, middle, htakes, hleft, hbytes⟩ := hshares.takes reading
      obtain ⟨others, last, rest, hall, hlast, hmiddle⟩ := ih hleft
      refine ⟨portions ++ others, last, rest, .cons htakes hall, hlast, ?_⟩
      calc
        bytes = portions.flatten ++ middle := hbytes
        _ = portions.flatten ++ (others.flatten ++ rest) := by rw [← hmiddle]
        _ = (portions ++ others).flatten ++ rest := by
          rw [List.flatten_append, List.append_assoc]

end Programs

/-- A session whose program asks for two lines; what follows the program up to its newline is the
first of them. -/
def Session.twoLines : Session :=
  { machine := { world := { input := .source { unread := "+ P P\r\nab\r\r\n x" } } }, fuel := 0 }

theorem Session.Shares.exists_takeAll_twoLines :
    Session.twoLines.Shares "+ P P\r\nab\r\r\n x" ∧ ∃ portions last,
      Reading.TakeAll .twoLines [.evaluate "stdin"] portions last ∧ last.Shares " x" ∧
      portions.flatten = "+ P P\r\nab\r\r\n" := by
  have hshares : Session.twoLines.Shares "+ P P\r\nab\r\r\n x" := ⟨rfl, rfl⟩
  obtain ⟨portions, last, rest, hall, hlast, hbytes⟩ := hshares.exists_takeAll [.evaluate "stdin"]
  have hlast' : last = (Reading.evaluate "stdin").left .twoLines := by
    cases hall with
    | cons _ hnil =>
        cases hnil
        rfl
  have hinput : ((Reading.evaluate "stdin").left .twoLines).machine.world.input =
      .source { unread := " x" } := by decide +kernel
  have hrest : rest = " x" := by
    have hunread := hlast.input
    rw [hlast', hinput] at hunread
    cases hunread
    rfl
  subst hrest
  refine ⟨hshares, portions, last, hall, hlast, ?_⟩
  exact List.append_cancel_right hbytes.symm

end KnightLang
