import KnightLang.Proofs.Execution
import KnightLang.Proofs.Lockstep

/-!
Applications keep every account, by induction on how many of them may still nest. Two operations are
told apart from the others: PROMPT, which reads a line, and QUIT, which stops with an error that no
other operation stops with.
-/

namespace KnightLang

/-! ### PROMPT -/

theorem Store.exists_intern (contents : Bytes) (store : Store) :
    ∃ text after, Store.intern contents store = .ok text after ∧ store.Trims after ∧
      after.bytes text = contents := by
  cases hstatic : StaticText.find? contents with
  | some text =>
      have hbytes : text.bytes = contents := by simpa using List.find?_some hstatic
      refine ⟨.static text, store, ?_, .refl store, hbytes⟩
      simp only [intern, hstatic]
      rfl
  | none =>
      refine ⟨.owned store.texts.size,
        { store with texts := store.texts.push { bytes := contents, refs := 1 } }, ?_,
        .of_nodes_eq rfl, ?_⟩
      · simp only [intern, hstatic]
        rfl
      · simp [bytes, text?]

/-- A machine that has flushed its output and read a line. -/
def Machine.asked (machine : Machine) : Machine :=
  { machine with world := machine.world.flush.2.readLine.2 }

/-- A line without the newline at its end and the carriage returns before that. -/
def Bytes.lineText (bytes : Bytes) : Bytes :=
  dropRightWhile (· == Byte.carriageReturn)
    (if bytes.getLast? == some Byte.newline then bytes.dropLast else bytes)

section Prompt

variable {machine : Machine}

theorem Run.askWorld_ok {α : Type} (ask : World → α × World) (machine : Machine) :
    (modifyGet fun machine : Machine =>
      let (answer, world) := ask machine.world
      (answer, { machine with world }) : Run α) machine =
      .ok (ask machine.world).1 { machine with world := (ask machine.world).2 } := rfl

@[simp]
theorem World.line_flush (world : World) :
    world.flush.2.readLine.1 = world.input.readLine.1 := by
  rw [← world.quiet_flush.input]
  rfl

theorem Run.flush_of_some {text : Bytes} (hflush : machine.world.flush.1 = some text) :
    Run.flush machine = .error (.error (.because .flushingOutput (.plain text)))
      { machine with world := machine.world.flush.2 } := by
  refine (Run.bind_ok (Run.askWorld_ok World.flush machine)).trans ?_
  rw [hflush]
  rfl

theorem Run.flush_of_none (hflush : machine.world.flush.1 = none) :
    Run.flush machine = .ok ⟨⟩ { machine with world := machine.world.flush.2 } := by
  refine (Run.bind_ok (Run.askWorld_ok World.flush machine)).trans ?_
  rw [hflush]
  rfl

theorem Evaluator.prompt_of_some {text : Bytes} (hflush : machine.world.flush.1 = some text) :
    Evaluator.prompt machine = .error (.error (.because .flushingOutput (.plain text)))
      { machine with world := machine.world.flush.2 } := by
  simp only [Evaluator.prompt, bind, EStateM.bind, Run.flush_of_some hflush]

theorem Evaluator.prompt_of_done (hflush : machine.world.flush.1 = none)
    (hline : machine.world.input.readLine.1 = .done) :
    Evaluator.prompt machine = .ok .null machine.asked := by
  refine (Run.bind_ok (Run.flush_of_none hflush)).trans ?_
  refine (Run.bind_ok (Run.askWorld_ok World.readLine _)).trans ?_
  rw [World.line_flush, hline]
  rfl

theorem Evaluator.prompt_of_failed {text : Bytes} (hflush : machine.world.flush.1 = none)
    (hline : machine.world.input.readLine.1 = .failed text) :
    Evaluator.prompt machine =
      .error (.error (.because .readingLine (.plain text))) machine.asked := by
  refine (Run.bind_ok (Run.flush_of_none hflush)).trans ?_
  refine (Run.bind_ok (Run.askWorld_ok World.readLine _)).trans ?_
  rw [World.line_flush, hline]
  rfl

theorem Evaluator.prompt_of_line {bytes : Bytes} (hflush : machine.world.flush.1 = none)
    (hline : machine.world.input.readLine.1 = .line bytes) :
    ∃ text store, machine.store.Trims store ∧ store.bytes text = bytes.lineText ∧
      Evaluator.prompt machine = .ok (.string text) { machine.asked with store } := by
  obtain ⟨text, store, hintern, htrims, hbytes⟩ :=
    Store.exists_intern bytes.lineText machine.store
  refine ⟨text, store, htrims, hbytes, ?_⟩
  refine (Run.bind_ok (Run.flush_of_none hflush)).trans ?_
  refine (Run.bind_ok (Run.askWorld_ok World.readLine _)).trans ?_
  rw [World.line_flush, hline]
  exact Run.bind_ok (Run.onStore_ok hintern)

/-- The world after a line was read, unless the output could not be flushed. -/
structure World.Prompted (before after : World) : Prop where
  traced : after.traced = before.traced
  input : after.input = if before.flush.1 = none then before.input.readLine.2 else before.input

theorem World.prompted_of_flush_eq_none {world : World} (hflush : world.flush.1 = none) :
    world.Prompted world.flush.2.readLine.2 where
  traced := world.quiet_flush.traced
  input := by
    rw [if_pos hflush, World.readLine, world.quiet_flush.input]

theorem World.prompted_of_flush_ne_none {world : World} (hflush : world.flush.1 ≠ none) :
    world.Prompted world.flush.2 where
  traced := world.quiet_flush.traced
  input := by
    rw [if_neg hflush, world.quiet_flush.input]

theorem Realm.ends_prompt (realm : Realm) (hholds : realm.holds machine) :
    realm.Ends realm.within machine
      (fun outcome world => Stop.Expected Stop.IsOrdinary outcome ∧ machine.world.Prompted world)
      (Evaluator.prompt machine) := by
  cases hflush : machine.world.flush.1 with
  | some text =>
      have hprompted : machine.world.Prompted machine.world.flush.2 :=
        World.prompted_of_flush_ne_none (by rw [hflush]; exact Option.some_ne_none text)
      rw [Evaluator.prompt_of_some hflush]
      refine .error (realm.keep hholds rfl rfl rfl) ⟨rfl, rfl, rfl⟩ ⟨?_, hprompted⟩
      exact Error.isOrdinary_because (show Reason.IsOrdinary .flushingOutput from trivial) text
  | none =>
      have hasked : realm.holds machine.asked := realm.keep hholds rfl rfl rfl
      have hprompted : machine.world.Prompted machine.asked.world :=
        World.prompted_of_flush_eq_none hflush
      have hlevel : machine.Level machine.asked := ⟨rfl, rfl, rfl⟩
      cases hline : machine.world.input.readLine.1 with
      | done =>
          rw [Evaluator.prompt_of_done hflush hline]
          exact .ok (realm.within_literal rfl) hasked hlevel ⟨trivial, hprompted⟩
      | failed text =>
          rw [Evaluator.prompt_of_failed hflush hline]
          refine .error hasked hlevel ⟨?_, hprompted⟩
          exact Error.isOrdinary_because (show Reason.IsOrdinary .readingLine from trivial) text
      | line bytes =>
          obtain ⟨text, store, htrims, -, hresult⟩ := Evaluator.prompt_of_line hflush hline
          have hcalm := realm.calm_trim hasked htrims
          rw [hresult]
          exact .ok (realm.within_literal rfl) hcalm.holds (hlevel.trans hcalm.level)
            ⟨trivial, hprompted⟩

end Prompt

/-! ### Applications -/

namespace Evaluator

/-- What is logged when a program quits. -/
def quitRecord (status : Int64) : LogRecord :=
  { level := .info, message := "quit", fields := [("status", Bytes.ofInt64 status)] }

section Quit

variable {evaluator : Evaluator} {node : Nat} {machine after : Machine}

theorem quit_of_ok {status : Int64}
    (hnumber : evaluator.toNumber (machine.store.arg node 0) machine = .ok status after) :
    evaluator.quit node machine = .error (.error (.raise (.quit status)))
      { after with world := after.world.log (quitRecord status) } := by
  have hargument : operand node 0 machine = .ok (machine.store.arg node 0) machine := rfl
  exact (Run.bind_ok hargument).trans (Run.bind_ok hnumber)

theorem quit_of_error {stop : Stop}
    (hnumber : evaluator.toNumber (machine.store.arg node 0) machine = .error stop after) :
    evaluator.quit node machine = .error stop after := by
  have hargument : operand node 0 machine = .ok (machine.store.arg node 0) machine := rfl
  exact (Run.bind_ok hargument).trans (Run.bind_error hnumber)

end Quit

end Evaluator

/-- Leaving an application brings back the level before it was entered. -/
theorem Realm.Ends.leave {realm : Realm} {good : Value → Prop} {machine : Machine}
    {function : Function} {said : Option Stop → World → Prop}
    {result : EStateM.Result Stop Machine Value}
    (hends : realm.Ends good (machine.enter function) said result) :
    realm.Ends good machine said (Evaluator.leaving result) := by
  obtain ⟨hdepth, hmaxDepth, htrace⟩ := machine.enter_level function
  have hleave {after : Machine} (hlevel : (machine.enter function).Level after) :
      machine.Level after.leave :=
    { depth := by
        rw [Machine.leave, hlevel.depth, hdepth]
        rfl
      maxDepth := hlevel.maxDepth.trans hmaxDepth
      trace := hlevel.trace.trans htrace }
  cases hends with
  | ok hgood hholds hlevel hsaid =>
      exact .ok hgood (realm.keep hholds rfl rfl rfl) (hleave hlevel) hsaid
  | error hholds hlevel hsaid =>
      exact .error (realm.keep hholds rfl rfl rfl) (hleave hlevel) hsaid
  | @cut stop _ hstop hholds hsaid =>
      cases stop with
      | error error => exact hstop.elim
      | fault fault => exact .cut hstop hholds hsaid
      | exhausted => exact .cut hstop hholds hsaid

namespace Account

variable {realm : Realm} {fuel : Nat} {account : Account realm fuel} {budget : Nat}

section Body

variable {machine : Machine} {entry : Entry}
  (hcalls : account.Calls entry.budget) (hnode : realm.within (.expr entry.node))
  (hholds : realm.holds entry.inside)
  (hroom : (entry.inside.maxDepth - entry.inside.depth).toNat = entry.budget)
  (hadd : entry.function.action ≠ .builtin .prompt → ∀ inner outcome world,
    account.holds entry.inside inner outcome world →
    account.holds machine (entry :: inner) outcome world)

include hcalls hnode hholds hroom hadd

/-- QUIT converts its argument, and stops with the number that this gives. -/
theorem body_quit (haction : entry.function.action = .builtin .quit) :
    ∃ inner,
      Enters fuel entry.budget
        (fun apply => Evaluator.quit { budget := entry.budget, fuel, apply } entry.node)
        entry.inside inner ∧
      realm.Ends realm.within entry.inside (account.holds machine (entry :: inner))
        ((entry.evaluator fuel).quit entry.node entry.inside) := by
  have hargument := realm.within_operand hholds hnode 0
  obtain ⟨inner, henters, hends⟩ := 
    (account.logic hcalls).toNumber hargument trivial entry.inside hholds hroom
  have hadded := hadd (by rw [haction]; simp) inner
  refine ⟨inner, ?_⟩
  have hfirst : (Evaluator.operand entry.node 0) entry.inside =
      .ok (entry.inside.store.arg entry.node 0) entry.inside := rfl
  change realm.Ends _ _ _ ((entry.evaluator fuel).toNumber _ entry.inside) at hends
  generalize hresult : (entry.evaluator fuel).toNumber _ entry.inside = result at hends
  cases hends with
  | @ok status last _ hlast hlevel haccount =>
      have hquit : Enters fuel entry.budget
          (fun apply => Evaluator.quit { budget := entry.budget, fuel, apply } entry.node)
          entry.inside ([] ++ (inner ++ [])) :=
        .bind_ok (.alone _ _) hfirst (.bind_ok henters hresult (.alone _ last))
      rw [List.nil_append, List.append_nil] at hquit
      refine ⟨hquit, ?_⟩
      rw [Evaluator.quit_of_ok hresult]
      refine .error (realm.keep hlast rfl rfl rfl) (hlevel.trans ⟨rfl, rfl, rfl⟩) ?_
      refine account.settle (account.quit haction henters hresult (hadded _ _ haccount)) ?_
      exact last.world.quiet_log (show ("quit" : Bytes) ≠ "apply" by decide)
  | error hafter hlevel haccount =>
      refine ⟨.bind_ok (.alone _ _) hfirst (.bind_error henters hresult), ?_⟩
      rw [Evaluator.quit_of_error hresult]
      exact .error hafter hlevel (hadded _ _ haccount)
  | cut hcut hafter haccount =>
      refine ⟨.bind_ok (.alone _ _) hfirst (.bind_error henters hresult), ?_⟩
      rw [Evaluator.quit_of_error hresult]
      exact .cut hcut hafter (hadded _ _ haccount)

/-- What an application does inside is added to its account. -/
theorem body (hlimit : (machine.depth : Int) < machine.maxDepth)
    (hinside : entry.inside = machine.enter entry.function)
    (hallows : realm.allows entry.function) :
    ∃ inner,
      Enters fuel entry.budget
        (fun apply =>
          Evaluator.act { budget := entry.budget, fuel, apply } entry.node entry.function.action)
        entry.inside inner ∧
      realm.Ends realm.within entry.inside (account.holds machine (entry :: inner))
        ((entry.evaluator fuel).act entry.node entry.function.action entry.inside) := by
  -- PROMPT and QUIT have accounts of their own; all other operations go by what is inside them.
  cases haction : entry.function.action with
  | host action =>
      have hperform := (account.logic hcalls).performHost (account.inside_logic hcalls hnode _)
        (fun stop => account.expects_host stop hallows haction) action
      obtain ⟨inner, henters, hends⟩ := hperform entry.inside hholds hroom
      refine ⟨inner, henters, hends.extend (.refl _) (hadd ?_ inner)⟩
      rw [haction]
      exact nofun
  | builtin operation =>
      by_cases hprompt : operation = .prompt
      · subst hprompt
        refine ⟨[], .alone Evaluator.prompt entry.inside, ?_⟩
        refine (realm.ends_prompt hholds).extend (.refl _) ?_
        rintro outcome world ⟨hexpected, hprompted⟩
        refine account.prompt hlimit hinside haction hprompted.traced hprompted.input ?_
        cases outcome with
        | none => trivial
        | some stop => exact account.expects_ordinary hexpected
      by_cases hquit : operation = .quit
      · subst hquit
        exact body_quit hcalls hnode hholds hroom hadd haction
      · have hperform := (account.logic hcalls).perform ⟨hprompt, hquit⟩
          (account.inside_logic hcalls hnode _)
        obtain ⟨inner, henters, hends⟩ := hperform entry.inside hholds hroom
        refine ⟨inner, henters, hends.extend (.refl _) (hadd ?_ inner)⟩
        rw [haction]
        simpa using hprompt

end Body

/-- Applications keep the account, however many of them may nest. -/
theorem calls (account : Account realm fuel) (budget : Nat) : account.Calls budget := by
  induction budget with
  | zero =>
      intro node hnode machine hholds hbudget
      have hreason : Reason.IsOrdinary (.evaluationDepth machine.maxDepth) := trivial
      have hordinary : Stop.IsOrdinary (.error (.raise (.evaluationDepth machine.maxDepth))) :=
        Error.isOrdinary_raise hreason
      exact ⟨[], .tooDeep node machine,
        .error hholds (.refl _) (account.still (.refl _) (account.expects_ordinary hordinary))⟩
  | succ budget ih =>
      intro node hnode machine hholds hbudget
      cases hfound : machine.store.node? node with
      | none =>
          refine ⟨[], .dangling hfound, ?_⟩
          change realm.Ends _ _ _ (Evaluator.applyWithin fuel (budget + 1) node machine)
          rw [Evaluator.applyWithin_of_none hfound]
          exact .ok (realm.within_literal rfl) hholds (.refl _) (account.still (.refl _) trivial)
      | some found =>
          have hlimit : (machine.depth : Int) < machine.maxDepth := by omega
          obtain ⟨hdepth, hmaxDepth, -⟩ := machine.enter_level found.function
          obtain ⟨hfunctions, henvironment, hstore⟩ := machine.enter_contents found.function
          have hinside := realm.keep hholds hfunctions henvironment hstore
          have hroom : ((machine.enter found.function).maxDepth -
              (machine.enter found.function).depth).toNat = budget := by
            rw [hdepth, hmaxDepth]
            omega
          let entry : Entry :=
            { node, function := found.function, budget, inside := machine.enter found.function }
          have hadd : entry.function.action ≠ .builtin .prompt → ∀ inner outcome world,
              account.holds entry.inside inner outcome world →
              account.holds machine (entry :: inner) outcome world :=
            fun hprompt _ _ _ => account.application hlimit rfl hprompt
          obtain ⟨inner, henters, hends⟩ := body ih hnode hinside hroom hadd hlimit rfl
            (realm.allows_node hholds hnode hfound)
          refine ⟨entry :: inner, .application hfound henters, ?_⟩
          change realm.Ends _ _ _ (Evaluator.applyWithin fuel (budget + 1) node machine)
          rw [Evaluator.applyWithin_of_some hfound]
          exact hends.leave

end Account

end KnightLang
