import KnightLang.Proofs.Lockstep
import Mathlib.Tactic.SplitIfs

/-!
How runs side by side are put together, and the actions of a machine that evaluation is made of.
-/

namespace KnightLang

namespace Run

theorem onStore_bind {α β : Type} (first : StoreM α) (next : α → StoreM β) :
    onStore (first >>= next) = onStore first >>= fun result => onStore (next result) := by
  funext machine
  simp only [onStore, bind, EStateM.bind]
  cases first machine.store <;> rfl

theorem tryOnStore_bind {α β : Type} (first : StoreM α) (next : α → StoreM (Except Reason β)) :
    tryOnStore (first >>= next) = onStore first >>= fun result => tryOnStore (next result) := by
  unfold tryOnStore
  rw [onStore_bind, bind_assoc]

theorem tryOnStore_get {α : Type} (action : Store → StoreM (Except Reason α)) (machine : Machine) :
    tryOnStore (get >>= action) machine = tryOnStore (action machine.store) machine := rfl

namespace Lockstep

open Machine

variable {α β : Type} {start counting lasting : Machine} {held : Multiset Value}
  {gives : α → Multiset Value} {gives' : β → Multiset Value} {value : Value}

theorem rebase {middle lasting' : Machine} {more : Multiset Value}
    {result result' : EStateM.Result Stop Machine α} (instep : start.InStep more middle lasting')
    (lockstep : Lockstep middle held gives result result') :
    Lockstep start held gives result result' := by
  cases lockstep with
  | ok hend => exact .ok (instep.rebase hend)
  | error hend => exact .error (instep.rebase hend)
  | exhausted hend => exact .exhausted (instep.rebase hend)

theorem of_ok {result' : EStateM.Result Stop Machine α} {value : α} {after : Machine}
    (lockstep : Lockstep start held gives (.ok value after) result') :
    ∃ after', result' = .ok value after' ∧ start.InStep (gives value + held) after after' := by
  cases lockstep with
  | ok hend => exact ⟨_, rfl, hend⟩

theorem of_error {result' : EStateM.Result Stop Machine α} {error : Error} {after : Machine}
    (lockstep : Lockstep start held gives (.error (.error error) after) result') :
    ∃ after', result' = .error (.error error) after' ∧ start.InStep held after after' := by
  cases lockstep with
  | error hend => exact ⟨_, rfl, hend⟩

theorem of_kept_ok {result : EStateM.Result Stop Machine α} {value : α} {kept : Machine}
    (lockstep : Lockstep start held gives result (.ok value kept)) :
    ∃ after, result = .ok value after ∧ start.InStep (gives value + held) after kept := by
  cases lockstep with
  | ok hend => exact ⟨_, rfl, hend⟩

theorem of_kept_error {result : EStateM.Result Stop Machine α} {error : Error} {kept : Machine}
    (lockstep : Lockstep start held gives result (.error (.error error) kept)) :
    ∃ after, result = .error (.error error) after ∧ start.InStep held after kept := by
  cases lockstep with
  | error hend => exact ⟨_, rfl, hend⟩

theorem bind {first second : Run α} {next next' : α → Run β}
    (hfirst : Lockstep start held gives (first counting) (second lasting))
    (hnext : ∀ result counting lasting, start.InStep (gives result + held) counting lasting →
      Lockstep start held gives' (next result counting) (next' result lasting)) :
    Lockstep start held gives' ((first >>= next) counting) ((second >>= next') lasting) := by
  change Lockstep start held gives' (EStateM.bind first next counting)
    (EStateM.bind second next' lasting)
  unfold EStateM.bind
  generalize first counting = result, second lasting = result' at hfirst
  cases hfirst with
  | ok hend => exact hnext _ _ _ hend
  | error hend => exact .error hend
  | exhausted hend => exact .exhausted hend

/-- An action that surely ends with a value goes first. -/
theorem step {first second : Run α} {next next' : α → Run β} {result : α} {after after' : Machine}
    (hfirst : first counting = .ok result after) (hsecond : second lasting = .ok result after')
    (hnext : Lockstep start held gives' (next result after) (next' result after')) :
    Lockstep start held gives' ((first >>= next) counting) ((second >>= next') lasting) := by
  change Lockstep start held gives' (EStateM.bind first next counting)
    (EStateM.bind second next' lasting)
  unfold EStateM.bind
  rw [hfirst, hsecond]
  exact hnext

theorem observe {next next' : Machine → Run α}
    (hnext : Lockstep start held gives (next counting counting) (next' lasting lasting)) :
    Lockstep start held gives ((get >>= next) counting) ((get >>= next') lasting) := hnext

theorem map {first second : Run α} {wrap : α → β}
    (hfirst : Lockstep start held gives (first counting) (second lasting))
    (hwrap : ∀ result, gives' (wrap result) = gives result) :
    Lockstep start held gives' ((first >>= fun result => pure (wrap result)) counting)
      ((second >>= fun result => pure (wrap result)) lasting) := by
  refine hfirst.bind fun result counting lasting instep => ?_
  rw [← hwrap] at instep
  exact .ok instep

theorem raise (instep : start.InStep held counting lasting) (reason : Reason) :
    Lockstep start held gives ((Run.raise reason : Run α) counting)
      ((Run.raise reason : Run α) lasting) :=
  .error instep

theorem raiseBecause (instep : start.InStep held counting lasting) (reason : Reason)
    (cause : Bytes) :
    Lockstep start held gives ((Run.raiseBecause reason cause : Run α) counting)
      ((Run.raiseBecause reason cause : Run α) lasting) :=
  .error instep

theorem ofExcept {result : Except Reason α} (instep : start.InStep held counting lasting)
    (hgives : ∀ value, gives value = 0) :
    Lockstep start held gives (Run.ofExcept result counting) (Run.ofExcept result lasting) := by
  cases result with
  | error reason => exact .error instep
  | ok value => exact .ok (by rwa [hgives, zero_add])

/-- A value that is released however an action ends is held while it runs. -/
theorem deferring {first second : Run α}
    (haction : Lockstep start (value ::ₘ held) gives (first counting) (second lasting)) :
    Lockstep start held gives
      (Run.deferring (@Run.release .counting value) first counting)
      (Run.deferring (@Run.release .lasting value) second lasting) := by
  unfold Run.deferring
  generalize first counting = result, second lasting = result' at haction
  cases haction with
  | ok hend =>
      rw [Multiset.add_cons] at hend
      obtain ⟨after, hcounting, hlasting, hreleased⟩ := hend.release
      simp only [hcounting, hlasting]
      exact .ok hreleased
  | error hend =>
      obtain ⟨after, hcounting, hlasting, hreleased⟩ := hend.release
      simp only [hcounting, hlasting]
      exact .error hreleased
  | exhausted hend =>
      rw [Multiset.add_cons] at hend
      obtain ⟨after, hcounting, hlasting, hreleased⟩ := hend.release
      simp only [hcounting, hlasting]
      exact .exhausted hreleased

theorem concluding {first second : Run α}
    (haction : Lockstep start (value ::ₘ held) gives (first counting) (second lasting)) :
    Lockstep start held gives
      (Run.concluding (@Run.release .counting value) first counting)
      (Run.concluding (@Run.release .lasting value) second lasting) := by
  unfold Run.concluding
  generalize first counting = result, second lasting = result' at haction
  cases haction with
  | ok hend =>
      rw [Multiset.add_cons] at hend
      obtain ⟨after, hcounting, hlasting, hreleased⟩ := hend.release
      simp only [hcounting, hlasting]
      exact .ok hreleased
  | error hend =>
      obtain ⟨after, hcounting, hlasting, hreleased⟩ := hend.release
      simp only [hcounting, hlasting]
      exact .error hreleased
  | @exhausted lost _ _ hend =>
      rw [← Multiset.singleton_add, ← add_assoc] at hend
      exact .exhausted hend

/-- A value that is released if an action fails is held on if it succeeds. -/
theorem onError {first second : Run α}
    (haction : Lockstep start (value ::ₘ held) gives (first counting) (second lasting)) :
    Lockstep start held (fun result => value ::ₘ gives result)
      (Run.onError (@Run.release .counting value) first counting)
      (Run.onError (@Run.release .lasting value) second lasting) := by
  unfold Run.onError
  generalize first counting = result, second lasting = result' at haction
  cases haction with
  | ok hend =>
      rw [Multiset.add_cons, ← Multiset.cons_add] at hend
      exact .ok hend
  | error hend =>
      obtain ⟨after, hcounting, hlasting, hreleased⟩ := hend.release
      simp only [hcounting, hlasting]
      exact .error hreleased
  | @exhausted lost _ _ hend =>
      rw [← Multiset.singleton_add, ← add_assoc] at hend
      exact .exhausted hend

/-- A value without a payload of its own need not be released. -/
theorem unhold_plain {result result' : EStateM.Result Stop Machine α}
    (lockstep : Lockstep start (value ::ₘ held) gives result result')
    (hplain : value.isPlain = true) : Lockstep start held gives result result' := by
  cases lockstep with
  | ok hend =>
      rw [Multiset.add_cons] at hend
      exact .ok (hend.unhold_plain hplain)
  | error hend => exact .error (hend.unhold_plain hplain)
  | exhausted hend =>
      rw [Multiset.add_cons] at hend
      exact .exhausted (hend.unhold_plain hplain)

/-! ### Variables -/

theorem read (instep : start.InStep held counting lasting) (cell : Nat) :
    Lockstep start held (fun result => {result}) (@Run.read .counting cell counting)
      (@Run.read .lasting cell lasting) := by
  refine observe ?_
  simp only [instep.environment_eq]
  cases hvalue : counting.environment.value? cell with
  | none => exact raise instep _
  | some value =>
      have hmem : value ∈ counting.environment.holds + held :=
        Multiset.mem_add.mpr (Or.inl (Environment.mem_holds_of_value? hvalue))
      obtain ⟨after, hcounting, hlasting, hretained⟩ :=
        instep.retain (.held hmem) (Multiset.Subset.refl _)
      exact step hcounting hlasting (.ok hretained)

/-! ### The outside -/

theorem setWorld (instep : start.InStep held counting lasting) (world : World) :
    start.InStep held { counting with world } { lasting with world } :=
  instep.update rfl rfl rfl (by rw [instep.same])

/-- Whatever is asked of the outside, both machines get the same answer. -/
theorem askWorld {γ : Type} (ask : World → γ × World) {next next' : γ → Run α}
    (instep : start.InStep held counting lasting)
    (hnext : ∀ answer counting lasting, start.InStep held counting lasting →
      Lockstep start held gives (next answer counting) (next' answer lasting)) :
    Lockstep start held gives
      ((modifyGet (fun machine : Machine =>
        ((ask machine.world).1, { machine with world := (ask machine.world).2 })) >>= next)
          counting)
      ((modifyGet (fun machine : Machine =>
        ((ask machine.world).1, { machine with world := (ask machine.world).2 })) >>= next')
          lasting) := by
  change Lockstep start held gives
    (next (ask counting.world).1 { counting with world := (ask counting.world).2 })
    (next' (ask lasting.world).1 { lasting with world := (ask lasting.world).2 })
  rw [instep.world_eq]
  exact hnext _ _ _ (setWorld instep _)

theorem flush (instep : start.InStep held counting lasting) :
    Lockstep start held (fun _ => 0) (Run.flush counting) (Run.flush lasting) := by
  refine askWorld World.flush instep fun failure counting lasting instep => ?_
  cases failure with
  | some text => exact raiseBecause instep _ _
  | none => exact .ok (by rwa [zero_add])

theorem write (instep : start.InStep held counting lasting) (bytes : Bytes) :
    Lockstep start held (fun _ => 0) (Run.write bytes counting) (Run.write bytes lasting) := by
  refine askWorld (fun world => world.write bytes) instep
    fun failure counting lasting instep => ?_
  cases failure with
  | some text => exact raiseBecause instep _ _
  | none => exact flush instep

/-! ### Strings -/

theorem addText (instep : start.InStep held counting lasting) (contents : Bytes) :
    Lockstep start held (fun text => {.string text})
      (Run.onStore (Store.addText contents) counting)
      (Run.onStore (Store.addText contents) lasting) := by
  obtain ⟨text, after, after', hcounting, hlasting, hadded⟩ := instep.addText contents
  rw [hcounting, hlasting]
  exact .ok hadded

theorem intern (instep : start.InStep held counting lasting) (contents : Bytes) :
    Lockstep start held (fun text => {.string text})
      (Run.onStore (Store.intern contents) counting)
      (Run.onStore (Store.intern contents) lasting) := by
  obtain ⟨text, after, after', hcounting, hlasting, hadded⟩ := instep.intern contents
  rw [hcounting, hlasting]
  exact .ok hadded

theorem static (instep : start.InStep held counting lasting) (text : StaticText) :
    start.InStep ({.string (.static text)} + held) counting lasting :=
  instep.plain rfl (by simp)

theorem share {text : TextRef} (instep : start.InStep held counting lasting)
    (hguards : counting.Guards held (.string text)) :
    Lockstep start held (fun text => {.string text})
      (Run.tryOnStore (@Store.share .counting text) counting)
      (Run.tryOnStore (@Store.share .lasting text) lasting) := by
  obtain ⟨after, hcounting, hlasting, hretained⟩ :=
    instep.retain hguards (InStep.held_subset held counting.environment)
  unfold Store.share
  rw [tryOnStore_bind, tryOnStore_bind]
  exact step hcounting hlasting (.ok hretained)

theorem tryAddText (instep : start.InStep held counting lasting) (contents : Bytes) :
    Lockstep start held (fun text => {.string text})
      (Run.tryOnStore (do return .ok (← Store.addText contents)) counting)
      (Run.tryOnStore (do return .ok (← Store.addText contents)) lasting) := by
  rw [tryOnStore_bind]
  exact (addText instep contents).map fun _ => rfl

theorem tryIntern (instep : start.InStep held counting lasting) (contents : Bytes) :
    Lockstep start held (fun text => {.string text})
      (Run.tryOnStore (do return .ok (← Store.intern contents)) counting)
      (Run.tryOnStore (do return .ok (← Store.intern contents)) lasting) := by
  rw [tryOnStore_bind]
  exact (intern instep contents).map fun _ => rfl

section Operations

variable {first second : TextRef} (instep : start.InStep held counting lasting)
  (hfirst : counting.Guards held (.string first))

include instep hfirst

theorem concat (hsecond : counting.Guards held (.string second)) :
    Lockstep start held (fun text => {.string text})
      (Run.tryOnStore (@Store.concat .counting first second) counting)
      (Run.tryOnStore (@Store.concat .lasting first second) lasting) := by
  unfold Store.concat
  rw [tryOnStore_get, tryOnStore_get]
  simp only [instep.bytes_eq hfirst, instep.bytes_eq hsecond]
  split_ifs
  · exact share instep hsecond
  · exact share instep hfirst
  · exact raise instep _
  · exact tryAddText instep _

theorem replicate (count : Int64) :
    Lockstep start held (fun text => {.string text})
      (Run.tryOnStore (@Store.replicate .counting first count) counting)
      (Run.tryOnStore (@Store.replicate .lasting first count) lasting) := by
  unfold Store.replicate
  rw [tryOnStore_get, tryOnStore_get]
  simp only [instep.bytes_eq hfirst]
  split_ifs
  · exact raise instep _
  · exact .ok (static instep _)
  · exact share instep hfirst
  · exact raise instep _
  · exact tryAddText instep _

theorem substring (position length : Int64) :
    Lockstep start held (fun text => {.string text})
      (Run.tryOnStore (@Store.substring .counting first position length) counting)
      (Run.tryOnStore (@Store.substring .lasting first position length) lasting) := by
  unfold Store.substring
  rw [tryOnStore_get, tryOnStore_get]
  simp only [instep.bytes_eq hfirst]
  split_ifs
  · exact raise instep _
  · exact .ok (static instep _)
  · exact share instep hfirst
  · exact tryIntern instep _

theorem splice (position length : Int64) (hsecond : counting.Guards held (.string second)) :
    Lockstep start held (fun text => {.string text})
      (Run.tryOnStore (@Store.splice .counting first position length second) counting)
      (Run.tryOnStore (@Store.splice .lasting first position length second) lasting) := by
  unfold Store.splice
  rw [tryOnStore_get, tryOnStore_get]
  simp only [instep.bytes_eq hfirst, instep.bytes_eq hsecond]
  split_ifs
  · exact raise instep _
  · exact raise instep _
  · exact .ok (static instep _)
  · exact raise instep _
  · exact share instep hsecond
  · exact share instep hfirst
  · exact tryAddText instep _

end Operations

theorem literalText (instep : start.InStep held counting lasting)
    (hguards : counting.Guards held value) :
    Lockstep start held (fun text => {.string text})
      (Run.onStore (@Store.literalText .counting value) counting)
      (Run.onStore (@Store.literalText .lasting value) lasting) := by
  cases value with
  | boolean flag => exact .ok (static instep _)
  | number word =>
      change Lockstep start held _ (Run.onStore (Store.numberText word) counting)
        (Run.onStore (Store.numberText word) lasting)
      unfold Store.numberText
      split_ifs
      · exact .ok (static instep _)
      · exact .ok (static instep _)
      · exact addText instep _
  | string text =>
      obtain ⟨after, hcounting, hlasting, hretained⟩ :=
        instep.retain hguards (InStep.held_subset held counting.environment)
      unfold Store.literalText
      simp only [onStore_bind]
      exact step hcounting hlasting (.ok hretained)
  | null | «variable» cell | expr node => exact .ok (static instep _)

end Lockstep

end Run

namespace Machine.InStep

variable {start counting lasting : Machine} {held : Multiset Value} {value : Value}

/-! ### Putting expressions into the store -/

mutual

theorem load (tree : Tree) {held : Multiset Value} {counting lasting : Machine}
    (instep : start.InStep held counting lasting) :
    ∃ value after after', tree.load counting = .ok value after ∧
      tree.load lasting = .ok value after' ∧ start.InStep (value ::ₘ held) after after' := by
  match tree with
  | .null => exact ⟨.null, counting, lasting, rfl, rfl, instep.plain rfl (by simp)⟩
  | .boolean flag => exact ⟨.boolean flag, counting, lasting, rfl, rfl, instep.plain rfl (by simp)⟩
  | .number word => exact ⟨.number word, counting, lasting, rfl, rfl, instep.plain rfl (by simp)⟩
  | .text contents =>
      obtain ⟨text, after, after', hcounting, hlasting, hadded⟩ := instep.intern contents
      exact ⟨.string text, after, after', Run.bind_ok hcounting, Run.bind_ok hlasting, hadded⟩
  | .variable name =>
      obtain ⟨cell, after, after', hcounting, hlasting, hcell, hfetched⟩ := instep.fetch name
      exact ⟨.variable cell, after, after', Run.bind_ok hcounting, Run.bind_ok hlasting,
        hfetched.hold_cell hcell⟩
  | .apply function args =>
      obtain ⟨values, middle, middle', hcounting, hlasting, hloaded⟩ := instep.loadAll args
      obtain ⟨value, after, after', hadded, hadded', hfinal⟩ := hloaded.addNode function
      exact ⟨value, after, after', (Run.bind_ok hcounting).trans hadded,
        (Run.bind_ok hlasting).trans hadded', hfinal⟩

theorem loadAll (trees : List Tree) {held : Multiset Value} {counting lasting : Machine}
    (instep : start.InStep held counting lasting) :
    ∃ values after after', Tree.loadAll trees counting = .ok values after ∧
      Tree.loadAll trees lasting = .ok values after' ∧
      start.InStep ((values : Multiset Value) + held) after after' := by
  match trees with
  | [] => exact ⟨[], counting, lasting, rfl, rfl, by simpa using instep⟩
  | tree :: rest =>
      obtain ⟨value, middle, middle', hcounting, hlasting, hloaded⟩ := instep.load tree
      obtain ⟨values, after, after', hrest, hrest', hfinal⟩ := hloaded.loadAll rest
      refine ⟨value :: values, after, after', (Run.bind_ok hcounting).trans (Run.bind_ok hrest),
        (Run.bind_ok hlasting).trans (Run.bind_ok hrest'), ?_⟩
      rw [← Multiset.cons_coe, Multiset.cons_add, ← Multiset.add_cons]
      exact hfinal

end

theorem fetchAll (names : List Bytes) {counting lasting : Machine}
    (instep : start.InStep held counting lasting) :
    ∃ after after', (names.forM fun name => do let _ ← Run.fetch name) counting = .ok ⟨⟩ after ∧
      (names.forM fun name => do let _ ← Run.fetch name) lasting = .ok ⟨⟩ after' ∧
      start.InStep held after after' := by
  induction names generalizing counting lasting with
  | nil => exact ⟨counting, lasting, rfl, rfl, instep⟩
  | cons name rest ih =>
      obtain ⟨cell, middle, middle', hcounting, hlasting, -, hfetched⟩ := instep.fetch name
      obtain ⟨after, after', hrest, hrest', hfinal⟩ := ih hfetched
      have hfirst : (do let _ ← Run.fetch name : Run PUnit) counting = .ok ⟨⟩ middle :=
        Run.bind_ok hcounting
      have hfirst' : (do let _ ← Run.fetch name : Run PUnit) lasting = .ok ⟨⟩ middle' :=
        Run.bind_ok hlasting
      exact ⟨after, after', (Run.bind_ok hfirst).trans hrest, (Run.bind_ok hfirst').trans hrest',
        hfinal⟩

theorem grammar_eq (instep : start.InStep held counting lasting) (label : Bytes)
    (failure : Option Bytes) : lasting.grammar label failure = counting.grammar label failure := by
  rw [instep.same]
  rfl

end Machine.InStep

namespace Run.Lockstep

variable {start counting lasting : Machine} {held : Multiset Value}

/-- What a parse gives to be held: the expression, if there is one. -/
def parsed (result : Except Error Value × Source) : Multiset Value :=
  match result.1 with
  | .ok value => {value}
  | .error _ => 0

theorem parseFrom (instep : start.InStep held counting lasting) (source : Source) (label : Bytes) :
    Lockstep start held parsed (Run.parseFrom source label counting)
      (Run.parseFrom source label lasting) := by
  refine observe ?_
  rw [instep.grammar_eq]
  cases (counting.grammar label source.failure).parse source.unread with
  | ok tree scanner =>
      obtain ⟨value, after, after', hcounting, hlasting, hloaded⟩ := instep.load tree
      exact step hcounting hlasting (.ok hloaded)
  | error error scanner =>
      obtain ⟨after, after', hcounting, hlasting, hfetched⟩ :=
        instep.fetchAll scanner.names.reverse
      exact step hcounting hlasting (.ok (by simpa [parsed] using hfetched))

end Run.Lockstep

/-! ### Diagnostic texts -/

theorem Store.dumpArgs_congr {first second : Value → Bytes → Bytes} {values : List Value}
    (hsame : ∀ value ∈ values, ∀ tail, first value tail = second value tail) (tail : Bytes) :
    dumpArgs first values tail = dumpArgs second values tail := by
  induction values with
  | nil => rfl
  | cons value rest ih =>
      simp only [dumpArgs]
      rw [ih fun other hmem => hsame other (List.mem_cons_of_mem _ hmem),
        hsame value List.mem_cons_self]

theorem Run.mapM_dump (values : List Value) (machine : Machine) :
    values.mapM Run.dump machine =
      .ok (values.map (machine.store.dump machine.environment.name)) machine := by
  induction values with
  | nil => rfl
  | cons value rest ih =>
      rw [List.mapM_cons, Run.bind_ok (show Run.dump value machine = .ok _ machine from rfl),
        Run.bind_ok ih]
      rfl

namespace Machine.InStep

variable {start counting lasting : Machine} {held : Multiset Value} {value : Value}

theorem dumpWithin_eq (instep : start.InStep held counting lasting) (name : Nat → Bytes)
    (bound : Nat) {value : Value} (hguards : counting.Guards held value) (tail : Bytes) :
    lasting.store.dumpWithin name bound value tail =
      counting.store.dumpWithin name bound value tail := by
  induction bound generalizing value tail with
  | zero =>
      cases value with
      | string text => simp only [Store.dumpWithin, instep.bytes_eq hguards]
      | null | boolean flag | number word | «variable» cell | expr index =>
          simp only [Store.dumpWithin]
  | succ bound ih =>
      cases value with
      | string text => simp only [Store.dumpWithin, instep.bytes_eq hguards]
      | null | boolean flag | number word | «variable» cell => simp only [Store.dumpWithin]
      | expr index =>
          obtain ⟨function, args, hlive, ⟨refs, hnode⟩, ⟨refs', hnode'⟩⟩ := instep.node?_eq hguards
          simp only [Store.dumpWithin, hnode, hnode']
          rw [Store.dumpArgs_congr fun value hmem tail => ih (.argument hguards hlive hmem) tail]

theorem dump_eq (instep : start.InStep held counting lasting)
    (hguards : counting.Guards held value) :
    lasting.store.dump lasting.environment.name value =
      counting.store.dump counting.environment.name value := by
  unfold Store.dump
  rw [instep.environment_eq, ← instep.kept.nodes_size]
  exact instep.dumpWithin_eq _ _ hguards _

end Machine.InStep

end KnightLang
