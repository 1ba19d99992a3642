import KnightLang.Proofs.Ownership

/-!
Counting references is not observable. A machine that counts them and frees payloads, and one that
keeps every payload for good, answer alike, do the same outside, and end with variables of the same
contents.
-/

namespace KnightLang

/-- What a value consists of. -/
inductive Contents where
  | null
  | boolean (flag : Bool)
  | number (word : Int64)
  | text (bytes : Bytes)
  | variable (cell : Nat)
  | application (function : Function) (args : List Contents)
  /-- An application past the depth looked at. -/
  | deeper
  deriving Repr

/-- What a value consists of, down to a number of applications inside each other. -/
def Store.contents (store : Store) : Nat → Value → Contents
  | _, .null => .null
  | _, .boolean flag => .boolean flag
  | _, .number word => .number word
  | _, .string text => .text (store.bytes text)
  | _, .variable cell => .variable cell
  | 0, .expr _ => .deeper
  | depth + 1, .expr index =>
    match store.node? index with
    | some node => .application node.function (node.args.map (store.contents depth))
    | none => .null

namespace Machine

/-- Two machines look the same to a host that owns the given values: they differ in their stores at
most, and whatever a variable or the host has is the same in both. -/
structure LooksLike (machine other : Machine) (owned : Multiset Value) : Prop where
  same : other = { machine with store := other.store }
  assigned : ∀ cell value depth, machine.environment.value? cell = some value →
    other.store.contents depth value = machine.store.contents depth value
  owned : ∀ value ∈ owned, ∀ depth,
    other.store.contents depth value = machine.store.contents depth value

theorem LooksLike.mono {machine other : Machine} {owned fewer : Multiset Value}
    (looksLike : machine.LooksLike other owned) (hsub : fewer ⊆ owned) :
    machine.LooksLike other fewer where
  same := looksLike.same
  assigned := looksLike.assigned
  owned value hmem := looksLike.owned value (hsub hmem)

namespace InStep

variable {start counting lasting : Machine} {held : Multiset Value}

/-- A text that a variable or the host has, perhaps inside an application, is the same in both
machines. -/
theorem bytes_eq_of_guards {text : TextRef} (instep : start.InStep held counting lasting)
    (hguards : counting.Guards (counting.environment.holds + held) (.string text)) :
    lasting.store.bytes text = counting.store.bytes text := by
  cases text with
  | static text => rfl
  | owned index =>
      obtain ⟨payload, hlive⟩ :=
        instep.balanced.live_of_guarded (Multiset.Subset.refl _) hguards rfl
      exact instep.kept.bytes_eq hlive

theorem contents_eq (instep : start.InStep held counting lasting) (depth : Nat) {value : Value}
    (hguards : counting.Guards (counting.environment.holds + held) value) :
    lasting.store.contents depth value = counting.store.contents depth value := by
  induction depth generalizing value with
  | zero =>
      cases value with
      | string text => simp only [Store.contents, instep.bytes_eq_of_guards hguards]
      | null | boolean flag | number word | «variable» cell | expr index =>
          simp only [Store.contents]
  | succ depth ih =>
      cases value with
      | string text => simp only [Store.contents, instep.bytes_eq_of_guards hguards]
      | null | boolean flag | number word | «variable» cell => simp only [Store.contents]
      | expr index =>
          obtain ⟨payload, hlive⟩ :=
            instep.balanced.live_of_guarded (Multiset.Subset.refl _) hguards rfl
          obtain ⟨function, args, hlive, ⟨refs, hnode⟩, ⟨refs', hnode'⟩⟩ :=
            instep.kept.node?_eq hlive
          have hargs : args.map (lasting.store.contents depth) =
              args.map (counting.store.contents depth) :=
            List.map_congr_left fun value hmem => ih (.argument hguards hlive hmem)
          simp only [Store.contents, hnode, hnode', hargs]

theorem looksLike (instep : start.InStep held counting lasting) :
    counting.LooksLike lasting held where
  same := instep.same
  assigned cell value depth hvalue := by
    refine instep.contents_eq depth (.held ?_)
    exact Multiset.mem_add.mpr (Or.inl (Environment.mem_holds_of_value? hvalue))
  owned value hmem depth :=
    instep.contents_eq depth (.held (Multiset.mem_add.mpr (Or.inr hmem)))

end InStep

/-- Whatever the host may ask of a machine, counting references or keeping every payload makes no
difference: not to the answer or the error, to what is written, read, run and logged, or to what
the variables and the host have afterwards. -/
theorem counting_looksLike_lasting {machine : Machine} {owned : Multiset Value}
    (hcounted : machine.Counted owned) (hformed : machine.WellFormed owned)
    (operation : Operation) (fuel : Nat) (hallowed : operation.Allowed machine owned) :
    match @Operation.perform .counting fuel operation machine,
      @Operation.perform .lasting fuel operation machine with
    | .ok answer after, .ok answer' after' =>
        answer' = answer ∧ after.LooksLike after' (answer.owned + operation.leaves owned)
    | .error stop after, .error stop' after' =>
        stop' = stop ∧ after.LooksLike after' (operation.leaves owned)
    | _, _ => False := by
  have instep := inStep_self (balanced_iff.mpr ⟨hcounted, hformed⟩)
  have hlockstep := Run.Lockstep.operation instep fuel operation hallowed
  generalize @Operation.perform .counting fuel operation machine = result at hlockstep ⊢
  generalize @Operation.perform .lasting fuel operation machine = result' at hlockstep ⊢
  cases hlockstep with
  | ok hend => exact ⟨rfl, hend.looksLike⟩
  | error hend => exact ⟨rfl, hend.looksLike⟩
  | exhausted hend =>
      refine ⟨rfl, hend.looksLike.mono fun value hmem => ?_⟩
      exact Multiset.mem_add.mpr (Or.inr hmem)

theorem selfAssignment_looksLike :
    (({} : Machine).Counted 0 ∧ ({} : Machine).WellFormed 0) ∧ ∃ after after',
      @Operation.perform .counting 0 selfAssignment {} =
        .ok (.value (.string (.owned 2))) after ∧
      @Operation.perform .lasting 0 selfAssignment {} =
        .ok (.value (.string (.owned 2))) after' ∧
      after.LooksLike after' {.string (.owned 2)} := by
  have hempty : ({} : Machine).Counted 0 ∧ ({} : Machine).WellFormed 0 :=
    balanced_iff.mp balanced_empty
  refine ⟨hempty, ?_⟩
  have hlooks := counting_looksLike_lasting hempty.1 hempty.2 selfAssignment 0 trivial
  have hanswer : (match @Operation.perform .counting 0 selfAssignment {} with
    | .ok answer _ => decide (answer = .value (.string (.owned 2)))
    | .error _ _ => false) = true := by decide +kernel
  split at hanswer
  · next answer after hperform =>
      obtain rfl := of_decide_eq_true hanswer
      cases hlasting : @Operation.perform .lasting 0 selfAssignment {} with
      | ok answer' after' =>
          rw [hperform, hlasting] at hlooks
          obtain ⟨rfl, hlooks⟩ := hlooks
          exact ⟨after, after', hperform, rfl, hlooks⟩
      | error stop after' =>
          rw [hperform, hlasting] at hlooks
          exact hlooks.elim
  · exact absurd hanswer Bool.false_ne_true

end Machine

end KnightLang
