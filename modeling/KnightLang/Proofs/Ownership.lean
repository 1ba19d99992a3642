import KnightLang.Proofs.Host

/-!
Ownership along every use of a machine: in whatever order the host asks for operations, and however
they end, every payload has as many references as owners.
-/

namespace KnightLang

namespace Machine

/-- How many slots hold a value: cells, argument slots of live applications, and places of the
host. -/
def owners (machine : Machine) (owned : Multiset Value) (value : Value) : Nat :=
  machine.environment.holds.count value + machine.store.holds.count value + owned.count value

/-- Every payload has as many references as owners; a freed one has none of either. -/
def Counted (machine : Machine) (owned : Multiset Value) : Prop :=
  ∀ value refs, machine.store.refs? value = some refs → refs = machine.owners owned value

/-- A machine and what its host owns, after some operations. The host starts with an empty machine
and owns nothing; between operations it may change whatever concerns no payload. -/
inductive Reachable : Machine → Multiset Value → Prop where
  | start {machine : Machine} :
      machine.store = {} → machine.environment = {} → Reachable machine 0
  | configured {machine after : Machine} {owned : Multiset Value} :
      Reachable machine owned → after.store = machine.store →
      after.environment = machine.environment → Reachable after owned
  | answered {machine after : Machine} {owned : Multiset Value} {answer : Answer}
      (operation : Operation) (fuel : Nat) :
      Reachable machine owned → operation.Allowed machine owned →
      operation.perform fuel machine = .ok answer after →
      Reachable after (answer.owned + operation.leaves owned)
  | failed {machine after : Machine} {owned : Multiset Value} {error : Error}
      (operation : Operation) (fuel : Nat) :
      Reachable machine owned → operation.Allowed machine owned →
      operation.perform fuel machine = .error (.error error) after →
      Reachable after (operation.leaves owned)

/-- What the way a machine is built up gives: an application is made after its arguments, and a
variable that is referred to has its cell. -/
structure WellFormed (machine : Machine) (owned : Multiset Value) : Prop where
  older : ∀ index node child, machine.store.node? index = some node → .expr child ∈ node.args →
    child < index
  known : ∀ cell, .variable cell ∈ machine.store.holds + (machine.environment.holds + owned) →
    cell < machine.environment.cells.size

variable {machine : Machine} {owned : Multiset Value}

theorem owners_eq_count (machine : Machine) (owned : Multiset Value) (value : Value) :
    machine.owners owned value =
      (machine.store.holds + (machine.environment.holds + owned)).count value := by
  rw [Multiset.count_add, Multiset.count_add]
  unfold owners
  omega

theorem balanced_iff : machine.store.Balanced machine.environment.cells.size
    (machine.environment.holds + owned) ↔ machine.Counted owned ∧ machine.WellFormed owned := by
  constructor
  · intro balanced
    refine ⟨fun value refs hrefs => ?_, balanced.older, balanced.known⟩
    rw [owners_eq_count]
    exact balanced.counts value refs hrefs
  · rintro ⟨hcounted, hformed⟩
    refine ⟨fun value refs hrefs => ?_, hformed.older, hformed.known⟩
    rw [← owners_eq_count]
    exact hcounted value refs hrefs

theorem InStep.counted {start lasting : Machine}
    (instep : start.InStep owned machine lasting) : machine.Counted owned :=
  (balanced_iff.mp instep.balanced).1

/-- A machine is in step with itself before it goes on. -/
theorem inStep_self (hbalanced : machine.store.Balanced machine.environment.cells.size
    (machine.environment.holds + owned)) : machine.InStep owned machine machine where
  balanced := hbalanced
  continues := .refl machine.store
  cells_le := le_rfl
  kept := .refl machine.store
  same := rfl

theorem balanced_empty : Store.Balanced {} 0 0 where
  counts value refs hrefs := by
    have hholds : (Store.holds {} + 0).count value = 0 := by simp [Store.holds]
    cases value with
    | string text => cases text <;> simp_all [Store.refs?, Store.textRefs?, Store.text?]
    | expr index => simp_all [Store.refs?, Store.nodeRefs, Store.node?]
    | null | boolean flag | number word | «variable» cell => simp [Store.refs?] at hrefs
  older index node child hnode := by simp [Store.node?] at hnode
  known cell hmem := by simp [Store.holds] at hmem

/-- Whatever the host has done, its machine is balanced. -/
theorem Reachable.inStep (hreachable : Reachable machine owned) :
    machine.InStep owned machine machine := by
  induction hreachable with
  | start hstore henvironment =>
      refine inStep_self ?_
      rw [hstore, henvironment]
      exact balanced_empty
  | configured _ hstore henvironment ih =>
      refine inStep_self ?_
      rw [hstore, henvironment]
      exact ih.balanced
  | answered operation fuel _ hallowed hperform ih =>
      have hlockstep := Run.Lockstep.operation ih fuel operation hallowed
      rw [hperform] at hlockstep
      obtain ⟨lasting, -, hend⟩ := hlockstep.of_ok
      exact inStep_self hend.balanced
  | failed operation fuel _ hallowed hperform ih =>
      have hlockstep := Run.Lockstep.operation ih fuel operation hallowed
      rw [hperform] at hlockstep
      obtain ⟨lasting, -, hend⟩ := hlockstep.of_error
      exact inStep_self hend.balanced

theorem Reachable.wellFormed (hreachable : Reachable machine owned) : machine.WellFormed owned :=
  (balanced_iff.mp hreachable.inStep.balanced).2

/-- Whatever the host has done, every payload has as many references as owners. Whatever it may do
next keeps this up: an operation that gives a value adds that value to what the host owns, one that
fails adds nothing, and none breaks a rule of ownership. -/
theorem Reachable.counted_and_stays_counted (hreachable : Reachable machine owned) :
    machine.Counted owned ∧
      ∀ (operation : Operation) (fuel : Nat), operation.Allowed machine owned →
        match operation.perform fuel machine with
        | .ok answer after => after.Counted (answer.owned + operation.leaves owned)
        | .error (.error _) after => after.Counted (operation.leaves owned)
        | .error (.fault _) _ => False
        | .error .exhausted _ => True := by
  have instep := hreachable.inStep
  refine ⟨instep.counted, fun operation fuel hallowed => ?_⟩
  have hlockstep := Run.Lockstep.operation instep fuel operation hallowed
  split
  · next answer after hperform =>
      rw [hperform] at hlockstep
      obtain ⟨lasting, -, hend⟩ := hlockstep.of_ok
      exact hend.counted
  · next error after hperform =>
      rw [hperform] at hlockstep
      obtain ⟨lasting, -, hend⟩ := hlockstep.of_error
      exact hend.counted
  · next fault after hperform =>
      rw [hperform] at hlockstep
      cases hlockstep
  · trivial

/-- Evaluates a block that gives the variable it is held by another value while it runs. -/
def selfAssignment : Operation :=
  .evaluate { unread := "; = f B ; = f 'x' + f 'yy' C f" } "EVAL"

theorem Reachable.counted_after_selfAssignment :
    Reachable {} 0 ∧ ∃ after,
      selfAssignment.perform 0 {} = .ok (.value (.string (.owned 2))) after ∧
      after.Counted {.string (.owned 2)} := by
  have hstart : Reachable {} 0 := .start rfl rfl
  refine ⟨hstart, ?_⟩
  have hcounted := hstart.counted_and_stays_counted.2 selfAssignment 0 trivial
  have hanswer : (match selfAssignment.perform 0 {} with
    | .ok answer _ => decide (answer = .value (.string (.owned 2)))
    | .error _ _ => false) = true := by decide +kernel
  split at hanswer
  · next answer after hperform =>
      rw [hperform] at hcounted
      obtain rfl := of_decide_eq_true hanswer
      exact ⟨after, hperform, hcounted⟩
  · exact absurd hanswer Bool.false_ne_true

end Machine

end KnightLang
