import KnightLang.Machine

/-!
The footprint of a machine: how many variables it has, and what can be reached from them, each
payload counted once. A survey starts at the values of the variables and goes on to the arguments of
every application that it meets; a payload whose address it has met before is passed over.
-/

namespace KnightLang

/-- A summary of what can be reached from the variables of a machine. -/
structure Footprint where
  cells : Nat
  assigned : Nat
  strings : Nat := 0
  bytes : Nat := 0
  exprs : Nat := 0
  maxRefs : Nat := 0
  deriving DecidableEq, Repr

/-- Takes one more payload into account. -/
def Footprint.count (store : Store) (footprint : Footprint) : Value → Footprint
  | .string text =>
    { footprint with
      strings := footprint.strings + 1
      bytes := footprint.bytes + (store.bytes text).length
      maxRefs := max footprint.maxRefs ((store.textRefs? text).getD 0) }
  | .expr index =>
    { footprint with
      exprs := footprint.exprs + 1
      maxRefs := max footprint.maxRefs (store.nodeRefs index) }
  | _ => footprint

namespace Store

/-- Whether a value has an owned payload that was made at some time. -/
def hasPayload (store : Store) : Value → Bool
  | .string (.owned index) => index < store.texts.size
  | .expr index => index < store.nodes.size
  | _ => false

/-- All owned payloads ever made, freed ones included. -/
def payloads (store : Store) : List Value :=
  (List.range store.texts.size).map (fun index => .string (.owned index)) ++
    (List.range store.nodes.size).map .expr

/-- The values that a payload refers to; only applications have some. -/
def slots (store : Store) : Value → List Value
  | .expr index => store.args index
  | _ => []

theorem mem_payloads {store : Store} {value : Value} :
    value ∈ store.payloads ↔ store.hasPayload value = true := by
  cases value with
  | string text => cases text <;> simp [payloads, hasPayload]
  | null | boolean flag | number word | «variable» cell | expr index =>
    simp [payloads, hasPayload]

theorem slots_of_not_hasPayload {store : Store} {value : Value}
    (hnone : store.hasPayload value = false) : store.slots value = [] := by
  cases value with
  | expr index =>
    have hnode : store.nodes[index]? = none :=
      Array.getElem?_eq_none (Nat.not_lt.mp (of_decide_eq_false hnone))
    simp [slots, args, node?, hnode]
  | null | boolean flag | number word | string text | «variable» cell => rfl

section Survey

variable [Addressing]

/-- The payloads whose addresses are not in a set. -/
def unvisited (store : Store) (visited : AddressSet) : List Value :=
  store.payloads.filter fun value => Addressing.isNew visited (Addressing.address value)

theorem unvisited_add (store : Store) (visited : AddressSet) (address : Address) :
    store.unvisited (visited.add address) =
      (store.unvisited visited).filter fun value => Addressing.address value != address := by
  simp only [unvisited, Addressing.isNew_add, List.filter_filter]

theorem length_unvisited_add_le (store : Store) (visited : AddressSet) (address : Address) :
    (store.unvisited (visited.add address)).length ≤ (store.unvisited visited).length := by
  rw [unvisited_add]
  exact List.length_filter_le _ _

theorem length_unvisited_add_lt {store : Store} {visited : AddressSet} {value : Value}
    (hpayload : store.hasPayload value = true)
    (hnew : Addressing.isNew visited (Addressing.address value) = true) :
    (store.unvisited (visited.add (Addressing.address value))).length <
      (store.unvisited visited).length := by
  rw [unvisited_add, List.length_filter_lt_length_iff_exists]
  exact ⟨value, List.mem_filter.mpr ⟨mem_payloads.mpr hpayload, hnew⟩, by simp⟩

/-- Counts the payloads of the pending values, the latest first, and of whatever can be reached from
them, as far as they are new to the set of those visited. -/
def survey (store : Store) (visited : AddressSet) (found : Footprint) (pending : List Value) :
    Footprint × AddressSet :=
  match pending with
  | [] => (found, visited)
  | value :: rest =>
    if value.isPlain then survey store visited found rest
    else if Addressing.isNew visited (Addressing.address value) then
      survey store (visited.add (Addressing.address value)) (found.count store value)
        ((store.slots value).reverse ++ rest)
    else survey store (visited.add (Addressing.address value)) found rest
termination_by ((store.unvisited visited).length, pending.length)
decreasing_by
  · exact Prod.Lex.right _ (Nat.lt_succ_self rest.length)
  · next hnew =>
    cases hpayload : store.hasPayload value with
    | true => exact Prod.Lex.left _ _ (length_unvisited_add_lt hpayload hnew)
    | false =>
      -- Nothing hangs on a payload that was never made.
      refine Prod.Lex.right' _ (length_unvisited_add_le store visited _) ?_
      rw [slots_of_not_hasPayload hpayload]
      exact Nat.lt_succ_self rest.length
  · exact Prod.Lex.right' _ (length_unvisited_add_le store visited _) (Nat.lt_succ_self rest.length)

end Survey

end Store

/-- The footprint of a machine. The set of visited payloads stays with the machine, and is emptied
when the next survey begins. -/
def Machine.footprint [Addressing] (machine : Machine) : Footprint × Machine :=
  let cells := machine.environment.sorted
  let roots := cells.filterMap Cell.value
  let (found, visited) := machine.store.survey machine.visited.reset
    { cells := cells.length, assigned := roots.length } roots.reverse
  (found, { machine with visited })

instance : Addressing := Addressing.sequential

end KnightLang
