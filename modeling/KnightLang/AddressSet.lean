import KnightLang.Value

/-!
The addresses of payloads, and sets of them. Both come from outside the machine: nothing is known
about where a payload is kept, nor about how a set keeps its elements. What a set answers may depend
on everything that was done with it, and this is what stands for it here.
-/

namespace KnightLang

/-- Where a payload is kept. -/
abbrev Address := Nat

/-- A set of addresses: whatever was done with it, from its beginning. -/
inductive AddressSet where
  | unused
  | reset (set : AddressSet)
  | add (set : AddressSet) (address : Address)
  deriving DecidableEq, Repr

/-- What provides addresses and sets of them. -/
class Addressing where
  /-- The address of an owned payload. -/
  address : Value → Address
  /-- What a set answers when an address is added to it: whether the address was not in it. -/
  isNew : AddressSet → Address → Bool
  /-- Resetting a set empties it. -/
  isNew_reset : ∀ (set : AddressSet) (address : Address), isNew set.reset address = true
  /-- Adding an address puts it into the set, and nothing else. -/
  isNew_add : ∀ (set : AddressSet) (address other : Address),
    isNew (set.add address) other = (other != address && isNew set other)

namespace AddressSet

/-- Whether an address was not added to a set since it was emptied. -/
def lacks : AddressSet → Address → Bool
  | .unused, _ | .reset _, _ => true
  | .add set address, other => other != address && set.lacks other

end AddressSet

/-- Payloads are kept in the order in which they are made, strings at even addresses and
applications at odd ones. -/
@[reducible]
def Addressing.sequential : Addressing where
  address
    | .string (.owned index) => 2 * index
    | .expr index => 2 * index + 1
    | _ => 0
  isNew := AddressSet.lacks
  isNew_reset _ _ := rfl
  isNew_add _ _ _ := rfl

end KnightLang
