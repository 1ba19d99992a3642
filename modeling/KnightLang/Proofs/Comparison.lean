import KnightLang.Proofs.Conversion
import KnightLang.Proofs.Ownership
import KnightLang.Proofs.Renaming.Actions

/-!
Equality and comparison of values. Equality is an equivalence, under which strings are equal if
their contents are. The literals of each kind that can be compared are in a total order that has
equality as its own, and a value that is compared with one of them counts as the literal of that
kind it converts to.
-/

namespace KnightLang

/-! ### The order of byte strings -/

/-- The lexicographic order of byte strings: the first is cut off where the second goes on, or has
the smaller byte where they first differ. -/
def Bytes.Precedes (first second : Bytes) : Prop :=
  (∃ byte rest, second = first ++ byte :: rest) ∨
    ∃ common low high rest rest', low < high ∧ first = common ++ low :: rest ∧
      second = common ++ high :: rest'

namespace Bytes

theorem precedes_cons_cons {byte other : UInt8} {first second : Bytes} :
    Precedes (byte :: first) (other :: second) ↔
      byte < other ∨ byte = other ∧ Precedes first second := by
  constructor
  · rintro (⟨next, rest, heq⟩ | ⟨common, low, high, rest, rest', hlt, hfirst, hsecond⟩)
    · obtain ⟨rfl, rfl⟩ := List.cons.inj heq
      exact Or.inr ⟨rfl, Or.inl ⟨next, rest, rfl⟩⟩
    · cases common with
      | nil =>
          obtain ⟨rfl, -⟩ := List.cons.inj hfirst
          obtain ⟨rfl, -⟩ := List.cons.inj hsecond
          exact Or.inl hlt
      | cons shared common =>
          obtain ⟨rfl, rfl⟩ := List.cons.inj hfirst
          obtain ⟨rfl, rfl⟩ := List.cons.inj hsecond
          exact Or.inr ⟨rfl, Or.inr ⟨common, low, high, rest, rest', hlt, rfl, rfl⟩⟩
  · rintro (hlt | ⟨rfl, ⟨next, rest, rfl⟩ | ⟨common, low, high, rest, rest', hlt, rfl, rfl⟩⟩)
    · exact Or.inr ⟨[], byte, other, first, second, hlt, rfl, rfl⟩
    · exact Or.inl ⟨next, rest, rfl⟩
    · exact Or.inr ⟨byte :: common, low, high, rest, rest', hlt, rfl, rfl⟩

theorem compare_eq_lt_iff (first second : Bytes) :
    compare first second = .lt ↔ Precedes first second := by
  induction first generalizing second with
  | nil =>
      cases second with
      | nil => simp [Precedes]
      | cons other second => simp [Precedes]
  | cons byte first ih =>
      cases second with
      | nil => simp [Precedes]
      | cons other second =>
          rw [List.compare_cons_cons, precedes_cons_cons, ← ih, Ordering.then_eq_lt,
            Std.compare_eq_lt, Std.LawfulEqCmp.compare_eq_iff_eq]

end Bytes

/-! ### The order of literals -/

/-- The kinds whose literals can be compared. -/
def Kind.isOrdered : Kind → Bool
  | .boolean | .number | .string => true
  | .null | .variable | .expr => false

theorem Value.isLiteral_of_isOrdered {value : Value} (hordered : value.kind.isOrdered = true) :
    value.isLiteral = true := by
  cases value with
  | «variable» cell | expr node => exact absurd hordered Bool.false_ne_true
  | null | boolean flag | number word | string text => rfl

namespace Store

/-- A value of the given kind whose payload was not freed, if it has one of its own. -/
def Has (store : Store) (kind : Kind) (value : Value) : Prop :=
  value.kind = kind ∧ store.Usable value

/-- The order of two literals of one kind. -/
def order (store : Store) : Value → Value → Ordering
  | .string first, .string second => compare (store.bytes first) (store.bytes second)
  | .number first, .number second => compare first second
  | .boolean first, .boolean second => compare first second
  | _, _ => .eq

/-- Which of two literals of one kind is the smaller one: strings by their bytes, numbers by their
values, and false before true. -/
def Precedes (store : Store) : Value → Value → Prop
  | .string first, .string second => Bytes.Precedes (store.bytes first) (store.bytes second)
  | .number first, .number second => first.toInt < second.toInt
  | .boolean first, .boolean second => first = false ∧ second = true
  | _, _ => False

variable {store after : Store} {left right other : Value} {kind : Kind}

theorem equal_string_iff (store : Store) (first second : TextRef) :
    store.equal (.string first) (.string second) = true ↔
      store.bytes first = store.bytes second := by
  unfold equal
  rw [Bool.or_eq_true, beq_iff_eq, beq_iff_eq, or_iff_right_of_imp]
  rintro rfl
  rfl

/-- What distinguishes values from each other: a string is known by its contents. -/
def identity (store : Store) : Value → Value ⊕ Bytes
  | .string text => .inr (store.bytes text)
  | value => .inl value

theorem equal_iff (store : Store) (left right : Value) :
    store.equal left right = true ↔ store.identity left = store.identity right := by
  cases left with
  | string first =>
      cases right with
      | string second => rw [equal_string_iff, identity, identity, Sum.inr.injEq]
      | null | boolean flag | number word | «variable» cell | expr node => simp [equal, identity]
  | null | boolean flag | number word | «variable» cell | expr node =>
      cases right <;> simp [equal, identity]

theorem equivalence_equal (store : Store) :
    Equivalence fun left right => store.equal left right = true where
  refl value := (store.equal_iff value value).mpr rfl
  symm hequal := (store.equal_iff _ _).mpr ((store.equal_iff _ _).mp hequal).symm
  trans hfirst hsecond :=
    (store.equal_iff _ _).mpr
      (((store.equal_iff _ _).mp hfirst).trans ((store.equal_iff _ _).mp hsecond))

/-- The literals of one kind are ordered as their keys in an ordered type, and equal if these
are. -/
theorem exists_key (store : Store) (hkind : kind.isOrdered = true) :
    ∃ (key : Type) (_ : Ord key) (_ : Std.TransOrd key) (_ : Std.LawfulEqOrd key)
      (keyOf : Value → key), ∀ left right, left.kind = kind → right.kind = kind →
        store.order left right = compare (keyOf left) (keyOf right) ∧
        (store.equal left right = true ↔ keyOf left = keyOf right) := by
  cases kind with
  | boolean =>
      refine ⟨Bool, inferInstance, inferInstance, inferInstance, store.literalBoolean, ?_⟩
      intro left right hleft hright
      cases left <;> cases hleft
      cases right <;> cases hright
      exact ⟨rfl, by simp [equal, literalBoolean]⟩
  | number =>
      refine ⟨Int64, inferInstance, inferInstance, inferInstance, store.literalNumber, ?_⟩
      intro left right hleft hright
      cases left <;> cases hleft
      cases right <;> cases hright
      exact ⟨rfl, by simp [equal, literalNumber]⟩
  | string =>
      refine ⟨List UInt8, inferInstance, inferInstance, inferInstance, store.literalBytes, ?_⟩
      intro left right hleft hright
      cases left <;> cases hleft
      cases right <;> cases hright
      exact ⟨rfl, equal_string_iff store _ _⟩
  | null | «variable» | expr => exact absurd hkind Bool.false_ne_true

section Laws

variable (hkind : kind.isOrdered = true) (hleft : left.kind = kind) (hright : right.kind = kind)

include hkind hleft hright

theorem order_eq_iff : store.order left right = .eq ↔ store.equal left right = true := by
  obtain ⟨key, _, _, _, keyOf, hkey⟩ := store.exists_key hkind
  obtain ⟨horder, hequal⟩ := hkey left right hleft hright
  rw [horder, hequal, Std.LawfulEqCmp.compare_eq_iff_eq]

theorem order_swap : store.order right left = (store.order left right).swap := by
  obtain ⟨key, _, _, _, keyOf, hkey⟩ := store.exists_key hkind
  rw [(hkey left right hleft hright).1, (hkey right left hright hleft).1]
  exact Std.OrientedCmp.eq_swap

theorem order_trans (hother : other.kind = kind) (hfirst : store.order left right ≠ .gt)
    (hsecond : store.order right other ≠ .gt) :
    store.order left other = (store.order left right).then (store.order right other) := by
  obtain ⟨key, _, _, _, keyOf, hkey⟩ := store.exists_key hkind
  rw [(hkey left right hleft hright).1] at hfirst ⊢
  rw [(hkey right other hright hother).1] at hsecond ⊢
  rw [(hkey left other hleft hother).1]
  cases hcompare : compare (keyOf left) (keyOf right) with
  | eq => exact Std.TransCmp.congr_left hcompare
  | gt => exact absurd hcompare hfirst
  | lt =>
      cases hnext : compare (keyOf right) (keyOf other) with
      | eq => exact Std.TransCmp.lt_of_lt_of_eq hcompare hnext
      | lt => exact Std.TransCmp.lt_trans hcompare hnext
      | gt => exact absurd hnext hsecond

theorem order_eq_lt_iff : store.order left right = .lt ↔ store.Precedes left right := by
  cases kind with
  | boolean =>
      cases left <;> cases hleft
      cases right <;> cases hright
      next first second => cases first <;> cases second <;> simp [order, Precedes, compare]
  | number =>
      cases left <;> cases hleft
      cases right <;> cases hright
      exact Std.compare_eq_lt.trans Int64.lt_iff_toInt_lt
  | string =>
      cases left <;> cases hleft
      cases right <;> cases hright
      exact Bytes.compare_eq_lt_iff _ _
  | null | «variable» | expr => exact absurd hkind Bool.false_ne_true

end Laws

end Store

namespace Evaluator

/-! ### Comparing literals of one kind -/

theorem compare_of_usable {evaluator : Evaluator} {machine : Machine} {left right : Value}
    (hordered : left.kind.isOrdered = true) (hkind : right.kind = left.kind)
    (hleft : machine.store.Usable left) (hright : machine.store.Usable right) :
    evaluator.compare left right machine = .ok (machine.store.order left right) machine := by
  have hliteral := Value.isLiteral_of_isOrdered hordered
  obtain ⟨after, hlends⟩ := hleft.exists_lends hliteral
  refine (Run.bind_ok (run_of_isLiteral hliteral hlends.retain_eq)).trans ?_
  refine Run.deferring_ok ?_ (Run.release_of_lends hlends)
  cases left with
  | boolean flag =>
      cases right <;> cases hkind
      rfl
  | number word =>
      cases right <;> cases hkind
      rfl
  | string text =>
      cases right <;> cases hkind
      next other =>
        obtain ⟨last, hlast⟩ := (hlends.usable hright).exists_lends rfl
        refine (Run.bind_ok (Run.onStore_ok hlast.literalText_string)).trans ?_
        refine Run.deferring_ok ?_
          (@Run.release_of_lends { machine with store := after } _ _ hlast)
        rw [Store.order, ← hlends.bytes_eq text, ← hlends.bytes_eq other, ← hlast.bytes_eq text,
          ← hlast.bytes_eq other]
        rfl
  | null | «variable» cell | expr node => exact absurd hordered Bool.false_ne_true

/-- Comparing the live values of one kind always gives an order and changes nothing. It is a total
order, with the equality of values as its own. -/
structure Orders (evaluator : Evaluator) (kind : Kind) (machine : Machine) : Prop where
  compare_eq : ∀ {left right : Value}, machine.store.Has kind left → machine.store.Has kind right →
    ∃ order, evaluator.compare left right machine = .ok order machine ∧
      (order = .eq ↔ machine.store.equal left right = true) ∧
      (order = .lt ↔ machine.store.Precedes left right) ∧
      evaluator.compare right left machine = .ok order.swap machine
  trans : ∀ {left middle right : Value} {first second : Ordering}, machine.store.Has kind left →
    machine.store.Has kind middle → machine.store.Has kind right →
    evaluator.compare left middle machine = .ok first machine →
    evaluator.compare middle right machine = .ok second machine →
    first ≠ .gt → second ≠ .gt →
    evaluator.compare left right machine = .ok (first.then second) machine

theorem orders (evaluator : Evaluator) {kind : Kind} (hkind : kind.isOrdered = true)
    (machine : Machine) : evaluator.Orders kind machine := by
  have hcompare {left right : Value} (hleft : machine.store.Has kind left)
      (hright : machine.store.Has kind right) :
      evaluator.compare left right machine = .ok (machine.store.order left right) machine :=
    compare_of_usable (hleft.1 ▸ hkind) (hright.1.trans hleft.1.symm) hleft.2 hright.2
  constructor
  · intro left right hleft hright
    refine ⟨machine.store.order left right, hcompare hleft hright,
      Store.order_eq_iff hkind hleft.1 hright.1, Store.order_eq_lt_iff hkind hleft.1 hright.1, ?_⟩
    rw [← Store.order_swap hkind hleft.1 hright.1]
    exact hcompare hright hleft
  · intro left middle right first second hleft hmiddle hright hfirst hsecond hle hle'
    cases (hcompare hleft hmiddle).symm.trans hfirst
    cases (hcompare hmiddle hright).symm.trans hsecond
    rw [← Store.order_trans hkind hleft.1 hmiddle.1 hright.1 hle hle']
    exact hcompare hleft hright

/-! ### Comparing with a value of any kind -/

/-- Converts a value to one of the kinds that can be compared. -/
def convert [Custody] (evaluator : Evaluator) (value : Value) : Kind → Run Value
  | .boolean => return .boolean (← evaluator.toBoolean value)
  | .number => return .number (← evaluator.toNumber value)
  | .string => return .string (← evaluator.toText value)
  | .null | .variable | .expr => return value

theorem isLiteral_of_forceWithin [Custody] {evaluator : Evaluator} {steps : Nat}
    {value literal : Value} {machine after : Machine}
    (hforce : evaluator.forceWithin steps value machine = .ok literal after) :
    literal.isLiteral = true := by
  induction steps generalizing value machine with
  | zero =>
      unfold forceWithin at hforce
      split at hforce
      · next hliteral =>
          cases hforce
          exact hliteral
      · obtain ⟨⟨⟩, released, -, hdeep⟩ := bind_eq_ok hforce
        cases hdeep
  | succ steps ih =>
      unfold forceWithin at hforce
      split at hforce
      · next hliteral =>
          cases hforce
          exact hliteral
      · obtain ⟨next, middle, -, hrest⟩ := bind_eq_ok hforce
        exact ih hrest

theorem isLiteral_of_force [Custody] {evaluator : Evaluator} {value literal : Value}
    {machine after : Machine} (hforce : evaluator.force value machine = .ok literal after) :
    literal.isLiteral = true := by
  obtain ⟨⟨⟩, retained, -, hforce⟩ := bind_eq_ok hforce
  exact isLiteral_of_forceWithin hforce

/-- A literal can be converted to every kind. -/
theorem exists_convert (evaluator : Evaluator) {machine : Machine} {literal : Value} {kind : Kind}
    (hkind : kind.isOrdered = true) (hliteral : literal.isLiteral = true)
    (husable : machine.store.Usable literal) :
    ∃ converted after, evaluator.convert literal kind machine = .ok converted after ∧
      converted.kind = kind := by
  cases kind with
  | boolean => exact ⟨_, machine, Run.bind_ok (toBoolean_of_isLiteral hliteral), rfl⟩
  | number => exact ⟨_, machine, Run.bind_ok (toNumber_of_isLiteral hliteral), rfl⟩
  | string =>
      obtain ⟨after, hlends⟩ := husable.exists_lends hliteral
      obtain ⟨text, last, htext, -, -⟩ := husable.exists_literalText hliteral hlends
      have htoText : evaluator.toText literal machine = .ok text { machine with store := last } :=
        (congrFun (toText_of_isLiteral hliteral) machine).trans (Run.onStore_ok htext)
      exact ⟨_, _, Run.bind_ok htoText, rfl⟩
  | null | «variable» | expr => exact absurd hkind Bool.false_ne_true

section Idle

variable [custody : Custody] [custody.IsIdle] {evaluator : Evaluator}
  {machine after last : Machine} {left right literal converted : Value}

theorem withLiteral_of_isIdle {α : Type}
    (hforce : evaluator.force right machine = .ok literal after) (action : Value → Run α) :
    evaluator.withLiteral right action machine = evaluator.withLiteral literal action after := by
  rw [withLiteral_of_isLiteral (isLiteral_of_force hforce)]
  unfold withLiteral
  split
  · next hliteral =>
      unfold force forceWithin at hforce
      rw [Run.retain_of_isIdle, hliteral] at hforce
      cases hforce
      rfl
  · refine (Run.bind_ok hforce).trans ?_
    rw [Run.deferring_of_isIdle]

/-- Where no references are kept, a value compares as what it is converted to. -/
theorem compare_of_isIdle (hordered : left.kind.isOrdered = true)
    (hforce : evaluator.force right machine = .ok literal after)
    (hconvert : evaluator.convert literal left.kind after = .ok converted last) :
    evaluator.compare left right machine = .ok (last.store.order left converted) last := by
  have hretain : Custody.retain left machine.store = .ok ⟨⟩ machine.store := by
    rw [Custody.IsIdle.retain]
    rfl
  refine (Run.bind_ok (run_of_isLiteral (Value.isLiteral_of_isOrdered hordered) hretain)).trans ?_
  rw [Run.deferring_of_isIdle]
  cases left with
  | boolean flag =>
      obtain ⟨other, same, hboolean, hreturn⟩ := bind_eq_ok hconvert
      cases hreturn
      exact Run.bind_ok ((withLiteral_of_isIdle hforce _).trans hboolean)
  | number word =>
      obtain ⟨other, same, hnumber, hreturn⟩ := bind_eq_ok hconvert
      cases hreturn
      exact Run.bind_ok ((withLiteral_of_isIdle hforce _).trans hnumber)
  | string text =>
      obtain ⟨other, same, htext, hreturn⟩ := bind_eq_ok hconvert
      cases hreturn
      refine (Run.bind_ok ((withLiteral_of_isIdle hforce _).trans htext)).trans ?_
      rw [Run.deferring_of_isIdle]
      rfl
  | null | «variable» cell | expr node => exact absurd hordered Bool.false_ne_true

end Idle

end Evaluator

namespace Machine.InStep

variable {start counting lasting : Machine} {held : Multiset Value} {left right : Value}

theorem usable (instep : start.InStep held counting lasting)
    (hguards : counting.Guards held left) : counting.store.Usable left :=
  Store.usable_of_exists_live (instep.live_of_guards hguards)

theorem order_eq (instep : start.InStep held counting lasting)
    (hleft : counting.Guards held left) (hright : counting.Guards held right) :
    lasting.store.order left right = counting.store.order left right := by
  cases left with
  | string first =>
      cases right with
      | string second => simp only [Store.order, instep.bytes_eq hleft, instep.bytes_eq hright]
      | null | boolean flag | number word | «variable» cell | expr node => rfl
  | null | boolean flag | number word | «variable» cell | expr node => cases right <;> rfl

end Machine.InStep

namespace Run.Lockstep

open Machine

variable {start counting lasting : Machine} {held : Multiset Value}

theorem convert {first second : Evaluator} (twins : first.Twins second) {value : Value}
    (instep : start.InStep held counting lasting) (hguards : counting.Guards held value)
    {kind : Kind} (hkind : kind.isOrdered = true) :
    Lockstep start held (fun result => {result})
      (@Evaluator.convert .counting first value kind counting)
      (@Evaluator.convert .lasting second value kind lasting) := by
  cases kind with
  | boolean =>
      refine (toBoolean twins instep hguards).bind fun flag counting lasting instep => ?_
      rw [zero_add] at instep
      exact .ok (instep.plain rfl (by simp))
  | number =>
      refine (toNumber twins instep hguards).bind fun word counting lasting instep => ?_
      rw [zero_add] at instep
      exact .ok (instep.plain rfl (by simp))
  | string => exact (toText twins instep hguards).map fun _ => rfl
  | null | «variable» | expr => exact absurd hkind Bool.false_ne_true

end Run.Lockstep

namespace Machine

variable {machine middle : Machine} {owned : Multiset Value} {left right literal : Value}

/-- Comparing with a value that can be evaluated to a literal is comparing with what the literal
converts to. -/
theorem InStep.compare_converted (instep : machine.InStep owned machine machine)
    (hordered : left.kind.isOrdered = true) (hleft : machine.Guards owned left)
    (hright : machine.Guards owned right) (fuel : Nat)
    (hforce : (Evaluator.within fuel machine).force right machine = .ok literal middle) :
    ∃ order after, (Evaluator.within fuel machine).compare left right machine = .ok order after ∧
      ∃ converted last,
        (Evaluator.within fuel machine).convert literal left.kind middle = .ok converted last ∧
        converted.kind = left.kind ∧
        ∀ other : Evaluator, other.compare left converted last = .ok order last := by
  have twins := Evaluator.twins_within fuel instep
  have hforced := Run.Lockstep.force twins instep hright
  rw [hforce] at hforced
  obtain ⟨kept, hkept, hmiddle⟩ := hforced.of_ok
  rw [Multiset.singleton_add] at hmiddle
  have hliteral := guards_cons_self middle owned literal
  obtain ⟨converted, last, hconvert, hkind⟩ :=
    (Evaluator.within fuel machine).exists_convert hordered
      (Evaluator.isLiteral_of_force hforce) (hmiddle.usable hliteral)
  have hconverted := Run.Lockstep.convert twins hmiddle hliteral hordered
  rw [hconvert] at hconverted
  obtain ⟨kept', hkept', hlast⟩ := hconverted.of_ok
  rw [Multiset.singleton_add] at hlast
  have hcompare := Run.Lockstep.compare twins instep hleft hright
  rw [@Evaluator.compare_of_isIdle .lasting _ _ _ _ _ _ _ _ _ hordered hkept hkept'] at hcompare
  obtain ⟨after, hafter, -⟩ := hcompare.of_kept_ok
  have hleft' := hlast.guards hleft
    (Multiset.Subset.trans (Multiset.subset_cons owned literal) (Multiset.subset_cons _ converted))
  have hconverted' := guards_cons_self last (literal ::ₘ owned) converted
  refine ⟨_, after, hafter, converted, last, hconvert, hkind, fun other => ?_⟩
  rw [hlast.order_eq hleft' hconverted']
  exact Evaluator.compare_of_usable hordered hkind (hlast.usable hleft') (hlast.usable hconverted')

/-- Equality of values is an equivalence that compares strings by their contents. On the literals of
a kind that can be compared, comparing is total, changes nothing and is a total order with this
equality; strings are in the lexicographic order of their bytes. A value that can be evaluated to a
literal compares as what this literal converts to. -/
theorem equal_and_compare_coherent (machine : Machine) (fuel : Nat) :
    (Equivalence fun left right => machine.store.equal left right = true) ∧
    (∀ first second, machine.store.equal (.string first) (.string second) = true ↔
      machine.store.bytes first = machine.store.bytes second) ∧
    (∀ kind, kind.isOrdered = true → (Evaluator.within fuel machine).Orders kind machine) ∧
    ∀ owned left right literal middle, machine.Counted owned → machine.WellFormed owned →
      left.kind.isOrdered = true → machine.Guards owned left → machine.Guards owned right →
      (Evaluator.within fuel machine).force right machine = .ok literal middle →
      ∃ order after, (Evaluator.within fuel machine).compare left right machine = .ok order after ∧
        ∃ converted last,
          (Evaluator.within fuel machine).convert literal left.kind middle = .ok converted last ∧
          converted.kind = left.kind ∧
          ∀ other : Evaluator, other.compare left converted last = .ok order last := by
  refine ⟨machine.store.equivalence_equal, machine.store.equal_string_iff, ?_, ?_⟩
  · exact fun kind hkind => (Evaluator.within fuel machine).orders hkind machine
  · intro owned left right literal middle hcounted hformed hordered hleft hright hforce
    have instep := inStep_self (balanced_iff.mpr ⟨hcounted, hformed⟩)
    exact instep.compare_converted hordered hleft hright fuel hforce

/-- Gives an expression that joins a number to a string. -/
def joining : Operation := .evaluate { unread := "B + 'abc' 4" } "EVAL"

theorem perform_joining :
    (match joining.perform 0 {} with
    | .error _ _ => false
    | .ok answer machine =>
      decide (answer = .value (.expr 0) ∧
        machine.store.args 0 = [.string (.owned 0), .number 4]) &&
      (match (Evaluator.within 0 machine).force (.expr 0) machine with
      | .error _ _ => false
      | .ok literal _ => decide (literal = .string (.owned 2))) &&
      (match (Evaluator.within 0 machine).compare (.string (.owned 0)) (.expr 0) machine with
      | .error _ _ => false
      | .ok order _ => decide (order = .lt))) = true := by
  decide +kernel

/-- The string is smaller than what it is joined to, of which it is a part. -/
theorem equal_and_compare_coherent_joining :
    ∃ machine, machine.Counted {.expr 0} ∧ machine.WellFormed {.expr 0} ∧
      machine.Guards {.expr 0} (.string (.owned 0)) ∧ machine.Guards {.expr 0} (.expr 0) ∧
      (Evaluator.within 0 machine).Orders .string machine ∧
      ∃ middle after converted last,
        (Evaluator.within 0 machine).force (.expr 0) machine = .ok (.string (.owned 2)) middle ∧
        (Evaluator.within 0 machine).compare (.string (.owned 0)) (.expr 0) machine =
          .ok .lt after ∧
        (Evaluator.within 0 machine).convert (.string (.owned 2)) .string middle =
          .ok converted last ∧
        ∀ other : Evaluator, other.compare (.string (.owned 0)) converted last = .ok .lt last := by
  have hjoining := perform_joining
  split at hjoining
  · cases hjoining
  · next answer machine hperform =>
      simp only [Bool.and_eq_true, decide_eq_true_eq] at hjoining
      obtain ⟨⟨⟨rfl, hargs⟩, hforce⟩, hcompare⟩ := hjoining
      have hreachable : Reachable machine {.expr 0} :=
        .answered joining 0 (.start rfl rfl) trivial hperform
      have hcounted := hreachable.inStep.counted
      have hformed := hreachable.wellFormed
      have hright : machine.Guards {.expr 0} (.expr 0) := .held (Multiset.mem_singleton_self _)
      have hleft : machine.Guards {.expr 0} (.string (.owned 0)) :=
        (hreachable.inStep.args_eq hright).2 _ (by simp [hargs])
      obtain ⟨-, -, horders, hconverted⟩ := equal_and_compare_coherent machine 0
      split at hforce
      · cases hforce
      · next literal middle hmiddle =>
          obtain rfl := of_decide_eq_true hforce
          obtain ⟨order, after, hafter, converted, last, hconvert, -, hlast⟩ :=
            hconverted _ _ _ _ _ hcounted hformed rfl hleft hright hmiddle
          rw [hafter] at hcompare
          obtain rfl := of_decide_eq_true hcompare
          exact ⟨machine, hcounted, hformed, hleft, hright, horders .string rfl, middle, after,
            converted, last, hmiddle, hafter, hconvert, hlast⟩

end Machine

end KnightLang
