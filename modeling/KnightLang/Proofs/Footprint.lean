import KnightLang.Proofs.Leaks
import Mathlib.Algebra.BigOperators.Group.Finset.Piecewise
import Mathlib.Data.Finset.Lattice.Fold
import Mathlib.Order.Lattice.Nat

/-!
The footprint of a machine is exact: the survey meets what can be reached from the variables, all of
it and nothing else, and counts each payload once however many ways lead to it. What was met by
earlier surveys has no influence.
-/

namespace KnightLang

namespace Store

variable {store : Store} {roots met pending : List Value} {value : Value}

theorem owns_iff_mem_slots {owner : Value} :
    store.Owns owner value ↔ value ∈ store.slots owner := by
  constructor
  · rintro ⟨index, rfl, hmem⟩
    exact hmem
  · intro hmem
    cases owner with
    | expr index => exact ⟨index, rfl, hmem⟩
    | null | boolean flag | number word | string text | «variable» cell => cases hmem

/-- Only applications refer to anything. -/
theorem isPlain_of_owns {owner : Value} (howns : store.Owns owner value) :
    owner.isPlain = false := by
  obtain ⟨index, rfl, -⟩ := howns
  rfl

/-- Whether a value is one of the roots or can be reached from one of them. -/
def Reached (store : Store) (roots : List Value) (value : Value) : Prop :=
  ∃ root ∈ roots, Relation.ReflTransGen store.Owns root value

/-- Where a survey stands that started at some roots: it has met payloads that can be reached, each
of them once, and whatever it has still to come to is pending. -/
structure Walked (store : Store) (roots met pending : List Value) : Prop where
  nodup : met.Nodup
  payload : ∀ value ∈ met, value.isPlain = false
  reached : ∀ value, value ∈ met ∨ value ∈ pending → store.Reached roots value
  roots : ∀ root ∈ roots, root.isPlain = false → root ∈ met ∨ root ∈ pending
  slots : ∀ owner ∈ met, ∀ value ∈ store.slots owner, value.isPlain = false →
    value ∈ met ∨ value ∈ pending

namespace Walked

theorem start (store : Store) (roots : List Value) : store.Walked roots [] roots where
  nodup := .nil
  payload _ hmem := nomatch hmem
  reached value hmem := ⟨value, hmem.resolve_left List.not_mem_nil, .refl⟩
  roots _ hmem _ := Or.inr hmem
  slots _ hmem := nomatch hmem

/-- A value that has no payload, or whose payload was met before, is passed over. -/
theorem pass (hwalked : store.Walked roots met (value :: pending))
    (hknown : value.isPlain = false → value ∈ met) : store.Walked roots met pending := by
  have hkeep {other : Value} (hpayload : other.isPlain = false)
      (hmem : other ∈ met ∨ other ∈ value :: pending) : other ∈ met ∨ other ∈ pending := by
    rcases hmem with hmet | hpending
    · exact Or.inl hmet
    · rcases List.mem_cons.mp hpending with rfl | hrest
      · exact Or.inl (hknown hpayload)
      · exact Or.inr hrest
  refine ⟨hwalked.nodup, hwalked.payload, fun other hmem => ?_, fun root hroot hpayload => ?_,
    fun owner howner other hother hpayload => ?_⟩
  · exact hwalked.reached other (hmem.imp_right (List.mem_cons_of_mem value))
  · exact hkeep hpayload (hwalked.roots root hroot hpayload)
  · exact hkeep hpayload (hwalked.slots owner howner other hother hpayload)

/-- A payload that is new has been met, and what it refers to becomes pending. -/
theorem extend (hwalked : store.Walked roots met (value :: pending))
    (hpayload : value.isPlain = false) (hnew : value ∉ met) :
    store.Walked roots (value :: met) ((store.slots value).reverse ++ pending) := by
  obtain ⟨root, hroot, hpath⟩ := hwalked.reached value (Or.inr List.mem_cons_self)
  have hkeep {other : Value} (hmem : other ∈ met ∨ other ∈ value :: pending) :
      other ∈ value :: met ∨ other ∈ (store.slots value).reverse ++ pending := by
    simp only [List.mem_cons, List.mem_append] at hmem ⊢
    tauto
  refine ⟨List.nodup_cons.mpr ⟨hnew, hwalked.nodup⟩,
    List.forall_mem_cons.mpr ⟨hpayload, hwalked.payload⟩, fun other hmem => ?_,
    fun root hroot hpayload => hkeep (hwalked.roots root hroot hpayload),
    fun owner howner other hother hpayload => ?_⟩
  · rw [List.mem_cons, List.mem_append, List.mem_reverse] at hmem
    rcases hmem with (rfl | hmet) | hslot | hpending
    · exact ⟨root, hroot, hpath⟩
    · exact hwalked.reached other (Or.inl hmet)
    · exact ⟨root, hroot, hpath.tail (owns_iff_mem_slots.mpr hslot)⟩
    · exact hwalked.reached other (Or.inr (List.mem_cons_of_mem value hpending))
  · rcases List.mem_cons.mp howner with rfl | hmet
    · exact Or.inr (List.mem_append_left _ (List.mem_reverse.mpr hother))
    · exact hkeep (hwalked.slots owner hmet other hother hpayload)

/-- At its end a survey has met every payload that can be reached. -/
theorem mem_iff (hwalked : store.Walked roots met []) :
    value ∈ met ↔ value.isPlain = false ∧ store.Reached roots value := by
  constructor
  · intro hmem
    exact ⟨hwalked.payload value hmem, hwalked.reached value (Or.inl hmem)⟩
  · rintro ⟨hpayload, root, hroot, hpath⟩
    induction hpath with
    | refl => exact (hwalked.roots root hroot hpayload).resolve_right List.not_mem_nil
    | tail _ howns ih =>
        have hmem := hwalked.slots _ (ih (isPlain_of_owns howns)) _
          (owns_iff_mem_slots.mp howns) hpayload
        exact hmem.resolve_right List.not_mem_nil

end Walked

section Survey

variable [Addressing] {visited : AddressSet} {found : Footprint}

/-- The payloads that can be reached have addresses of their own. -/
def Distinct (store : Store) (roots : List Value) : Prop :=
  ∀ first second, first.isPlain = false → second.isPlain = false → store.Reached roots first →
    store.Reached roots second → Addressing.address first = Addressing.address second →
    first = second

/-- Of the payloads that can be reached, a set has the addresses of those that were met. -/
def Marks (store : Store) (roots met : List Value) (visited : AddressSet) : Prop :=
  ∀ value, value.isPlain = false → store.Reached roots value →
    (Addressing.isNew visited (Addressing.address value) = true ↔ value ∉ met)

/-- Whatever a set had in it before, it marks nothing once it is reset. -/
theorem marks_reset (store : Store) (roots : List Value) (visited : AddressSet) :
    store.Marks roots [] visited.reset := by
  intro value _ _
  simp [Addressing.isNew_reset]

/-- Adding the address of a payload marks this payload, as no other one has its address. -/
theorem Marks.add (hmarks : store.Marks roots met visited) (hdistinct : store.Distinct roots)
    (hpayload : value.isPlain = false) (hreached : store.Reached roots value) :
    store.Marks roots (value :: met) (visited.add (Addressing.address value)) := by
  intro other hother hreached'
  have haddress : Addressing.address other = Addressing.address value ↔ other = value :=
    ⟨hdistinct other value hother hpayload hreached' hreached, congrArg Addressing.address⟩
  rw [Addressing.isNew_add, Bool.and_eq_true, bne_iff_ne, ne_eq, haddress,
    hmarks other hother hreached', List.mem_cons, not_or]

theorem Marks.add_met (hmarks : store.Marks roots met visited) (hdistinct : store.Distinct roots)
    (hpayload : value.isPlain = false) (hreached : store.Reached roots value)
    (hmet : value ∈ met) :
    store.Marks roots met (visited.add (Addressing.address value)) := by
  intro other hother hreached'
  rw [hmarks.add hdistinct hpayload hreached other hother hreached', List.mem_cons, not_or]
  exact and_iff_right_of_imp fun hnotMet heq => hnotMet (heq ▸ hmet)

/-- A survey goes on until nothing is pending, and counts what it meets on the way. -/
theorem Walked.survey (hwalked : store.Walked roots met pending)
    (hmarks : store.Marks roots met visited) (hdistinct : store.Distinct roots) (base : Footprint)
    (hfound : found = met.foldr (fun value found => found.count store value) base) :
    ∃ last, store.Walked roots last [] ∧
      (store.survey visited found pending).1 =
        last.foldr (fun value found => found.count store value) base := by
  fun_induction Store.survey store visited found pending generalizing met with
  | case1 visited found => exact ⟨met, hwalked, hfound⟩
  | case2 visited found value rest hplain ih =>
      have hpass : value.isPlain = false → value ∈ met := by simp [hplain]
      exact ih (hwalked.pass hpass) hmarks hfound
  | case3 visited found value rest hplain hnew ih =>
      have hpayload : value.isPlain = false := Bool.eq_false_of_not_eq_true hplain
      have hreached := hwalked.reached value (Or.inr List.mem_cons_self)
      have hnotMet := (hmarks value hpayload hreached).mp hnew
      refine ih (hwalked.extend hpayload hnotMet) (hmarks.add hdistinct hpayload hreached) ?_
      rw [hfound, List.foldr_cons]
  | case4 visited found value rest hplain hold ih =>
      have hpayload : value.isPlain = false := Bool.eq_false_of_not_eq_true hplain
      have hreached := hwalked.reached value (Or.inr List.mem_cons_self)
      have hmet : value ∈ met := not_not.mp (mt (hmarks value hpayload hreached).mpr hold)
      exact ih (hwalked.pass fun _ => hmet) (hmarks.add_met hdistinct hpayload hreached hmet) hfound

end Survey

/-- The length of a string. -/
def textLength (store : Store) : Value → Nat
  | .string text => (store.bytes text).length
  | _ => 0

/-- Counting payloads one by one gives their number, the sum of their lengths and the greatest
number of references. -/
theorem foldr_count (store : Store) (cells assigned : Nat) {payloads : List Value}
    (hnodup : payloads.Nodup) :
    payloads.foldr (fun value (found : Footprint) => found.count store value)
        { cells, assigned } =
      { cells, assigned
        strings := (payloads.toFinset.filter fun value => value.kind = .string).card
        bytes := ∑ value ∈ payloads.toFinset, store.textLength value
        exprs := (payloads.toFinset.filter fun value => value.kind = .expr).card
        maxRefs := payloads.toFinset.sup fun value => (store.refs? value).getD 0 } := by
  induction payloads with
  | nil => rfl
  | cons value rest ih =>
      obtain ⟨hnew, hrest⟩ := List.nodup_cons.mp hnodup
      have hnew : value ∉ rest.toFinset := by simpa using hnew
      rw [List.foldr_cons, ih hrest, List.toFinset_cons, Finset.sum_insert hnew, Finset.sup_insert]
      simp only [Finset.card_filter, Finset.sum_insert hnew]
      cases value with
      | string text => simp [Footprint.count, Value.kind, textLength, refs?, add_comm, max_comm]
      | expr index => simp [Footprint.count, Value.kind, textLength, refs?, add_comm, max_comm]
      | null | boolean flag | number word | «variable» cell =>
          simp [Footprint.count, Value.kind, textLength, refs?]

end Store

namespace Machine

variable {machine : Machine} {owned : Multiset Value} {value : Value}

/-- A value that can be reached from a variable in the table through arguments of applications. -/
def InUse (machine : Machine) (value : Value) : Prop :=
  ∃ cell ∈ machine.environment.cells, cell.listed = true ∧ ∃ held, cell.value = some held ∧
    Relation.ReflTransGen machine.store.Owns held value

/-- Whatever has an owner is live. -/
theorem Counted.live_of_owned (hcounted : machine.Counted owned) (hplain : value.isPlain = false)
    (howner : 0 < machine.owners owned value) : (machine.store.live? value).isSome = true := by
  rw [Store.live?_isSome_iff]
  induction value using Value.payloadCases with
  | plain value hvalue => exact absurd (hvalue.symm.trans hplain) Bool.noConfusion
  | text index =>
      exact ⟨_, Store.refs?_owned index, hcounted _ _ (Store.refs?_owned index) ▸ howner⟩
  | application index =>
      exact ⟨_, Store.refs?_expr index, hcounted _ _ (Store.refs?_expr index) ▸ howner⟩

/-- What is in use is live, since variables and live applications own what they hold. -/
theorem Counted.live_of_inUse (hcounted : machine.Counted owned) (huse : machine.InUse value)
    (hplain : value.isPlain = false) : (machine.store.live? value).isSome = true := by
  obtain ⟨cell, hcell, -, held, hheld, hpath⟩ := huse
  induction hpath with
  | refl =>
      obtain ⟨index, hindex⟩ := Array.mem_iff_getElem?.mp hcell
      have hvalue : machine.environment.value? index = some held := by
        rw [Environment.value?, hindex, Option.bind_some, hheld]
      have hcount := Multiset.count_pos.mpr (Environment.mem_holds_of_value? hvalue)
      refine hcounted.live_of_owned hplain ?_
      unfold owners
      omega
  | tail _ howns ih =>
      obtain ⟨index, rfl, hmem⟩ := howns
      obtain ⟨payload, hlive⟩ := Option.isSome_iff_exists.mp (ih rfl)
      obtain ⟨function, args, rfl⟩ := Store.application_of_live? hlive
      rw [Store.args_of_live? hlive] at hmem
      have hcount := Multiset.count_pos.mpr (Store.mem_holds_of_live? hlive hmem)
      refine hcounted.live_of_owned hplain ?_
      unfold owners
      omega

/-- The values that a survey starts with, in the order in which it takes them. -/
def roots (machine : Machine) : List Value :=
  (machine.environment.sorted.filterMap Cell.value).reverse

theorem inUse_iff : machine.InUse value ↔ machine.store.Reached machine.roots value := by
  simp only [InUse, Store.Reached, roots, Environment.sorted, List.mem_reverse, List.mem_filterMap,
    List.mem_mergeSort, List.mem_filter, Array.mem_toList_iff]
  constructor
  · rintro ⟨cell, hcell, hlisted, held, hheld, hpath⟩
    exact ⟨held, ⟨cell, ⟨hcell, hlisted⟩, hheld⟩, hpath⟩
  · rintro ⟨held, ⟨cell, ⟨hcell, hlisted⟩, hheld⟩, hpath⟩
    exact ⟨cell, hcell, hlisted, held, hheld, hpath⟩

theorem length_sorted (environment : Environment) :
    environment.sorted.length = environment.cells.countP Cell.listed := by
  rw [Environment.sorted, List.length_mergeSort, ← List.countP_eq_length_filter,
    Array.countP_toList]

theorem length_values_sorted (environment : Environment) :
    (environment.sorted.filterMap Cell.value).length =
      environment.cells.countP fun cell => cell.value.isSome && cell.listed := by
  have hperm := (List.mergeSort_perm (environment.cells.toList.filter Cell.listed)
    fun first second => (compare first.name second.name).isLE).filterMap Cell.value
  calc (environment.sorted.filterMap Cell.value).length
      = ((environment.cells.toList.filter Cell.listed).filterMap Cell.value).length :=
        hperm.length_eq
    _ = (environment.cells.toList.filter Cell.listed).countP fun cell => cell.value.isSome :=
        List.length_filterMap_eq_countP
    _ = environment.cells.countP fun cell => cell.value.isSome && cell.listed := by
        rw [List.countP_filter, Array.countP_toList]

/-- The summary of a machine whose variables in the table lead to the given payloads. -/
def summary (machine : Machine) (payloads : Finset Value) : Footprint where
  cells := machine.environment.cells.countP Cell.listed
  assigned := machine.environment.cells.countP fun cell => cell.value.isSome && cell.listed
  strings := (payloads.filter fun value => value.kind = .string).card
  bytes := ∑ value ∈ payloads, machine.store.textLength value
  exprs := (payloads.filter fun value => value.kind = .expr).card
  maxRefs := payloads.sup fun value => (machine.store.refs? value).getD 0

/-- Live payloads have addresses of their own. -/
def KeptApart [Addressing] (machine : Machine) : Prop :=
  ∀ first second, (machine.store.live? first).isSome = true →
    (machine.store.live? second).isSome = true →
    Addressing.address first = Addressing.address second → first = second

/-- Whatever earlier surveys have met, a survey counts what it meets and meets all it can reach. -/
theorem exists_met [Addressing] (hdistinct : machine.store.Distinct machine.roots)
    (earlier : AddressSet) :
    ∃ met, machine.store.Walked machine.roots met [] ∧
      { machine with visited := earlier }.footprint.1 = machine.summary met.toFinset := by
  obtain ⟨met, hwalked, hfound⟩ := (Store.Walked.start machine.store machine.roots).survey
    (machine.store.marks_reset _ earlier) hdistinct
    { cells := machine.environment.sorted.length
      assigned := (machine.environment.sorted.filterMap Cell.value).length } rfl
  refine ⟨met, hwalked, hfound.trans ?_⟩
  rw [Store.foldr_count _ _ _ hwalked.nodup, length_sorted, length_values_sorted, summary]

/-- Where every payload has as many references as owners, the footprint is the summary of what the
variables in the table lead to, and all of that is live. It is the same summary whatever earlier
surveys have met, and nothing changes in the machine but the set of what was met. -/
theorem footprint_exact [Addressing] (hcounted : machine.Counted owned)
    (hapart : machine.KeptApart) :
    ∃ payloads : Finset Value,
      (∀ value, value ∈ payloads ↔ value.isPlain = false ∧ machine.InUse value) ∧
      (∀ value ∈ payloads, (machine.store.live? value).isSome = true) ∧
      ∀ earlier : AddressSet, ∃ later : AddressSet,
        { machine with visited := earlier }.footprint =
          (machine.summary payloads, { machine with visited := later }) ∧
        ∀ session : Session, session.machine = { machine with visited := earlier } →
          Session.perform .footprint session = .ok (.footprint (machine.summary payloads))
            { session with machine := { machine with visited := later } } := by
  have hdistinct : machine.store.Distinct machine.roots :=
    fun first second hfirst hsecond hreached hreached' =>
      hapart first second (hcounted.live_of_inUse (inUse_iff.mpr hreached) hfirst)
        (hcounted.live_of_inUse (inUse_iff.mpr hreached') hsecond)
  obtain ⟨met, hwalked, -⟩ := exists_met hdistinct machine.visited
  have hpayloads (value : Value) :
      value ∈ met.toFinset ↔ value.isPlain = false ∧ machine.InUse value := by
    rw [List.mem_toFinset, hwalked.mem_iff, ← inUse_iff]
  refine ⟨met.toFinset, hpayloads, fun value hmem => ?_, fun earlier => ?_⟩
  · obtain ⟨hplain, huse⟩ := (hpayloads value).mp hmem
    exact hcounted.live_of_inUse huse hplain
  · obtain ⟨other, hother, hfound⟩ := exists_met hdistinct earlier
    have hsame : other.toFinset = met.toFinset := by
      ext value
      rw [hpayloads, List.mem_toFinset, hother.mem_iff, ← inUse_iff]
    rw [hsame] at hfound
    have hfootprint : { machine with visited := earlier }.footprint =
        (machine.summary met.toFinset,
          { machine with visited := { machine with visited := earlier }.footprint.2.visited }) :=
      Prod.ext hfound rfl
    refine ⟨_, hfootprint, ?_⟩
    rintro ⟨start, registers, opened, fuel⟩ rfl
    rw [← hfound]
    rfl

/-- Payloads at sequential addresses are kept apart. -/
theorem keptApart (machine : Machine) : machine.KeptApart := by
  intro first second hfirst hsecond haddress
  have hfirst := Store.isPlain_of_live? hfirst
  have hsecond := Store.isPlain_of_live? hsecond
  induction first using Value.payloadCases with
  | plain first hplain => exact absurd (hplain.symm.trans hfirst) Bool.noConfusion
  | text index =>
      induction second using Value.payloadCases with
      | plain second hplain => exact absurd (hplain.symm.trans hsecond) Bool.noConfusion
      | text other =>
          have haddress : 2 * index = 2 * other := haddress
          obtain rfl : index = other := by omega
          rfl
      | application other =>
          have haddress : 2 * index = 2 * other + 1 := haddress
          omega
  | application index =>
      induction second using Value.payloadCases with
      | plain second hplain => exact absurd (hplain.symm.trans hsecond) Bool.noConfusion
      | text other =>
          have haddress : 2 * index + 1 = 2 * other := haddress
          omega
      | application other =>
          have haddress : 2 * index + 1 = 2 * other + 1 := haddress
          obtain rfl : index = other := by omega
          rfl

/-- A machine with two variables for one sum, whose operands are one string, and a variable without
a value. The host owns the string as well, and an earlier survey has met both. -/
def sharedSum : Machine :=
  { store :=
      { texts := #[{ bytes := "xy", refs := 3 }]
        nodes := #[{ function := Builtin.function 43 "+" 2 .add
                     args := [.string (.owned 0), .string (.owned 0)], refs := 2 }] }
    environment :=
      { cells := #[{ name := "f", value := some (.expr 0) }, { name := "g", value := none },
                   { name := "h", value := some (.expr 0) }] }
    visited := .add (.add .unused 0) 1 }

theorem counted_sharedSum : sharedSum.Counted {.string (.owned 0)} := by
  intro value refs hrefs
  have hcells : sharedSum.environment.holds = {.expr 0, .expr 0} := rfl
  have hargs : sharedSum.store.holds = {.string (.owned 0), .string (.owned 0)} := rfl
  unfold owners
  rw [hcells, hargs]
  induction value using Value.payloadCases with
  | plain value hplain => simp [hplain] at hrefs
  | text index =>
      rw [Store.refs?_owned] at hrefs
      cases index with
      | zero => simpa [sharedSum, Store.text?, eq_comm] using hrefs
      | succ index => simpa [sharedSum, Store.text?, eq_comm] using hrefs
  | application index =>
      rw [Store.refs?_expr] at hrefs
      cases index with
      | zero => simpa [sharedSum, Store.node?, eq_comm] using hrefs
      | succ index => simpa [sharedSum, Store.node?, eq_comm] using hrefs

theorem inUse_sharedSum : sharedSum.InUse value ↔ value = .expr 0 ∨ value = .string (.owned 0) := by
  have hslots : sharedSum.store.slots (.expr 0) = [.string (.owned 0), .string (.owned 0)] := rfl
  have hvalues : ∀ cell ∈ sharedSum.environment.cells, ∀ held, cell.value = some held →
      held = .expr 0 := by
    simp [sharedSum]
  constructor
  · rintro ⟨cell, hcell, -, held, hheld, hpath⟩
    induction hpath with
    | refl => exact Or.inl (hvalues cell hcell held hheld)
    | tail _ howns ih =>
        rw [Store.owns_iff_mem_slots] at howns
        rcases ih with rfl | rfl
        · rw [hslots] at howns
          exact Or.inr (by simpa using howns)
        · cases howns
  · have hcell : { name := "f", value := some (.expr 0) } ∈ sharedSum.environment.cells := by
      simp [sharedSum]
    have howns : sharedSum.store.Owns (.expr 0) (.string (.owned 0)) := by
      rw [Store.owns_iff_mem_slots, hslots]
      exact List.mem_cons_self
    rintro (rfl | rfl)
    · exact ⟨_, hcell, rfl, _, rfl, .refl⟩
    · exact ⟨_, hcell, rfl, _, rfl, .single howns⟩

/-- However many ways lead to the sum and to the string, each of them is counted once, though both
were met before. -/
theorem footprint_exact_sharedSum :
    sharedSum.Counted {.string (.owned 0)} ∧ sharedSum.KeptApart ∧ sharedSum.footprint.1 =
      { cells := 3, assigned := 2, strings := 1, bytes := 2, exprs := 1, maxRefs := 3 } := by
  obtain ⟨payloads, hmem, -, hsurvey⟩ := footprint_exact counted_sharedSum sharedSum.keptApart
  obtain ⟨later, hfootprint, -⟩ := hsurvey sharedSum.visited
  have hpayloads : payloads = {.expr 0, .string (.owned 0)} := by
    ext value
    rw [hmem, inUse_sharedSum, Finset.mem_insert, Finset.mem_singleton]
    refine ⟨fun huse => huse.2, ?_⟩
    rintro (rfl | rfl)
    · exact ⟨rfl, Or.inl rfl⟩
    · exact ⟨rfl, Or.inr rfl⟩
  refine ⟨counted_sharedSum, sharedSum.keptApart, ?_⟩
  calc sharedSum.footprint.1
      = sharedSum.summary payloads := congrArg Prod.fst hfootprint
    _ = _ := by
      rw [hpayloads]
      decide

end Machine

end KnightLang
