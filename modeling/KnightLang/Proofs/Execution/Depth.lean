import KnightLang.Proofs.Execution.Applications
import KnightLang.Proofs.Logic.Hosting
import Mathlib.Data.List.Chain

/-!
How deep applications nest. Each is entered one level below the application or the host that asks
for it and left before that goes on, so that depths never rise by more than one from an application
to the next; and if they are traced, there is one record of each.
-/

namespace KnightLang

/-- Depths of applications in the order in which they are entered from a base, below a limit. -/
structure Climbs (base : Nat) (limit : Int) (depths : List Nat) : Prop where
  first : ∀ depth ∈ depths.head?, depth = base + 1
  within : ∀ depth ∈ depths, base < depth ∧ (depth : Int) ≤ limit
  steps : depths.IsChain fun earlier later => later ≤ earlier + 1

namespace Climbs

variable {base : Nat} {limit : Int} {first second : List Nat}

theorem nil (base : Nat) (limit : Int) : Climbs base limit [] where
  first depth hmem := by simp at hmem
  within := List.forall_mem_nil _
  steps := .nil

theorem append (hfirst : Climbs base limit first) (hsecond : Climbs base limit second) :
    Climbs base limit (first ++ second) where
  first := by
    cases first with
    | nil => exact hsecond.first
    | cons depth rest => exact hfirst.first
  within depth hmem := by
    rcases List.mem_append.mp hmem with hmem | hmem
    · exact hfirst.within depth hmem
    · exact hsecond.within depth hmem
  steps := by
    rw [List.isChain_append]
    refine ⟨hfirst.steps, hsecond.steps, ?_⟩
    intro earlier hearlier later hlater
    -- The last depth of the first part is above the base, and the next one is right above it.
    have habove := (hfirst.within earlier (List.mem_of_getLast? hearlier)).1
    have hnext := hsecond.first later hlater
    omega

/-- What is inside an application climbs from its depth. -/
theorem cons (hlimit : (base : Int) < limit) (hinner : Climbs (base + 1) limit first) :
    Climbs base limit ((base + 1) :: first) where
  first depth hmem := by simpa using hmem.symm
  within depth hmem := by
    rcases List.mem_cons.mp hmem with rfl | hmem
    · omega
    · have hbounds := hinner.within depth hmem
      omega
  steps := by
    rw [List.isChain_cons]
    refine ⟨?_, hinner.steps⟩
    intro later hlater
    exact le_of_eq (hinner.first later hlater)

end Climbs

def Entry.depth (entry : Entry) : Nat := entry.inside.depth

/-- The record that a traced application leaves. -/
def Entry.record (entry : Entry) : LogRecord := entry.function.record entry.depth

theorem Machine.traced_enter (machine : Machine) (function : Function) :
    (machine.enter function).world.traced =
      if machine.trace then function.record (machine.depth + 1) :: machine.world.traced
      else machine.world.traced := by
  cases htrace : machine.trace with
  | true =>
      rw [enter_of_trace htrace]
      exact machine.world.traced_log rfl
  | false =>
      rw [enter_of_not_trace htrace]
      rfl

/-- The applications that were entered from a machine nest below its limit, and if it traces them,
each of them has left one record in the world. -/
structure Machine.Nests (machine : Machine) (entries : List Entry) (world : World) : Prop where
  climbs : Climbs machine.depth machine.maxDepth (entries.map Entry.depth)
  records : world.traced =
    if machine.trace then (entries.map Entry.record).reverse ++ machine.world.traced
    else machine.world.traced

namespace Machine.Nests

variable {machine middle : Machine} {entries more : List Entry} {world after : World}

theorem still (htraced : world.traced = machine.world.traced) : machine.Nests [] world where
  climbs := .nil _ _
  records := by
    rw [htraced]
    split <;> rfl

theorem settle (hnests : machine.Nests entries world) (hquiet : world.Quiet after) :
    machine.Nests entries after where
  climbs := hnests.climbs
  records := hquiet.traced.trans hnests.records

theorem append (hlevel : machine.Level middle) (hfirst : machine.Nests entries middle.world)
    (hsecond : middle.Nests more world) : machine.Nests (entries ++ more) world where
  climbs := by
    have hclimbs := hsecond.climbs
    rw [hlevel.depth, hlevel.maxDepth] at hclimbs
    rw [List.map_append]
    exact hfirst.climbs.append hclimbs
  records := by
    rw [hsecond.records, hlevel.trace, hfirst.records]
    split
    · rw [List.map_append, List.reverse_append, List.append_assoc]
    · rfl

theorem enter {entry : Entry} (hlimit : (machine.depth : Int) < machine.maxDepth)
    (hinside : entry.inside = machine.enter entry.function)
    (hinner : entry.inside.Nests entries world) : machine.Nests (entry :: entries) world := by
  obtain ⟨hdepth, hmaxDepth, htrace⟩ := machine.enter_level entry.function
  have hentry : entry.depth = machine.depth + 1 := by rw [Entry.depth, hinside, hdepth]
  constructor
  · have hclimbs := hinner.climbs
    rw [hinside, hdepth, hmaxDepth] at hclimbs
    rw [List.map_cons, hentry]
    exact hclimbs.cons hlimit
  · rw [hinner.records, hinside, htrace, traced_enter, List.map_cons, List.reverse_cons,
      Entry.record, hentry]
    split
    · rw [List.append_assoc, List.singleton_append]
    · rfl

end Machine.Nests

/-- The account of how deep applications nest and of the records that they leave. -/
def Account.depth (fuel : Nat) : Account .all fuel where
  holds machine entries _ world := machine.Nests entries world
  expects _ := True
  expects_ordinary _ := trivial
  expects_host _ _ _ := trivial
  still hquiet _ := .still hquiet.traced
  append hlevel hfirst hsecond := hfirst.append hlevel hsecond
  settle hnests hquiet := hnests.settle hquiet
  fault _ hnests := hnests
  application hlimit hinside _ hinner := hinner.enter hlimit hinside
  prompt hlimit hinside _ htraced _ _ := (Machine.Nests.still htraced).enter hlimit hinside
  quit _ _ _ hnests := hnests

/-- Where any function may be applied, anything may be asked for. -/
theorem Account.unrestricted {fuel : Nat} (account : Account .all fuel) (budget : Nat) :
    (account.logic (account.calls budget)).Unrestricted where
  allows := ⟨nofun, nofun⟩
  lists _ := trivial
  expects stop := by
    let function : Function := { name := 0, long := [], arity := 0, action := .host .fail }
    have hallows : Realm.all.allows function := trivial
    have haction : function.action = .host .fail := rfl
    exact account.expects_host stop hallows haction
  may _ := trivial
  becomes _ := trivial
  gives _ := trivial
  fetch name := .step fun _ _ => ⟨_, _, rfl, trivial, trivial, ⟨rfl, rfl, rfl⟩, .refl _⟩
  unlist cell := .step fun _ _ => ⟨_, _, rfl, trivial, trivial, ⟨rfl, rfl, rfl⟩, .refl _⟩

/-- Whatever a host asks of a machine, in whatever state: the applications that are entered nest
strictly above the depth at the start and up to the limit, the first of them one level below the
start and each at most one level below the one before it; with tracing on, each has left one record
of its depth, in order; and when a value or an error of the language is returned, the depth is that
at the start. -/
theorem Operation.perform_depth (fuel : Nat) (operation : Operation) (machine : Machine) :
    ∃ entries,
      Enters fuel (machine.maxDepth - machine.depth).toNat
        (fun apply => operation.performWith
          { budget := (machine.maxDepth - machine.depth).toNat, fuel, apply }) machine entries ∧
      match operation.perform fuel machine with
      | .ok _ after | .error (.error _) after =>
          after.depth = machine.depth ∧ machine.Nests entries after.world
      | .error _ after => machine.Nests entries after.world := by
  have hkeeps : (Account.depth fuel).Keeps (machine.maxDepth - machine.depth).toNat
      (fun _ => True) fun apply => operation.performWith
        { budget := (machine.maxDepth - machine.depth).toNat, fuel, apply } :=
    ((Account.depth fuel).unrestricted _).operation operation
  obtain ⟨entries, henters, hends⟩ := hkeeps machine trivial rfl
  refine ⟨entries, henters, ?_⟩
  change Realm.all.Ends _ _ _ (operation.perform fuel machine) at hends
  generalize operation.perform fuel machine = result at hends ⊢
  cases hends with
  | ok _ _ hlevel hnests => exact ⟨hlevel.depth, hnests⟩
  | error _ hlevel hnests => exact ⟨hlevel.depth, hnests⟩
  | @cut stop _ hcut _ hnests =>
      cases stop with
      | error error => exact hcut.elim
      | fault fault => exact hnests
      | exhausted => exact hnests

end KnightLang
