import KnightLang.Proofs.Expression.Exact

/-!
What the limit on nesting does to a parse: a looser limit changes nothing about an expression that
is read or about a failure, unless the failure is that the expression nests too deep.
-/

namespace KnightLang

/-- A function is applied somewhere in an expression. -/
inductive Tree.Applies (function : Function) : Tree → Prop where
  | self {args : List Tree} : Applies function (.apply function args)
  | argument {other : Function} {args : List Tree} {tree : Tree} :
      tree ∈ args → Applies function tree → Applies function (.apply other args)

/-- Every function that is applied in an expression comes from a table. -/
def Tree.ComesFrom (tree : Tree) (table : FunctionTable) : Prop :=
  ∀ function, tree.Applies function → ∃ byte, table.find? byte = some function

namespace Scan

/-- Whatever the first way of reading gives, the second gives as well, except for the failure to
read what nests too deep. -/
structure Follows {α : Type} (good : α → Prop) (first second : Scan α) : Prop where
  ok : ∀ {scanner after : Scanner} {value : α}, first scanner = .ok value after →
    second scanner = .ok value after ∧ good value
  error : ∀ {scanner after : Scanner} {error : Error}, first scanner = .error error after →
    error.kind = .depth ∨ second scanner = .error error after

namespace Follows

variable {α β : Type} {good : α → Prop} {good' : β → Prop} {first second : Scan α}

theorem refl_of (hgood : ∀ {scanner after : Scanner} {value : α},
    first scanner = .ok value after → good value) : Follows good first first where
  ok heq := ⟨heq, hgood heq⟩
  error heq := Or.inr heq

theorem refl (read : Scan α) : Follows (fun _ => True) read read := refl_of fun _ => trivial

theorem bind {next next' : α → Scan β} (hfirst : Follows good first second)
    (hnext : ∀ value, good value → Follows good' (next value) (next' value)) :
    Follows good' (first >>= next) (second >>= next') where
  ok heq := by
    obtain ⟨value, middle, hread, hdone⟩ := bind_eq_ok heq
    obtain ⟨hsecond, hgood⟩ := hfirst.ok hread
    obtain ⟨hlast, hresult⟩ := (hnext value hgood).ok hdone
    exact ⟨(bind_ok hsecond).trans hlast, hresult⟩
  error heq := by
    rcases bind_eq_error heq with hread | ⟨value, middle, hread, hdone⟩
    · exact (hfirst.error hread).imp_right bind_error
    · obtain ⟨hsecond, hgood⟩ := hfirst.ok hread
      exact ((hnext value hgood).error hdone).imp_right (bind_ok hsecond).trans

theorem pure {value : α} (hgood : good value) :
    Follows good (Pure.pure value : Scan α) (Pure.pure value) := by
  refine refl_of fun heq => ?_
  cases heq
  exact hgood

theorem ite {condition : Prop} [Decidable condition] {other other' : Scan α}
    (hthen : Follows good first second) (helse : Follows good other other') :
    Follows good (if condition then first else other) (if condition then second else other') := by
  split
  · exact hthen
  · exact helse

theorem throw (error : Error) :
    Follows good (MonadExcept.throw error : Scan α) (MonadExcept.throw error) :=
  refl_of fun heq => nomatch heq

theorem tooDeep (grammar : Grammar) (start : Position) (limit : Int) :
    Follows good (MonadExcept.throw (errorAt grammar start (.expressionDepth limit) []) : Scan α)
      second where
  ok heq := nomatch heq
  error heq := by
    cases heq
    exact Or.inl rfl

end Follows

variable (grammar : Grammar) (limit : Int) (table : FunctionTable)

theorem number_follows :
    Follows (fun tree => tree.ComesFrom table) (number grammar)
      (number { grammar with limit }) := by
  refine .refl_of fun hread function happlies => ?_
  unfold number at hread
  dsimp only at hread
  split at hread <;> split at hread <;> cases hread <;> cases happlies

theorem identifier_follows :
    Follows (fun tree => tree.ComesFrom table) (identifier grammar)
      (identifier { grammar with limit }) := by
  refine (Follows.refl (takeRun Byte.isNameByte)).bind fun name _ => ?_
  refine (Follows.refl (checkEnd grammar)).bind fun _ _ => ?_
  refine (Follows.refl (modify _)).bind fun _ _ => ?_
  exact .pure fun function happlies => nomatch happlies

theorem quoted_follows (quote : UInt8) :
    Follows (fun tree => tree.ComesFrom table) (quoted grammar quote)
      (quoted { grammar with limit } quote) := by
  refine (Follows.refl get).bind fun start _ => ?_
  refine (Follows.refl advance).bind fun _ _ => ?_
  refine (Follows.refl (takeRun (· != quote))).bind fun contents _ => ?_
  refine (Follows.refl get).bind fun rest _ => ?_
  refine .ite (.throw _) ?_
  refine (Follows.refl advance).bind fun _ _ => ?_
  exact .pure fun function happlies => nomatch happlies

/-- What the token of a word or a symbol stands for comes from a table. -/
def Head.ComesFrom (head : Head) (table : FunctionTable) : Prop :=
  match head with
  | .literal tree => tree.ComesFrom table
  | .function applied => ∃ byte, table.find? byte = some applied

theorem head_follows (byte : UInt8) :
    Follows (fun result => result.ComesFrom grammar.functions) (head grammar byte)
      (head { grammar with limit } byte) := by
  refine (Follows.refl get).bind fun start _ => ?_
  refine .ite ?_ ?_
  · refine (Follows.refl advance).bind fun _ _ => ?_
    refine (Follows.refl (takeRun Byte.isWordByte)).bind fun _ _ => ?_
    refine (Follows.refl (checkEnd grammar)).bind fun _ _ => ?_
    refine .ite (.pure fun function happlies => nomatch happlies) ?_
    refine .ite (.pure fun function happlies => nomatch happlies) ?_
    refine .ite (.pure fun function happlies => nomatch happlies) ?_
    cases hfind : grammar.functions.find? byte with
    | none => exact .throw _
    | some function => exact .pure ⟨byte, hfind⟩
  · cases hfind : grammar.functions.find? byte with
    | none => exact .throw _
    | some function => exact (Follows.refl advance).bind fun _ _ => .pure ⟨byte, hfind⟩

/-- Arguments are followed if each expression is. -/
theorem arguments_follows {expression other : Scan Tree}
    (hexpression : Follows (fun tree => tree.ComesFrom table) expression other)
    (function : Function) (start : Position) (index count : Nat) :
    Follows (fun trees => ∀ tree ∈ trees, tree.ComesFrom table)
      (arguments grammar expression function start index count)
      (arguments { grammar with limit } other function start index count) := by
  induction count generalizing index with
  | zero => exact .pure (by simp)
  | succ count ih =>
      constructor
      · intro scanner after trees hread
        obtain ⟨tree, rest, middle, hfirst, hrest, rfl⟩ := arguments_eq_ok hread
        obtain ⟨hother, htree⟩ := hexpression.ok hfirst
        obtain ⟨hothers, htrees⟩ := (ih (index + 1)).ok hrest
        rw [arguments_of_ok hother]
        exact ⟨bind_ok hothers, List.forall_mem_cons.mpr ⟨htree, htrees⟩⟩
      · intro scanner after error hread
        rcases arguments_eq_error hread with ⟨cause, hfirst, rfl⟩ | ⟨tree, middle, hfirst, hrest⟩
        · rcases hexpression.error hfirst with hdepth | hother
          · -- A failure of depth is not that of running out of input, so it is passed on as it is.
            have hcause : cause ≠ .endOfInput := by
              rintro rfl
              cases hdepth
            refine Or.inl ?_
            rw [argumentError, if_neg hcause]
            exact hdepth
          · exact Or.inr (arguments_of_error hother)
        · obtain ⟨hother, -⟩ := hexpression.ok hfirst
          refine ((ih (index + 1)).error hrest).imp_right fun hothers => ?_
          rw [arguments_of_ok hother]
          exact bind_error hothers

/-- A looser limit cuts no expression off that a tighter one lets pass. -/
theorem expression_follows {budget more : Nat} (hle : budget ≤ more) :
    Follows (fun tree => tree.ComesFrom grammar.functions) (expression grammar budget)
      (expression { grammar with limit } more) := by
  induction budget using Nat.strongRecOn generalizing more with
  | _ budget ih =>
      rw [expression.eq_def, expression.eq_def]
      refine (Follows.refl (peekToken grammar)).bind fun byte _ => ?_
      refine (Follows.refl get).bind fun start _ => ?_
      refine .ite (number_follows grammar limit _) ?_
      refine .ite (identifier_follows grammar limit _) ?_
      refine .ite (quoted_follows grammar limit _ byte) ?_
      refine (head_follows grammar limit byte).bind fun result hresult => ?_
      cases result with
      | literal tree =>
          have htree : tree.ComesFrom grammar.functions := hresult
          exact .pure htree
      | function function =>
          cases budget with
          | zero => exact .tooDeep grammar _ _
          | succ budget =>
              obtain ⟨inner, rfl⟩ : ∃ inner, more = inner + 1 := ⟨more - 1, by omega⟩
              have hinner := ih budget (Nat.lt_succ_self budget) (Nat.le_of_succ_le_succ hle)
              have harguments := arguments_follows grammar limit _ hinner function
              refine (harguments _ 1 _).bind fun args hargs => ?_
              refine .pure fun other happlies => ?_
              cases happlies with
              | self => exact hresult
              | argument hmem happlies => exact hargs _ hmem other happlies

end Scan

end KnightLang
