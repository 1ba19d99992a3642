import KnightLang.Proofs.Expression.Exact

/-!
Sources that fail where others end. Reading from such a source gives what reading the same bytes
from one that just ends gives, unless it comes to the end; there the failure of the source takes the
place of the end, or becomes the cause of a string without its end.
-/

namespace KnightLang

/-- The grammar for a source that fails at its end. -/
def Grammar.failing (grammar : Grammar) (text : Bytes) : Grammar :=
  { grammar with failure := some text }

namespace Scan

/-- What a failure becomes where the source fails at its end: it stays as it is, or a string without
its end has another cause. -/
inductive Recast (grammar : Grammar) (text : Bytes) : Error → Error → Prop where
  | same {error : Error} : error ≠ .endOfInput → Recast grammar text error error
  | string (position : Position) :
      Recast grammar text (errorAt grammar position .unterminatedString [.unexpectedEnd])
        (errorAt grammar position .unterminatedString [.plain text])

/-- Reading from a source that fails at its end, beside reading from one that just ends. -/
structure Interrupts (grammar : Grammar) (text : Bytes) {α : Type} (plain failing : Scan α) :
    Prop where
  ok : ∀ {scanner after : Scanner} {value : α}, failing scanner = .ok value after →
    plain scanner = .ok value after
  error : ∀ {scanner after : Scanner} {error : Error}, failing scanner = .error error after →
    error = atEnd (grammar.failing text) ∨
      ∃ other, plain scanner = .error other after ∧ Recast grammar text other error

variable {grammar : Grammar} {text : Bytes}

theorem atEnd_failing_ne_endOfInput : atEnd (grammar.failing text) ≠ .endOfInput :=
  fun heq => nomatch heq

theorem Recast.ne_endOfInput {plain failing : Error} (hrecast : Recast grammar text plain failing) :
    plain ≠ .endOfInput ∧ failing ≠ .endOfInput := by
  cases hrecast with
  | same hne => exact ⟨hne, hne⟩
  | string position => exact ⟨(fun heq => nomatch heq), (fun heq => nomatch heq)⟩

namespace Interrupts

variable {α β : Type} {plain failing : Scan α}

/-- What does not ask for the end of the source is not interrupted. -/
theorem refl_of {read : Scan α}
    (hread : ∀ {scanner after : Scanner}, read scanner ≠ .error .endOfInput after) :
    Interrupts grammar text read read where
  ok heq := heq
  error {_ _ error} heq := by
    refine Or.inr ⟨error, heq, .same ?_⟩
    rintro rfl
    exact hread heq

theorem pure (value : α) : Interrupts grammar text (Pure.pure value) (Pure.pure value) :=
  refl_of fun heq => nomatch heq

theorem throw {error : Error} (hne : error ≠ .endOfInput) :
    Interrupts grammar text (MonadExcept.throw error : Scan α) (MonadExcept.throw error) := by
  refine refl_of fun heq => ?_
  cases heq
  exact hne rfl

theorem bind {next next' : α → Scan β} (hfirst : Interrupts grammar text plain failing)
    (hnext : ∀ value, Interrupts grammar text (next value) (next' value)) :
    Interrupts grammar text (plain >>= next) (failing >>= next') where
  ok heq := by
    obtain ⟨value, middle, hread, hdone⟩ := bind_eq_ok heq
    exact (bind_ok (hfirst.ok hread)).trans ((hnext value).ok hdone)
  error heq := by
    rcases bind_eq_error heq with hread | ⟨value, middle, hread, hdone⟩
    · refine (hfirst.error hread).imp_right fun ⟨other, hother, hrecast⟩ => ?_
      exact ⟨other, bind_error hother, hrecast⟩
    · refine ((hnext value).error hdone).imp_right fun ⟨other, hother, hrecast⟩ => ?_
      exact ⟨other, (bind_ok (hfirst.ok hread)).trans hother, hrecast⟩

theorem ite {condition : Prop} [Decidable condition] {other other' : Scan α}
    (hthen : Interrupts grammar text plain failing) (helse : Interrupts grammar text other other') :
    Interrupts grammar text (if condition then plain else other)
      (if condition then failing else other') := by
  split
  · exact hthen
  · exact helse

end Interrupts

/-! ### Tokens -/

theorem interrupts_get : Interrupts grammar text (get : Scan Scanner) get :=
  .refl_of fun heq => nomatch heq

theorem interrupts_advance : Interrupts grammar text advance advance := by
  refine .refl_of fun {scanner after} heq => ?_
  unfold advance at heq
  split at heq <;> cases heq

theorem interrupts_takeRun (test : UInt8 → Bool) :
    Interrupts grammar text (takeRun test) (takeRun test) :=
  .refl_of fun heq => nomatch heq

theorem interrupts_peekToken :
    Interrupts grammar text (peekToken grammar) (peekToken (grammar.failing text)) where
  ok heq := by
    unfold peekToken at heq ⊢
    dsimp only at heq ⊢
    split at heq <;> cases heq
    rfl
  error heq := by
    unfold peekToken at heq
    dsimp only at heq
    split at heq <;> cases heq
    exact Or.inl rfl

theorem interrupts_number :
    Interrupts grammar text (number grammar) (number (grammar.failing text)) where
  ok {scanner _ _} heq := by
    unfold number at heq ⊢
    generalize literalDigits 0 scanner.position scanner.unread = read at heq ⊢
    obtain ⟨total, position, rest⟩ := read
    cases rest with
    | nil => cases heq
    | cons byte rest => exact heq
  error {scanner _ _} heq := by
    unfold number at heq ⊢
    generalize literalDigits 0 scanner.position scanner.unread = read at heq ⊢
    obtain ⟨total, position, rest⟩ := read
    cases rest with
    | nil =>
        cases heq
        exact Or.inl rfl
    | cons byte rest =>
        refine Or.inr ⟨_, heq, .same ?_⟩
        dsimp only at heq
        split at heq <;> cases heq
        exact fun hend => nomatch hend

variable (hending : grammar.failure = none)

include hending in
theorem interrupts_checkEnd :
    Interrupts grammar text (checkEnd grammar) (checkEnd (grammar.failing text)) where
  ok {scanner _ _} heq := by
    unfold checkEnd at heq
    split at heq <;> cases heq
    exact checkEnd_eq hending scanner
  error heq := by
    unfold checkEnd at heq
    split at heq <;> cases heq
    exact Or.inl rfl

include hending in
theorem interrupts_identifier :
    Interrupts grammar text (identifier grammar) (identifier (grammar.failing text)) := by
  refine (interrupts_takeRun Byte.isNameByte).bind fun name => ?_
  refine (interrupts_checkEnd hending).bind fun _ => ?_
  have hnote : Interrupts grammar text
      (modify fun scanner : Scanner => { scanner with names := name :: scanner.names } : Scan PUnit)
      (modify fun scanner : Scanner => { scanner with names := name :: scanner.names }) :=
    .refl_of fun heq => nomatch heq
  exact hnote.bind fun _ => .pure _

include hending in
theorem interrupts_quoted (quote : UInt8) :
    Interrupts grammar text (quoted grammar quote) (quoted (grammar.failing text) quote) := by
  refine interrupts_get.bind fun start => ?_
  refine interrupts_advance.bind fun _ => ?_
  refine (interrupts_takeRun (· != quote)).bind fun contents => ?_
  refine interrupts_get.bind fun rest => .ite ?_ ?_
  · constructor
    · intro _ _ _ heq
      cases heq
    · intro _ _ _ heq
      cases heq
      simp only [hending]
      exact Or.inr ⟨_, rfl, .string start.position⟩
  · exact interrupts_advance.bind fun _ => .pure _

include hending in
theorem interrupts_head (byte : UInt8) :
    Interrupts grammar text (head grammar byte) (head (grammar.failing text) byte) := by
  have hfunctions : (grammar.failing text).functions.find? byte =
      grammar.functions.find? byte := rfl
  refine interrupts_get.bind fun start => .ite ?_ ?_
  · refine interrupts_advance.bind fun _ => ?_
    refine (interrupts_takeRun Byte.isWordByte).bind fun _ => ?_
    refine (interrupts_checkEnd hending).bind fun _ => ?_
    refine .ite (.pure _) (.ite (.pure _) (.ite (.pure _) ?_))
    rw [hfunctions]
    cases grammar.functions.find? byte with
    | none => exact .throw errorAt_ne_endOfInput
    | some function => exact .pure _
  · rw [hfunctions]
    cases grammar.functions.find? byte with
    | none => exact .throw errorAt_ne_endOfInput
    | some function => exact interrupts_advance.bind fun _ => .pure _

/-! ### Expressions -/

theorem interrupts_arguments {plain failing : Scan Tree}
    (hexpression : Interrupts grammar text plain failing) (function : Function) (start : Position)
    (index count : Nat) :
    Interrupts grammar text (arguments grammar plain function start index count)
      (arguments (grammar.failing text) failing function start index count) := by
  induction count generalizing index with
  | zero => exact .pure []
  | succ count ih =>
      constructor
      · intro scanner after trees heq
        obtain ⟨tree, rest, middle, hfirst, hrest, rfl⟩ := arguments_eq_ok heq
        rw [arguments_of_ok (hexpression.ok hfirst)]
        exact bind_ok ((ih (index + 1)).ok hrest)
      · intro scanner after error heq
        rcases arguments_eq_error heq with ⟨cause, hfirst, rfl⟩ | ⟨tree, middle, hfirst, hrest⟩
        · -- Neither failure is that of running out of input, so both are passed on as they are.
          rcases hexpression.error hfirst with rfl | ⟨other, hother, hrecast⟩
          · exact Or.inl (if_neg atEnd_failing_ne_endOfInput)
          · obtain ⟨hplain, hfailing⟩ := hrecast.ne_endOfInput
            refine Or.inr ⟨other, ?_, ?_⟩
            · rw [arguments_of_error hother, argumentError, if_neg hplain]
            · rwa [argumentError, if_neg hfailing]
        · rw [arguments_of_ok (hexpression.ok hfirst)]
          rcases (ih (index + 1)).error hrest with hend | ⟨other, hother, hrecast⟩
          · exact Or.inl hend
          · exact Or.inr ⟨other, bind_error hother, hrecast⟩

include hending in
/-- A source that fails gives no expression that one that ends does not give, and no failure of its
own but the one at its end. -/
theorem interrupts_expression (budget : Nat) :
    Interrupts grammar text (expression grammar budget)
      (expression (grammar.failing text) budget) := by
  induction budget using Nat.strongRecOn with
  | _ budget ih =>
      rw [expression.eq_def, expression.eq_def]
      refine interrupts_peekToken.bind fun byte => ?_
      refine interrupts_get.bind fun start => ?_
      refine .ite interrupts_number ?_
      refine .ite (interrupts_identifier hending) ?_
      refine .ite (interrupts_quoted hending byte) ?_
      refine (interrupts_head hending byte).bind fun token => ?_
      cases token with
      | literal tree => exact .pure tree
      | function function =>
          cases budget with
          | zero => exact .throw errorAt_ne_endOfInput
          | succ budget =>
              have hinner := ih budget (Nat.lt_succ_self budget)
              exact (interrupts_arguments hinner function _ 1 _).bind fun _ => .pure _

end Scan

end KnightLang
