import KnightLang.Proofs.Expression.Exact
import KnightLang.Proofs.Failure

/-!
What reading takes from its input, whether it succeeds or fails: some bytes from the front, which
are counted in the position. A failure has one reason and points at a position that was reached.
-/

namespace KnightLang

def Position.IsPositive (position : Position) : Prop := 0 < position.line ∧ 0 < position.column

theorem Position.IsPositive.after {position : Position} (hposition : position.IsPositive)
    (bytes : Bytes) : (position.after bytes).IsPositive := by
  induction bytes generalizing position with
  | nil => exact hposition
  | cons byte rest ih =>
      refine ih ?_
      unfold Position.next
      split
      · exact ⟨Nat.succ_pos _, Nat.one_pos⟩
      · exact ⟨hposition.1, Nat.succ_pos _⟩

/-- One scanner becomes another by going past some bytes. -/
def Scanner.GoesTo (before after : Scanner) : Prop :=
  ∃ taken, before.unread = taken ++ after.unread ∧ after.position = before.position.after taken

namespace Scanner.GoesTo

variable {before middle after : Scanner}

theorem refl (scanner : Scanner) : scanner.GoesTo scanner := ⟨[], rfl, rfl⟩

theorem trans (first : before.GoesTo middle) (second : middle.GoesTo after) :
    before.GoesTo after := by
  obtain ⟨taken, hunread, hposition⟩ := first
  obtain ⟨more, hunread', hposition'⟩ := second
  refine ⟨taken ++ more, ?_, ?_⟩
  · rw [hunread, hunread', List.append_assoc]
  · simp [hposition', hposition]

theorem isPositive (hgoes : before.GoesTo after) (hpositive : before.position.IsPositive) :
    after.position.IsPositive := by
  obtain ⟨taken, -, hposition⟩ := hgoes
  rw [hposition]
  exact hpositive.after taken

end Scanner.GoesTo

namespace Scan

/-- The failure to find an expression, or one with a reason. -/
def Fails (error : Error) : Prop := error = .endOfInput ∨ error.IsOrdinary

/-- Reading goes forward, however it ends. -/
structure Advances {α : Type} (read : Scan α) : Prop where
  ok : ∀ {scanner after : Scanner} {value : α}, scanner.position.IsPositive →
    read scanner = .ok value after → scanner.GoesTo after
  error : ∀ {scanner after : Scanner} {error : Error}, scanner.position.IsPositive →
    read scanner = .error error after → scanner.GoesTo after ∧ Fails error

namespace Advances

variable {α β : Type} {read : Scan α}

theorem pure (value : α) : Advances (Pure.pure value : Scan α) where
  ok _ heq := by
    cases heq
    exact .refl _
  error _ heq := nomatch heq

theorem throw {error : Error} (herror : Fails error) :
    Advances (MonadExcept.throw error : Scan α) where
  ok _ heq := nomatch heq
  error _ heq := by
    cases heq
    exact ⟨.refl _, herror⟩

theorem bind {next : α → Scan β} (hread : Advances read) (hnext : ∀ value, Advances (next value)) :
    Advances (read >>= next) where
  ok hpositive heq := by
    obtain ⟨value, middle, hfirst, hlast⟩ := bind_eq_ok heq
    have hgoes := hread.ok hpositive hfirst
    exact hgoes.trans ((hnext value).ok (hgoes.isPositive hpositive) hlast)
  error hpositive heq := by
    rcases bind_eq_error heq with hfirst | ⟨value, middle, hfirst, hlast⟩
    · exact hread.error hpositive hfirst
    · have hgoes := hread.ok hpositive hfirst
      obtain ⟨hmore, herror⟩ := (hnext value).error (hgoes.isPositive hpositive) hlast
      exact ⟨hgoes.trans hmore, herror⟩

/-- What comes next may count on the position at which it is. -/
theorem observe {next : Scanner → Scan β}
    (hnext : ∀ scanner : Scanner, scanner.position.IsPositive → Advances (next scanner)) :
    Advances (get >>= next) where
  ok {scanner _ _} hpositive heq := (hnext scanner hpositive).ok hpositive heq
  error {scanner _ _} hpositive heq := (hnext scanner hpositive).error hpositive heq

theorem ite {condition : Prop} [Decidable condition] {other : Scan α} (hthen : Advances read)
    (helse : Advances other) : Advances (if condition then read else other) := by
  split
  · exact hthen
  · exact helse

end Advances

variable (grammar : Grammar)

theorem isOrdinary_errorAt {start : Position} {reason : Reason} {causes : List Link}
    (hstart : start.IsPositive) (hreason : reason.IsOrdinary)
    (hkind : reason.kind = .parse ∨ reason.kind = .depth)
    (hcauses : ∀ link ∈ causes, link.reason? = none) :
    (errorAt grammar start reason causes).IsOrdinary := by
  refine ⟨reason, hreason, ⟨_, rfl, Or.inr ⟨⟨?_, ?_⟩, hkind⟩⟩, hcauses⟩
  · exact Int.natCast_pos.mpr hstart.1
  · exact Int.natCast_pos.mpr hstart.2

theorem fails_atEnd : Fails (atEnd grammar) := by
  unfold atEnd
  split
  · exact Or.inl rfl
  · refine Or.inr (Error.isOrdinary_because ?_ _)
    trivial

/-! ### Tokens -/

theorem skipBlank_goes (comment : Bool) (position : Position) (bytes : Bytes) :
    ∃ taken, bytes = taken ++ (skipBlank comment position bytes).2 ∧
      (skipBlank comment position bytes).1 = position.after taken := by
  induction bytes generalizing comment position with
  | nil => exact ⟨[], rfl, rfl⟩
  | cons byte rest ih =>
      have hmore (comment : Bool) : ∃ taken,
          byte :: rest = taken ++ (skipBlank comment (position.next byte) rest).2 ∧
            (skipBlank comment (position.next byte) rest).1 = position.after taken := by
        obtain ⟨taken, hrest, hposition⟩ := ih comment (position.next byte)
        refine ⟨byte :: taken, ?_, hposition⟩
        rw [List.cons_append, ← hrest]
      unfold skipBlank
      split_ifs
      · exact hmore _
      · exact hmore _
      · exact hmore _
      · exact ⟨[], rfl, rfl⟩

theorem literalDigits_goes (total : Int64) (position : Position) (bytes : Bytes) :
    ∃ taken, bytes = taken ++ (literalDigits total position bytes).2.2 ∧
      (literalDigits total position bytes).2.1 = position.after taken := by
  induction bytes generalizing total position with
  | nil => exact ⟨[], rfl, rfl⟩
  | cons byte rest ih =>
      unfold literalDigits
      dsimp only
      split_ifs
      · obtain ⟨taken, hrest, hposition⟩ :=
          ih (total * 10 + Int64.ofNat (Decimal.digit byte)) (position.next byte)
        refine ⟨byte :: taken, ?_, hposition⟩
        rw [List.cons_append, ← hrest]
      · exact ⟨[], rfl, rfl⟩

theorem advances_takeRun (test : UInt8 → Bool) : Advances (takeRun test) where
  ok {scanner _ _} _ heq := by
    cases heq
    exact ⟨scanner.unread.takeWhile test, List.takeWhile_append_dropWhile.symm, rfl⟩
  error _ heq := nomatch heq

theorem advances_checkEnd : Advances (checkEnd grammar) where
  ok _ heq := by
    unfold checkEnd at heq
    split at heq <;> cases heq
    exact .refl _
  error _ heq := by
    unfold checkEnd at heq
    split at heq <;> cases heq
    exact ⟨.refl _, fails_atEnd grammar⟩

theorem advances_advance : Advances advance where
  ok {scanner _ _} _ heq := by
    unfold advance at heq
    split at heq
    · cases heq
      exact .refl _
    · next byte rest hunread =>
        cases heq
        exact ⟨[byte], hunread, rfl⟩
  error _ heq := by
    unfold advance at heq
    split at heq <;> cases heq

theorem advances_peekToken : Advances (peekToken grammar) where
  ok {scanner _ _} _ heq := by
    obtain ⟨taken, hunread, hposition⟩ := skipBlank_goes false scanner.position scanner.unread
    unfold peekToken at heq
    dsimp only at heq
    split at heq <;> cases heq
    next hrest =>
      rw [hrest] at hunread
      exact ⟨taken, hunread, hposition⟩
  error {scanner _ _} _ heq := by
    obtain ⟨taken, hunread, hposition⟩ := skipBlank_goes false scanner.position scanner.unread
    unfold peekToken at heq
    dsimp only at heq
    split at heq <;> cases heq
    next hrest =>
      rw [hrest] at hunread
      exact ⟨⟨taken, hunread, hposition⟩, fails_atEnd grammar⟩

theorem advances_number : Advances (number grammar) := by
  have hgoes (scanner : Scanner) : scanner.GoesTo
      { scanner with
        unread := (literalDigits 0 scanner.position scanner.unread).2.2
        position := (literalDigits 0 scanner.position scanner.unread).2.1 } :=
    literalDigits_goes 0 scanner.position scanner.unread
  constructor
  · intro scanner after tree hpositive heq
    have hafter := hgoes scanner
    unfold number at heq
    dsimp only at heq
    split at heq <;> split at heq <;> cases heq
    · exact hafter
    · exact hafter
  · intro scanner after error hpositive heq
    have hafter := hgoes scanner
    unfold number at heq
    dsimp only at heq
    split at heq <;> split at heq <;> cases heq
    · exact ⟨hafter, fails_atEnd grammar⟩
    · refine ⟨hafter, Or.inr ?_⟩
      exact isOrdinary_errorAt grammar hpositive trivial (Or.inl rfl) (List.forall_mem_nil _)

theorem advances_identifier : Advances (identifier grammar) := by
  refine (advances_takeRun Byte.isNameByte).bind fun name => ?_
  refine (advances_checkEnd grammar).bind fun _ => ?_
  have hnote : Advances (modify fun scanner : Scanner =>
      { scanner with names := name :: scanner.names }) :=
    { ok := fun _ heq => by
        cases heq
        exact ⟨[], rfl, rfl⟩
      error := fun _ heq => nomatch heq }
  exact hnote.bind fun _ => .pure _

theorem advances_quoted (quote : UInt8) : Advances (quoted grammar quote) := by
  refine .observe fun start hstart => ?_
  refine advances_advance.bind fun _ => ?_
  refine (advances_takeRun (· != quote)).bind fun contents => ?_
  refine .observe fun rest _ => ?_
  refine .ite (.throw (Or.inr ?_)) ?_
  · refine isOrdinary_errorAt grammar hstart trivial (Or.inl rfl) ?_
    rw [List.forall_mem_singleton]
    split <;> rfl
  · exact advances_advance.bind fun _ => .pure _

theorem advances_head (byte : UInt8) : Advances (head grammar byte) := by
  refine .observe fun start hstart => ?_
  have hunknown {reason : Reason} (hreason : reason.IsOrdinary) (hkind : reason.kind = .parse) :
      Advances (MonadExcept.throw (errorAt grammar start.position reason []) : Scan Head) :=
    .throw (Or.inr (isOrdinary_errorAt grammar hstart hreason (Or.inl hkind)
      (List.forall_mem_nil _)))
  refine .ite ?_ ?_
  · refine advances_advance.bind fun _ => ?_
    refine (advances_takeRun Byte.isWordByte).bind fun _ => ?_
    refine (advances_checkEnd grammar).bind fun _ => ?_
    refine .ite (.pure _) (.ite (.pure _) (.ite (.pure _) ?_))
    cases grammar.functions.find? byte with
    | none => exact hunknown trivial rfl
    | some function => exact .pure _
  · cases grammar.functions.find? byte with
    | none => exact hunknown trivial rfl
    | some function => exact advances_advance.bind fun _ => .pure _

/-! ### Expressions -/

theorem advances_arguments {expression : Scan Tree} (hexpression : Advances expression)
    (function : Function) {start : Position} (hstart : start.IsPositive) (index count : Nat) :
    Advances (arguments grammar expression function start index count) := by
  induction count generalizing index with
  | zero => exact .pure []
  | succ count ih =>
      constructor
      · intro scanner after trees hpositive heq
        obtain ⟨tree, rest, middle, hfirst, hrest, -⟩ := arguments_eq_ok heq
        have hgoes := hexpression.ok hpositive hfirst
        exact hgoes.trans ((ih _).ok (hgoes.isPositive hpositive) hrest)
      · intro scanner after error hpositive heq
        rcases arguments_eq_error heq with ⟨cause, hfirst, rfl⟩ | ⟨tree, middle, hfirst, hrest⟩
        · obtain ⟨hgoes, hcause⟩ := hexpression.error hpositive hfirst
          refine ⟨hgoes, ?_⟩
          unfold argumentError
          split
          · refine Or.inr (isOrdinary_errorAt grammar hstart trivial (Or.inl rfl) ?_)
            exact List.forall_mem_singleton.mpr rfl
          · exact hcause
        · have hgoes := hexpression.ok hpositive hfirst
          obtain ⟨hmore, herror⟩ := (ih _).error (hgoes.isPositive hpositive) hrest
          exact ⟨hgoes.trans hmore, herror⟩

theorem advances_expression (budget : Nat) : Advances (expression grammar budget) := by
  induction budget using Nat.strongRecOn with
  | _ budget ih =>
      rw [expression.eq_def]
      refine (advances_peekToken grammar).bind fun byte => ?_
      refine .observe fun start hstart => ?_
      refine .ite (advances_number grammar) ?_
      refine .ite (advances_identifier grammar) ?_
      refine .ite (advances_quoted grammar byte) ?_
      refine (advances_head grammar byte).bind fun token => ?_
      cases token with
      | literal tree => exact .pure tree
      | function function =>
          cases budget with
          | zero =>
              refine .throw (Or.inr ?_)
              exact isOrdinary_errorAt grammar hstart trivial (Or.inr rfl) (List.forall_mem_nil _)
          | succ budget =>
              have hinner := ih budget (Nat.lt_succ_self budget)
              exact (advances_arguments grammar hinner function hstart 1 _).bind fun _ => .pure _

end Scan

/-! ### Parsing -/

theorem Grammar.parse_advances (grammar : Grammar) (bytes : Bytes) :
    match grammar.parse bytes with
    | .ok _ after => ∃ taken, bytes = taken ++ after.unread
    | .error error after => (∃ taken, bytes = taken ++ after.unread) ∧ Scan.Fails error := by
  have hadvances := Scan.advances_expression grammar grammar.limit.toNat
  have hstart : Position.IsPositive {} := ⟨Nat.one_pos, Nat.one_pos⟩
  cases hparse : grammar.parse bytes with
  | ok tree after =>
      obtain ⟨taken, hunread, -⟩ := hadvances.ok hstart hparse
      exact ⟨taken, hunread⟩
  | error error after =>
      obtain ⟨⟨taken, hunread, -⟩, herror⟩ := hadvances.error hstart hparse
      exact ⟨⟨taken, hunread⟩, herror⟩

theorem Evaluator.isOrdinary_missingExpression (label : Bytes) {error : Error}
    (herror : Scan.Fails error) : (missingExpression label error).IsOrdinary := by
  unfold missingExpression
  split
  · exact ⟨.noExpression, trivial, ⟨_, rfl, Or.inl ⟨rfl, rfl⟩⟩, List.forall_mem_singleton.mpr rfl⟩
  · next hne => exact herror.resolve_left hne

end KnightLang
