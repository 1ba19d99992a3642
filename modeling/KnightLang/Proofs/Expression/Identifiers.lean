import KnightLang.Proofs.Expression.Exact

/-!
The names that reading meets. Whether an expression is read or not, every name that was noted on the
way is an identifier, and so is every variable of an expression that was read.
-/

namespace KnightLang

/-- A variable occurs somewhere in an expression. -/
inductive Tree.Mentions (name : Bytes) : Tree → Prop where
  | self : Mentions name (.variable name)
  | argument {function : Function} {args : List Tree} {tree : Tree} :
      tree ∈ args → Mentions name tree → Mentions name (.apply function args)

/-- Every variable of an expression is an identifier. -/
def Tree.IsSpelled (tree : Tree) : Prop := ∀ name, tree.Mentions name → name.isIdentifier = true

theorem Bytes.isIdentifier_cons {first : UInt8} {rest : Bytes}
    (hfirst : Byte.isNameStart first = true) (hrest : ∀ byte ∈ rest, Byte.isNameByte byte = true) :
    Bytes.isIdentifier (first :: rest) = true := by
  rw [Bytes.isIdentifier, hfirst, Bool.true_and, List.all_eq_true]
  exact hrest

theorem Byte.isNameByte_of_isNameStart {byte : UInt8} (hstart : Byte.isNameStart byte = true) :
    Byte.isNameByte byte = true := by
  unfold Byte.isNameStart at hstart
  unfold Byte.isNameByte
  rcases Bool.or_eq_true_iff.mp hstart with hlower | hunder
  · rw [hlower, Bool.true_or, Bool.true_or]
  · rw [hunder, Bool.or_true]

namespace Scan

/-- Only identifiers were noted between two states of a parse. -/
def Notes (before after : Scanner) : Prop :=
  ∀ name ∈ after.names, name ∈ before.names ∨ name.isIdentifier = true

theorem Notes.refl (scanner : Scanner) : Notes scanner scanner := fun _ => Or.inl

theorem Notes.trans {before middle after : Scanner} (first : Notes before middle)
    (second : Notes middle after) : Notes before after := by
  intro name hmem
  rcases second name hmem with hmiddle | hidentifier
  · exact first name hmiddle
  · exact Or.inr hidentifier

theorem Notes.of_eq {before after : Scanner} (hnames : after.names = before.names) :
    Notes before after :=
  fun _ hmem => Or.inl (hnames ▸ hmem)

/-- Only identifiers were noted, and what was read is as it should be. -/
def Spelled {α : Type} (good : α → Prop) (before : Scanner) :
    EStateM.Result Error Scanner α → Prop
  | .ok value after => Notes before after ∧ good value
  | .error _ after => Notes before after

/-- Wherever it starts and however it ends, reading notes identifiers only. -/
def Spells {α : Type} (good : α → Prop) (read : Scan α) : Prop :=
  ∀ scanner, Spelled good scanner (read scanner)

theorem Spelled.extend {α : Type} {good : α → Prop} {before middle : Scanner}
    {result : EStateM.Result Error Scanner α} (hspelled : Spelled good middle result)
    (hnotes : Notes before middle) : Spelled good before result := by
  cases result with
  | ok value after => exact ⟨hnotes.trans hspelled.1, hspelled.2⟩
  | error error after => exact hnotes.trans hspelled

theorem Spelled.ite {α : Type} {good : α → Prop} {scanner : Scanner} {condition : Prop}
    [Decidable condition] {read other : Scan α}
    (hthen : condition → Spelled good scanner (read scanner))
    (helse : ¬condition → Spelled good scanner (other scanner)) :
    Spelled good scanner ((if condition then read else other) scanner) := by
  split
  · next hcondition => exact hthen hcondition
  · next hcondition => exact helse hcondition

namespace Spells

variable {α β : Type} {good : α → Prop} {good' : β → Prop}

theorem pure {value : α} (hgood : good value) : Spells good (Pure.pure value : Scan α) :=
  fun scanner => ⟨.refl scanner, hgood⟩

theorem throw (error : Error) : Spells good (MonadExcept.throw error : Scan α) :=
  fun scanner => .refl scanner

theorem bind {read : Scan α} {next : α → Scan β} (hread : Spells good read)
    (hnext : ∀ value, good value → Spells good' (next value)) :
    Spells good' (read >>= next) := by
  intro scanner
  have hfirst := hread scanner
  change Spelled good' scanner (EStateM.bind read next scanner)
  unfold EStateM.bind
  cases hresult : read scanner with
  | error error after =>
      rw [hresult] at hfirst
      exact hfirst
  | ok value middle =>
      rw [hresult] at hfirst
      exact (hnext value hfirst.2 middle).extend hfirst.1

theorem observe {next : Scanner → Scan α} (hnext : ∀ scanner, Spells good (next scanner)) :
    Spells good (get >>= next) :=
  fun scanner => hnext scanner scanner

theorem ite {condition : Prop} [Decidable condition] {read other : Scan α}
    (hthen : Spells good read) (helse : Spells good other) :
    Spells good (if condition then read else other) := by
  split
  · exact hthen
  · exact helse

end Spells

/-! ### Tokens -/

variable (grammar : Grammar)

theorem spells_takeRun (test : UInt8 → Bool) : Spells (fun _ => True) (takeRun test) :=
  fun _ => ⟨.of_eq rfl, trivial⟩

theorem spells_checkEnd : Spells (fun _ => True) (checkEnd grammar) := by
  intro scanner
  unfold checkEnd
  split
  · exact .refl scanner
  · exact ⟨.refl scanner, trivial⟩

theorem spells_advance : Spells (fun _ => True) advance := by
  intro scanner
  unfold advance
  split
  · exact ⟨.refl scanner, trivial⟩
  · exact ⟨.of_eq rfl, trivial⟩

theorem spells_number : Spells Tree.IsSpelled (number grammar) := by
  intro scanner
  unfold number
  dsimp only
  split <;> split
  · exact .of_eq rfl
  · exact ⟨.of_eq rfl, nofun⟩
  · exact .of_eq rfl
  · exact ⟨.of_eq rfl, nofun⟩

theorem spells_quoted (quote : UInt8) : Spells Tree.IsSpelled (quoted grammar quote) := by
  refine .observe fun start => ?_
  refine spells_advance.bind fun _ _ => ?_
  refine (spells_takeRun (· != quote)).bind fun contents _ => ?_
  refine .observe fun rest => ?_
  refine .ite (.throw _) ?_
  exact spells_advance.bind fun _ _ => .pure nofun

/-- A token that is no application of its own, or a function. -/
def Head.IsSpelled : Head → Prop
  | .literal tree => tree.IsSpelled
  | .function _ => True

theorem spells_head (byte : UInt8) : Spells Head.IsSpelled (head grammar byte) := by
  have hliteral {tree : Tree} (htree : tree.IsSpelled) : (Head.literal tree).IsSpelled := htree
  refine .observe fun start => ?_
  refine .ite ?_ ?_
  · refine spells_advance.bind fun _ _ => ?_
    refine (spells_takeRun Byte.isWordByte).bind fun _ _ => ?_
    refine (spells_checkEnd grammar).bind fun _ _ => ?_
    refine .ite (.pure (hliteral nofun)) ?_
    refine .ite (.pure (hliteral nofun)) ?_
    refine .ite (.pure (hliteral nofun)) ?_
    cases grammar.functions.find? byte with
    | none => exact .throw _
    | some function => exact .pure trivial
  · cases grammar.functions.find? byte with
    | none => exact .throw _
    | some function => exact spells_advance.bind fun _ _ => .pure trivial

theorem spells_noted {name : Bytes} (hname : name.isIdentifier = true) :
    Spells Tree.IsSpelled (do
      checkEnd grammar
      modify fun scanner : Scanner => { scanner with names := name :: scanner.names }
      return .variable name) := by
  have hnote : Spells (fun _ : PUnit => True)
      (modify fun scanner : Scanner => { scanner with names := name :: scanner.names }) := by
    refine fun scanner => ⟨fun other hmem => ?_, trivial⟩
    rcases List.mem_cons.mp hmem with rfl | hmem
    · exact Or.inr hname
    · exact Or.inl hmem
  refine (spells_checkEnd grammar).bind fun _ _ => ?_
  refine hnote.bind fun _ _ => .pure ?_
  intro other hmentions
  cases hmentions
  exact hname

/-- A run of name bytes that begins with the first byte of a name is an identifier. -/
theorem spelled_identifier {scanner : Scanner} {first : UInt8} {rest : Bytes}
    (hunread : scanner.unread = first :: rest) (hfirst : Byte.isNameStart first = true) :
    Spelled Tree.IsSpelled scanner (identifier grammar scanner) := by
  have hname : Bytes.isIdentifier (scanner.unread.takeWhile Byte.isNameByte) = true := by
    rw [hunread, List.takeWhile_cons, if_pos (Byte.isNameByte_of_isNameStart hfirst)]
    exact Bytes.isIdentifier_cons hfirst fun byte hmem => List.mem_takeWhile_imp hmem
  exact (spells_noted grammar hname _).extend (.of_eq rfl)

/-- The next token begins with the byte that is peeked at. -/
theorem peekToken_cases (scanner : Scanner) :
    match peekToken grammar scanner with
    | .ok byte after => after.names = scanner.names ∧ ∃ rest, after.unread = byte :: rest
    | .error _ after => after.names = scanner.names := by
  unfold peekToken
  dsimp only
  cases (skipBlank false scanner.position scanner.unread).2 with
  | nil => rfl
  | cons byte rest => exact ⟨rfl, rest, rfl⟩

/-! ### Expressions -/

theorem spells_arguments {expression : Scan Tree} (hexpression : Spells Tree.IsSpelled expression)
    (function : Function) (start : Position) (index count : Nat) :
    Spells (fun trees => ∀ tree ∈ trees, tree.IsSpelled)
      (arguments grammar expression function start index count) := by
  induction count generalizing index with
  | zero => exact .pure (List.forall_mem_nil _)
  | succ count ih =>
      intro scanner
      have hfirst := hexpression scanner
      unfold arguments
      cases hresult : expression scanner with
      | error error after =>
          rw [hresult] at hfirst
          dsimp only
          split
          · exact hfirst
          · exact hfirst
      | ok tree middle =>
          rw [hresult] at hfirst
          have hrest := (ih (index + 1) middle).extend hfirst.1
          dsimp only
          cases hothers : arguments grammar expression function start (index + 1) count middle with
          | error error after =>
              rw [hothers] at hrest
              exact hrest
          | ok trees after =>
              rw [hothers] at hrest
              exact ⟨hrest.1, List.forall_mem_cons.mpr ⟨hfirst.2, hrest.2⟩⟩

theorem spells_expression (budget : Nat) :
    Spells Tree.IsSpelled (expression grammar budget) := by
  induction budget using Nat.strongRecOn with
  | _ budget ih =>
      intro scanner
      rw [expression.eq_def]
      have hpeek := peekToken_cases grammar scanner
      cases hresult : peekToken grammar scanner with
      | error error after =>
          rw [hresult] at hpeek
          rw [bind_error hresult]
          exact .of_eq hpeek
      | ok byte middle =>
          rw [hresult] at hpeek
          obtain ⟨hnames, rest, hunread⟩ := hpeek
          rw [bind_ok hresult]
          refine Spelled.extend ?_ (.of_eq hnames)
          refine .ite (fun _ => spells_number grammar middle) fun _ => ?_
          refine .ite (spelled_identifier grammar hunread) fun _ => ?_
          refine .ite (fun _ => spells_quoted grammar byte middle) fun _ => ?_
          refine Spells.bind (spells_head grammar byte) (fun token htoken => ?_) middle
          cases token with
          | literal tree =>
              have htree : tree.IsSpelled := htoken
              exact .pure htree
          | function function =>
              cases budget with
              | zero => exact .throw _
              | succ budget =>
                  have hinner := ih budget (Nat.lt_succ_self budget)
                  refine (spells_arguments grammar hinner function _ 1 _).bind fun args hargs => ?_
                  refine .pure fun name hmentions => ?_
                  cases hmentions with
                  | argument hmem hmentions => exact hargs _ hmem name hmentions

end Scan

theorem Grammar.parse_spelled (grammar : Grammar) (bytes : Bytes) :
    match grammar.parse bytes with
    | .ok tree _ => tree.IsSpelled
    | .error _ after => ∀ name ∈ after.names, name.isIdentifier = true := by
  have hspelled := Scan.spells_expression grammar grammar.limit.toNat { unread := bytes }
  cases hparse : grammar.parse bytes with
  | ok tree after =>
      change Scan.Spelled _ _ (grammar.parse bytes) at hspelled
      rw [hparse] at hspelled
      exact hspelled.2
  | error error after =>
      change Scan.Spelled _ _ (grammar.parse bytes) at hspelled
      rw [hparse] at hspelled
      exact fun name hmem => (hspelled name hmem).resolve_left List.not_mem_nil

/-- A token is read to its end, unless it is cut off by a source that fails there. -/
theorem Scan.identifier_ends (grammar : Grammar) {scanner : Scanner} {name rest : Bytes}
    (hunread : scanner.unread = name ++ rest)
    (hbytes : ∀ byte ∈ name, Byte.isNameByte byte = true) (hstops : Stops Byte.isNameByte rest)
    (hend : grammar.failure = none ∨ rest ≠ []) :
    ∃ after, identifier grammar scanner = .ok (.variable name) after ∧ after.unread = rest := by
  have hrun := takeRun_eq hunread hbytes hstops
  have hcheck (scanner : Scanner) (hrest : scanner.unread = rest) :
      checkEnd grammar scanner = .ok ⟨⟩ scanner := by
    unfold checkEnd
    rw [hrest, if_neg]
    rcases hend with hfailure | hmore
    · simp [hfailure]
    · simp [hmore]
  let after : Scanner :=
    { unread := rest, position := scanner.position.after name, names := name :: scanner.names }
  refine ⟨after, (bind_ok hrun).trans ?_, rfl⟩
  exact bind_ok (hcheck _ rfl)

/-- An identifier in front of anything that does not continue it is read as a variable. -/
theorem Grammar.parse_identifier (grammar : Grammar) {name blank rest : Bytes}
    (hname : name.isIdentifier = true) (hblank : Blank blank)
    (hstops : Stops Byte.isNameByte rest) (hend : grammar.failure = none ∨ rest ≠ []) :
    ∃ scanner, grammar.parse (blank ++ (name ++ rest)) = .ok (.variable name) scanner ∧
      scanner.unread = rest := by
  cases name with
  | nil => cases hname
  | cons first others =>
      obtain ⟨hfirst, hothers⟩ := Bool.and_eq_true_iff.mp hname
      have hbytes : ∀ byte ∈ first :: others, Byte.isNameByte byte = true :=
        List.forall_mem_cons.mpr
          ⟨Byte.isNameByte_of_isNameStart hfirst, List.all_eq_true.mp hothers⟩
      let start : Scanner := { unread := blank ++ (first :: others ++ rest) }
      let reached : Scanner :=
        { start with
          unread := first :: (others ++ rest), position := start.position.after blank }
      have hread : grammar.parse start.unread = Scan.identifier grammar reached :=
        Scan.expression_of_isNameStart hblank _ rfl hfirst
      have hunread : reached.unread = (first :: others) ++ rest := rfl
      obtain ⟨after, hidentifier, hrest⟩ :=
        Scan.identifier_ends grammar hunread hbytes hstops hend
      exact ⟨after, hread.trans hidentifier, hrest⟩

end KnightLang
