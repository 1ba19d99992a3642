import KnightLang.Proofs.Expression.Identifiers

/-!
The tokens that reading consumes, one after the other. The variables that are noted on the way are
those among these tokens, in their order, whether an expression is read in the end or not.
-/

namespace KnightLang

mutual

/-- The names of the variables in an expression, in the order in which they are written. -/
def Tree.names : Tree → List Bytes
  | .null | .boolean _ | .number _ | .text _ => []
  | .variable name => [name]
  | .apply _ args => Tree.namesAll args

def Tree.namesAll : List Tree → List Bytes
  | [] => []
  | tree :: trees => tree.names ++ Tree.namesAll trees

end

/-- Bytes in front of `rest` are whole tokens, and the variables among them have these names. -/
inductive Tokens (table : FunctionTable) (rest : Bytes) : Bytes → List Bytes → Prop where
  | nil : Tokens table rest [] []
  | atom {blank token others : Bytes} {tree : Tree} {names : List Bytes} :
      Blank blank → Atom (others ++ rest) token tree → Tokens table rest others names →
      Tokens table rest (blank ++ (token ++ others)) (tree.names ++ names)
  | head {blank token others : Bytes} {function : Function} {names : List Bytes} :
      Blank blank → Names table (others ++ rest) token function → Tokens table rest others names →
      Tokens table rest (blank ++ (token ++ others)) names

/-- Where reading fails: in front of no token, at a string without its end, at a token that nothing
can be made of, or at a function if that would nest too deep. If the source fails at its end, it may
also be at a token that comes up to it. -/
inductive Halts (table : FunctionTable) (fails deep : Prop) : Bytes → Prop where
  | void {bytes : Bytes} : Void bytes → Halts table fails deep bytes
  | unclosed {blank contents : Bytes} {quote : UInt8} :
      Blank blank → quote = 34 ∨ quote = 39 → quote ∉ contents →
      Halts table fails deep (blank ++ quote :: contents)
  | wrong {blank token rest : Bytes} {reason : Reason} :
      Blank blank → Wrong table rest token reason →
      Halts table fails deep (blank ++ (token ++ rest))
  | function {blank token rest : Bytes} {function : Function} :
      Blank blank → Names table rest token function → deep ∨ fails ∧ rest = [] →
      Halts table fails deep (blank ++ (token ++ rest))
  | cut {blank token : Bytes} {tree : Tree} :
      fails → Blank blank → Atom [] token tree → Halts table fails deep (blank ++ token)

theorem Halts.weaken {table : FunctionTable} {fails deep deeper : Prop} {bytes : Bytes}
    (hhalts : Halts table fails deep bytes) (hdeep : deep → deeper) :
    Halts table fails deeper bytes := by
  cases hhalts with
  | void hvoid => exact .void hvoid
  | unclosed hblank hquote hcontents => exact .unclosed hblank hquote hcontents
  | wrong hblank hwrong => exact .wrong hblank hwrong
  | function hblank hnames hwhy => exact .function hblank hnames (hwhy.imp_left hdeep)
  | cut hfails hblank hatom => exact .cut hfails hblank hatom

/-- The grammar for a source that just ends. -/
def Grammar.ending (grammar : Grammar) : Grammar := { grammar with failure := none }

@[simp]
theorem Grammar.ending_failure (grammar : Grammar) : grammar.ending.failure = none := rfl

namespace Tokens

variable {table : FunctionTable} {rest first second : Bytes} {names others : List Bytes}

theorem append (hfirst : Tokens table (second ++ rest) first names)
    (hsecond : Tokens table rest second others) :
    Tokens table rest (first ++ second) (names ++ others) := by
  induction hfirst with
  | nil => exact hsecond
  | @atom blank token tail tree _ hblank hatom _ ih =>
      rw [List.append_assoc, List.append_assoc, List.append_assoc]
      exact .atom hblank (by rwa [List.append_assoc]) ih
  | @head blank token tail function _ hblank hnames _ ih =>
      rw [List.append_assoc, List.append_assoc]
      exact .head hblank (by rwa [List.append_assoc]) ih

theorem of_atom {blank token : Bytes} {tree : Tree} (hblank : Blank blank)
    (hatom : Atom rest token tree) : Tokens table rest (blank ++ token) tree.names := by
  have htokens : Tokens table rest (blank ++ (token ++ [])) (tree.names ++ []) :=
    .atom hblank hatom .nil
  simpa only [List.append_nil] using htokens

end Tokens

namespace Scan

/-- The tokens that were read in front of what is unread now, and what was noted for them. -/
def ReadTo (table : FunctionTable) (before : Scanner) (names : List Bytes) (rest : Bytes)
    (noted : List Bytes) : Prop :=
  ∃ word, before.unread = word ++ rest ∧ Tokens table rest word names ∧
    noted = names.reverse ++ before.names

/-- Reading has consumed whole tokens and noted the variables among them: those of what was read,
or, if it failed, those in front of where it failed. -/
def Notices {α : Type} (grammar : Grammar) (names : α → List Bytes) (before : Scanner) :
    EStateM.Result Error Scanner α → Prop
  | .ok value after => ReadTo grammar.functions before (names value) after.unread after.names
  | .error error after => ∃ met rest, ReadTo grammar.functions before met rest after.names ∧
      Halts grammar.functions (grammar.failure ≠ none) (error.kind = .depth) rest

variable {grammar : Grammar} {scanner : Scanner}

theorem ReadTo.refl (table : FunctionTable) (scanner : Scanner) :
    ReadTo table scanner [] scanner.unread scanner.names := ⟨[], rfl, .nil, rfl⟩

theorem ReadTo.trans {table : FunctionTable} {before middle : Scanner} {names others : List Bytes}
    {rest : Bytes} {noted : List Bytes}
    (hfirst : ReadTo table before names middle.unread middle.names)
    (hsecond : ReadTo table middle others rest noted) :
    ReadTo table before (names ++ others) rest noted := by
  obtain ⟨first, hunread, htokens, hnoted⟩ := hfirst
  obtain ⟨second, hunread', htokens', hnoted'⟩ := hsecond
  rw [hunread'] at htokens
  refine ⟨first ++ second, ?_, htokens.append htokens', ?_⟩
  · rw [hunread, hunread', List.append_assoc]
  · rw [hnoted', hnoted, List.reverse_append, List.append_assoc]

/-- Reading fails in front of the first token. -/
theorem Notices.of_error {α : Type} {names : α → List Bytes}
    {result : EStateM.Result Error Scanner α}
    (hresult : ∃ error after, result = .error error after ∧ after.names = scanner.names)
    (hhalts : ∀ deep, Halts grammar.functions (grammar.failure ≠ none) deep scanner.unread) :
    Notices grammar names scanner result := by
  obtain ⟨error, after, rfl, hnames⟩ := hresult
  exact ⟨[], scanner.unread, hnames ▸ ReadTo.refl _ scanner, hhalts _⟩

/-- Reading goes on behind the tokens that were read before it. -/
theorem ReadTo.map {α β : Type} {names : α → List Bytes} {names' : β → List Bytes}
    {middle : Scanner} {met : List Bytes} {read : Scan α} {wrap : α → β}
    (hread : ReadTo grammar.functions scanner met middle.unread middle.names)
    (hresult : Notices grammar names middle (read middle))
    (hnames : ∀ value, names' (wrap value) = met ++ names value) :
    Notices grammar names' scanner ((do return wrap (← read)) middle) := by
  cases hread' : read middle with
  | ok value after =>
      rw [hread'] at hresult
      rw [bind_ok hread']
      change ReadTo _ _ _ _ _
      rw [hnames]
      exact hread.trans hresult
  | error error after =>
      rw [hread'] at hresult
      rw [bind_error hread']
      obtain ⟨others, rest, hothers, hhalts⟩ := hresult
      exact ⟨met ++ others, rest, hread.trans hothers, hhalts⟩

theorem checkEnd_cases (grammar : Grammar) (scanner : Scanner) :
    checkEnd grammar scanner = .ok ⟨⟩ scanner ∨
      grammar.failure ≠ none ∧ scanner.unread = [] ∧
        checkEnd grammar scanner = .error (atEnd grammar) scanner := by
  unfold checkEnd
  split
  · next hcut =>
      rw [Bool.and_eq_true, List.isEmpty_iff, Option.isSome_iff_ne_none] at hcut
      exact Or.inr ⟨hcut.2, hcut.1, rfl⟩
  · exact Or.inl rfl

/-! ### Tokens -/

/-- A token is read as from a source that just ends, unless the source fails at its end and the
token comes up to it. -/
def EndsOrCut {α : Type} (grammar : Grammar) (names : List Bytes) (rest : Bytes)
    (result ending : EStateM.Result Error Scanner α) : Prop :=
  result = ending ∨
    grammar.failure ≠ none ∧ rest = [] ∧ ∃ error after, result = .error error after ∧
      after.names = names

theorem EndsOrCut.bind {α β : Type} {read ending : Scan α} {next next' : α → Scan β}
    {names : List Bytes} {rest : Bytes}
    (hends : EndsOrCut grammar names rest (read scanner) (ending scanner))
    (hnext : ∀ value after, ending scanner = .ok value after →
      next value after = next' value after) :
    EndsOrCut grammar names rest ((read >>= next) scanner) ((ending >>= next') scanner) := by
  rcases hends with hsame | ⟨hfailure, hrest, error, after, hcut, hnames⟩
  · refine Or.inl ?_
    cases hending : ending scanner with
    | ok value after =>
        rw [bind_ok (hsame.trans hending), bind_ok hending]
        exact hnext value after hending
    | error error after => rw [bind_error (hsame.trans hending), bind_error hending]
  · exact Or.inr ⟨hfailure, hrest, error, after, bind_error hcut, hnames⟩

section Tokens

variable {blank token rest : Bytes}

theorem number_endsOrCut {digits : Bytes} (hunread : scanner.unread = digits ++ rest)
    (hdigits : ∀ byte ∈ digits, Byte.isDigit byte = true) (hstops : Stops Byte.isDigit rest)
    (hvalue : Decimal.value digits < Decimal.signedBound) :
    EndsOrCut grammar scanner.names rest (number grammar scanner)
      (number grammar.ending scanner) := by
  have hread := literalDigits_value hdigits hstops scanner.position hvalue
  cases rest with
  | nil =>
      cases hfailure : grammar.failure with
      | none =>
          refine Or.inl ?_
          simp only [number, hunread, hread, hfailure, Grammar.ending, Option.isSome_none,
            Bool.false_eq_true, ↓reduceIte]
      | some text =>
          have hcut : number grammar scanner = .error (atEnd grammar)
              { scanner with unread := [], position := scanner.position.after digits } := by
            simp only [number, hunread, hread, hfailure, Option.isSome_some, ↓reduceIte]
          exact Or.inr ⟨by rw [hfailure]; exact Option.some_ne_none text, rfl, _, _, hcut, rfl⟩
  | cons byte others =>
      refine Or.inl ?_
      simp only [number, hunread, hread, Grammar.ending, errorAt]

theorem identifier_endsOrCut {name : Bytes} (hunread : scanner.unread = name ++ rest)
    (hname : ∀ byte ∈ name, Byte.isNameByte byte = true) (hstops : Stops Byte.isNameByte rest) :
    EndsOrCut grammar scanner.names rest (identifier grammar scanner)
      (identifier grammar.ending scanner) := by
  have hrun := takeRun_eq hunread hname hstops
  have hending := identifier_eq grammar.ending_failure hunread hname hstops
  rcases checkEnd_cases grammar
    { scanner with unread := rest, position := scanner.position.after name } with hend | hcut
  · exact Or.inl (((bind_ok hrun).trans (bind_ok hend)).trans hending.symm)
  · obtain ⟨hfailure, hrest, hend⟩ := hcut
    exact Or.inr ⟨hfailure, hrest, _, _, (bind_ok hrun).trans (bind_error hend), rfl⟩

/-- A word is read up to its end, where it is looked at whether the source goes on. -/
theorem head_upper (grammar : Grammar) {letter : UInt8} {others : Bytes}
    (hunread : scanner.unread = letter :: (others ++ rest)) (hupper : Byte.isUpper letter = true)
    (hothers : ∀ byte ∈ others, Byte.isWordByte byte = true)
    (hstops : Stops Byte.isWordByte rest) :
    head grammar letter scanner =
      (do
        checkEnd grammar
        if letter == 84 then return .literal (.boolean true)
        else if letter == 70 then return .literal (.boolean false)
        else if letter == 78 then return .literal .null
        else
          match grammar.functions.find? letter with
          | none => throw (errorAt grammar scanner.position (.unknownFunction letter) [])
          | some function => return .function function : Scan Head)
        { scanner with unread := rest, position := scanner.position.after (letter :: others) } := by
  unfold head
  refine (bind_ok rfl).trans ?_
  simp only [hupper, ↓reduceIte]
  refine (bind_ok (advance_eq hunread)).trans ?_
  exact bind_ok (takeRun_eq rfl hothers hstops)

theorem head_endsOrCut {letter : UInt8} {others : Bytes}
    (hunread : scanner.unread = letter :: (others ++ rest)) (hupper : Byte.isUpper letter = true)
    (hothers : ∀ byte ∈ others, Byte.isWordByte byte = true)
    (hstops : Stops Byte.isWordByte rest) :
    EndsOrCut grammar scanner.names rest (head grammar letter scanner)
      (head grammar.ending letter scanner) := by
  let middle : Scanner :=
    { scanner with unread := rest, position := scanner.position.after (letter :: others) }
  have hword (grammar : Grammar) := head_upper grammar hunread hupper hothers hstops
  rcases checkEnd_cases grammar middle with hend | hcut
  · refine Or.inl (((hword grammar).trans (bind_ok hend)).trans ?_)
    exact ((hword grammar.ending).trans (bind_ok (checkEnd_eq grammar.ending_failure middle))).symm
  · obtain ⟨hfailure, hrest, hend⟩ := hcut
    exact Or.inr ⟨hfailure, hrest, _, _, (hword grammar).trans (bind_error hend), rfl⟩

variable (hblank : Blank blank) (budget : Nat)

include hblank

theorem expression_atom_endsOrCut {tree : Tree}
    (hunread : scanner.unread = blank ++ (token ++ rest))
    (hatom : Atom rest token tree) :
    EndsOrCut grammar scanner.names rest (expression grammar budget scanner)
      (expression grammar.ending budget scanner) := by
  cases hatom with
  | number hne hdigits hstops hvalue =>
      obtain ⟨byte, others, rfl⟩ := List.exists_cons_of_ne_nil hne
      have hdigit := hdigits byte List.mem_cons_self
      rw [expression_of_isDigit hblank budget hunread hdigit,
        expression_of_isDigit hblank budget hunread hdigit]
      exact number_endsOrCut rfl hdigits hstops hvalue
  | @«variable» first others hname hothers hstops =>
      obtain ⟨-, -, -, hfirst⟩ := Byte.opens_of_isNameStart first hname
      rw [expression_of_isNameStart hblank budget hunread hname,
        expression_of_isNameStart hblank budget hunread hname]
      exact identifier_endsOrCut rfl (List.forall_mem_cons.mpr ⟨hfirst, hothers⟩) hstops
  | @text quote contents hquote hcontents =>
      have htext : quote :: (contents ++ [quote] ++ rest) =
          quote :: (contents ++ quote :: rest) := by simp
      rw [expression_of_quote hblank budget hunread hquote,
        expression_of_quote hblank budget hunread hquote]
      exact Or.inl ((quoted_eq htext hcontents).trans (quoted_eq htext hcontents).symm)
  | @word letter others _ hliteral hothers hstops =>
      have hupper := Byte.isUpper_of_wordLiteral? letter (by rw [hliteral]; rfl)
      have hhead := Byte.isHead_of_isUpper letter hupper
      rw [expression_of_isHead hblank budget hunread hhead,
        expression_of_isHead hblank budget hunread hhead]
      refine (head_endsOrCut rfl hupper hothers hstops).bind fun token after hread => ?_
      have hword (scanner : Scanner) (hunread : scanner.unread = letter :: (others ++ rest)) :=
        head_word grammar.ending_failure hunread hupper hothers hstops
      simp only [hliteral] at hword
      rw [hword _ rfl] at hread
      cases hread
      rfl

end Tokens

/-! ### Expressions -/

theorem noted_eq_of_atom {rest token : Bytes} {tree : Tree} (hatom : Atom rest token tree)
    (names : List Bytes) : noted tree names = tree.names.reverse ++ names := by
  cases hatom with
  | number _ _ _ _ => rfl
  | «variable» _ _ _ => rfl
  | text _ _ => rfl
  | word hliteral _ _ =>
      rw [noted_of_wordLiteral? hliteral]
      unfold wordLiteral? at hliteral
      split_ifs at hliteral <;> cases hliteral <;> rfl

section Shapes

variable {blank token rest : Bytes} (hblank : Blank blank) (budget : Nat)

theorem expression_void_error (hvoid : Void scanner.unread) :
    ∃ error after, expression grammar budget scanner = .error error after ∧
      after.names = scanner.names := by
  have hpeek : peekToken grammar scanner = .error (atEnd grammar)
      { scanner with unread := [], position := scanner.position.after scanner.unread } := by
    simp only [peekToken, skipBlank_void hvoid]
  rw [expression.eq_def]
  exact ⟨_, _, bind_error hpeek, rfl⟩

include hblank

theorem expression_atom_notices {tree : Tree} (hunread : scanner.unread = blank ++ (token ++ rest))
    (hatom : Atom rest token tree) :
    Notices grammar Tree.names scanner (expression grammar budget scanner) := by
  rcases expression_atom_endsOrCut hblank budget hunread hatom with hsame | hcut
  · rw [hsame, expression_atom grammar.ending_failure hblank budget hunread hatom]
    refine ⟨blank ++ token, ?_, .of_atom hblank hatom, noted_eq_of_atom hatom _⟩
    rw [hunread, List.append_assoc]
  · obtain ⟨hfailure, rfl, hresult⟩ := hcut
    refine .of_error hresult fun deep => ?_
    rw [hunread, List.append_nil]
    exact .cut hfailure hblank hatom

theorem expression_unclosed_error {quote : UInt8} {contents : Bytes}
    (hunread : scanner.unread = blank ++ quote :: contents) (hquote : quote = 34 ∨ quote = 39)
    (hcontents : quote ∉ contents) :
    ∃ error after, expression grammar budget scanner = .error error after ∧
      after.names = scanner.names :=
  ⟨_, _, (expression_of_quote hblank budget hunread hquote).trans (quoted_cut rfl hcontents), rfl⟩

theorem expression_wrong_error {reason : Reason}
    (hunread : scanner.unread = blank ++ (token ++ rest))
    (hwrong : Wrong grammar.functions rest token reason) :
    ∃ error after, expression grammar budget scanner = .error error after ∧
      after.names = scanner.names := by
  cases hwrong with
  | number hne hdigits hstops hvalue =>
      obtain ⟨byte, others, rfl⟩ := List.exists_cons_of_ne_nil hne
      rw [expression_of_isDigit hblank budget hunread (hdigits byte List.mem_cons_self)]
      let moved : Scanner :=
        { scanner with
          unread := byte :: (others ++ rest), position := scanner.position.after blank }
      have hmoved : moved.unread = byte :: others ++ rest := rfl
      obtain ⟨unread, position, hlarge⟩ := number_large hmoved hdigits hvalue
      exact ⟨_, _, hlarge, rfl⟩
  | @word letter others hupper hfree hfind hothers hstops =>
      have hhead := Byte.isHead_of_isUpper letter hupper
      have hliteral := (Byte.wordLiteral?_eq_none_iff letter hhead).mpr hfree
      rw [Option.isNone_iff_eq_none] at hliteral
      rw [expression_of_isHead hblank budget hunread hhead]
      let moved : Scanner :=
        { scanner with
          unread := letter :: (others ++ rest), position := scanner.position.after blank }
      have hends : EndsOrCut grammar moved.names rest (head grammar letter moved)
          (head grammar.ending letter moved) := head_endsOrCut rfl hupper hothers hstops
      have hword := head_word grammar.ending_failure (show moved.unread = _ from rfl) hupper hothers
        hstops
      have hnone : grammar.ending.functions.find? letter = none := hfind
      simp only [hliteral, hnone] at hword
      rcases hends with hsame | ⟨-, -, error, after, hcut, hnames⟩
      · exact ⟨_, _, bind_error (hsame.trans hword), rfl⟩
      · exact ⟨_, _, bind_error hcut, hnames⟩
  | @symbol byte hupper hfree hfind =>
      have hsymbol (scanner : Scanner) (hunread : scanner.unread = byte :: rest) :
          head grammar byte scanner =
            .error (errorAt grammar scanner.position (.unknownToken byte) []) scanner := by
        rw [head_symbol hunread hupper, hfind]
      rw [expression_of_isHead hblank budget hunread (Byte.isHead_of_free byte hfree)]
      exact ⟨_, _, bind_error (hsymbol _ rfl), rfl⟩

omit hblank in
/-- What is done at a function that is known: reading goes on behind it, or fails at it. -/
theorem head_function_endsOrCut {byte : UInt8} {others : Bytes} {function : Function}
    {moved : Scanner} (hmoved : moved.unread = byte :: (others ++ rest))
    (hnames : Names grammar.functions rest (byte :: others) function)
    (hfree : Byte.isReserved byte = false) :
    EndsOrCut grammar moved.names rest (head grammar byte moved)
      (.ok (.function function)
        { moved with unread := rest, position := moved.position.after (byte :: others) }) := by
  have hending := head_free grammar.ending_failure hmoved hnames hfree
  cases hnames with
  | word hupper _ hothers hstops =>
      have hends : EndsOrCut grammar moved.names rest (head grammar byte moved)
        (head grammar.ending byte moved) := head_endsOrCut hmoved hupper hothers hstops
      rwa [hending] at hends
  | symbol hupper hfind =>
      rw [head_symbol hmoved hupper, hfind]
      exact Or.inl rfl

end Shapes

theorem kind_argumentError {function : Function} {start : Position} {index : Nat} {error : Error}
    (hkind : error.kind = .depth) :
    (argumentError grammar function start index error).kind = .depth := by
  unfold argumentError
  split
  · next hend =>
      subst hend
      cases hkind
  · exact hkind

theorem arguments_notices {expression : Scan Tree}
    (hexpression : ∀ scanner, Notices grammar Tree.names scanner (expression scanner))
    (function : Function) (start : Position) (index count : Nat) (scanner : Scanner) :
    Notices grammar Tree.namesAll scanner
      (arguments grammar expression function start index count scanner) := by
  induction count generalizing index scanner with
  | zero => exact ReadTo.refl _ scanner
  | succ count ih =>
      have hfirst := hexpression scanner
      cases hresult : expression scanner with
      | error error after =>
          rw [hresult] at hfirst
          rw [arguments_of_error hresult]
          obtain ⟨met, rest, hread, hhalts⟩ := hfirst
          exact ⟨met, rest, hread, hhalts.weaken kind_argumentError⟩
      | ok tree middle =>
          rw [hresult] at hfirst
          rw [arguments_of_ok hresult]
          exact ReadTo.map hfirst (ih (index + 1) middle) fun _ => rfl

/-- An expression is read by reading whole tokens, however deep it nests. -/
theorem expression_notices (budget : Nat) (scanner : Scanner) :
    Notices grammar Tree.names scanner (expression grammar budget scanner) := by
  induction budget using Nat.strongRecOn generalizing scanner with
  | _ budget ih =>
      have hshape := shape_total grammar.functions scanner.unread
      generalize hunread : scanner.unread = unread at hshape
      cases hshape with
      | void hvoid =>
          subst hunread
          exact .of_error (expression_void_error budget hvoid) fun _ => .void hvoid
      | atom hblank hatom => exact expression_atom_notices hblank budget hunread hatom
      | unclosed hblank hquote hcontents =>
          refine .of_error (expression_unclosed_error hblank budget hunread hquote hcontents) ?_
          exact fun _ => hunread ▸ .unclosed hblank hquote hcontents
      | wrong hblank hwrong =>
          refine .of_error (expression_wrong_error hblank budget hunread hwrong) ?_
          exact fun _ => hunread ▸ .wrong hblank hwrong
      | @application blank others rest byte function hblank hnames hfree =>
          let moved : Scanner :=
            { scanner with
              unread := byte :: (others ++ rest), position := scanner.position.after blank }
          rw [expression_of_isHead hblank budget hunread (Byte.isHead_of_free byte hfree)]
          change Notices grammar Tree.names scanner ((head grammar byte >>= _) moved)
          have hhalts (deep : Prop) (hwhy : deep ∨ grammar.failure ≠ none ∧ rest = []) :
              Halts grammar.functions (grammar.failure ≠ none) deep scanner.unread :=
            hunread ▸ .function hblank hnames hwhy
          have hends : EndsOrCut grammar moved.names rest (head grammar byte moved) _ :=
            head_function_endsOrCut rfl hnames hfree
          rcases hends with hhead | ⟨hfailure, hrest, error, after, hcut, hsame⟩
          · rw [bind_ok hhead]
            cases budget with
            | zero => exact ⟨[], scanner.unread, ReadTo.refl _ scanner, hhalts _ (Or.inl rfl)⟩
            | succ budget =>
                have hread : ReadTo grammar.functions scanner [] rest scanner.names := by
                  have htokens :
                      Tokens grammar.functions rest (blank ++ (byte :: others ++ [])) [] :=
                    .head hblank hnames .nil
                  rw [List.append_nil] at htokens
                  exact ⟨_, by rw [hunread, List.append_assoc], htokens, rfl⟩
                have hargs := arguments_notices (fun scanner =>
                  ih budget (Nat.lt_succ_self budget) scanner)
                exact ReadTo.map hread (hargs function _ 1 _ _) fun _ => rfl
          · rw [bind_error hcut]
            refine .of_error ⟨error, after, rfl, hsame⟩ fun deep => ?_
            exact hhalts deep (Or.inr ⟨hfailure, hrest⟩)

end Scan

end KnightLang
