import Mathlib.Tactic.Common
import TemplateModules.Template.Call

/-!
# The grammar of calls

A call is a head, positional arguments, arguments with names, and perhaps the names of block
parameters.  Reading a tag accepts just the lexemes that are a call by these rules, and gives the
tree that they are.  There is one such tree, since it can be written out again.
-/

namespace TemplateModules
namespace Template

/-! ## Rules -/

/-- The lexeme of a literal. -/
def Literal.lexeme : Literal → Lexeme
  | .text value => .quoted value
  | .number numeral => .word numeral.text
  | .bool true => .word "true"
  | .bool false => .word "false"
  | .null => .word "null"
  | .undefined => .word "undefined"

mutual

/-- Lexemes that are an expression. -/
inductive IsExpr : List Lexeme → Expr → Prop where
  | literal (value : Literal) : IsExpr [value.lexeme] (.literal value)
  | path {word : String} {path : Path}
      (hword : ∀ value : Literal, value.lexeme ≠ .word word)
      (hpath : Path.ofWord? word = some path) :
      IsExpr [.word word] (.path path)
  | sub {hs ps ks : List Lexeme} {head : Expr} {params : List Expr} {hash : List (String × Expr)}
      (hhead : IsExpr hs head)
      (hparams : IsParams (ks.head?.or (some .closeParen)) ps params)
      (hhash : IsHash ks hash) :
      IsExpr (.openParen :: (hs ++ ps ++ ks) ++ [.closeParen]) (.sub { head, params, hash })

/-- Lexemes that are positional arguments in front of a certain lexeme, if one follows.  No argument
stands before an equals sign, and the word `as` does not stand before a bar. -/
inductive IsParams : Option Lexeme → List Lexeme → List Expr → Prop where
  | nil (next : Option Lexeme) : IsParams next [] []
  | cons {next : Option Lexeme} {ls ps : List Lexeme} {e : Expr} {params : List Expr}
      (he : IsExpr ls e) (hparams : IsParams next ps params)
      (hkey : ps.head?.or next ≠ some .equals)
      (has : ls = [.word "as"] → ps.head?.or next ≠ some .pipe) :
      IsParams next (ls ++ ps) (e :: params)

/-- Lexemes that are arguments with names. -/
inductive IsHash : List Lexeme → List (String × Expr) → Prop where
  | nil : IsHash [] []
  | cons {ls ks : List Lexeme} {e : Expr} {hash : List (String × Expr)} (key : String)
      (he : IsExpr ls e) (hhash : IsHash ks hash) :
      IsHash (.word key :: .equals :: (ls ++ ks)) ((key, e) :: hash)

end

/-- The lexemes of the names of block parameters. -/
def blockParamLexemes : List String → List Lexeme
  | [] => []
  | name :: names => .word "as" :: .pipe :: ((name :: names).map .word ++ [.pipe])

/-- Lexemes that are a call.  Block parameters stand at its end, where they are allowed. -/
def IsCall (allowed : Bool) (ls : List Lexeme) (call : Call) (names : List String) : Prop :=
  ∃ hs ps ks,
    ls = hs ++ (ps ++ (ks ++ blockParamLexemes names)) ∧
    IsExpr hs call.head ∧
    IsParams (ks ++ blockParamLexemes names).head? ps call.params ∧
    IsHash ks call.hash ∧
    (names ≠ [] → allowed = true)

/-! ## Writing out -/

mutual

/-- The lexemes of an expression. -/
def Expr.lexemes : Expr → List Lexeme
  | .path path => [.word path.text]
  | .literal value => [value.lexeme]
  | .sub call => .openParen :: call.lexemes ++ [.closeParen]

def Call.lexemes : Call → List Lexeme
  | { head, params, hash } => head.lexemes ++ paramLexemes params ++ hashLexemes hash

def paramLexemes : List Expr → List Lexeme
  | [] => []
  | e :: params => e.lexemes ++ paramLexemes params

def hashLexemes : List (String × Expr) → List Lexeme
  | [] => []
  | (key, e) :: hash => .word key :: .equals :: (e.lexemes ++ hashLexemes hash)

end

theorem text_of_ofWord? {word : String} {path : Path} (h : Path.ofWord? word = some path) :
    path.text = word := by
  unfold Path.ofWord? at h
  simp only at h
  split at h
  · contradiction
  · split at h <;> split at h
    · contradiction
    · rw [← Option.some.inj h]
    · contradiction
    · rw [← Option.some.inj h]

mutual

theorem IsExpr.eq_lexemes {ls : List Lexeme} {e : Expr} (h : IsExpr ls e) : ls = e.lexemes := by
  cases h with
  | literal value => rfl
  | path hword hpath => rw [Expr.lexemes, text_of_ofWord? hpath]
  | sub hhead hparams hhash =>
      rw [Expr.lexemes, Call.lexemes, ← hhead.eq_lexemes, ← hparams.eq_lexemes, ← hhash.eq_lexemes]

theorem IsParams.eq_lexemes
    {next : Option Lexeme} {ps : List Lexeme} {params : List Expr} (h : IsParams next ps params) :
    ps = paramLexemes params := by
  cases h with
  | nil => rfl
  | cons he hparams => rw [paramLexemes, ← he.eq_lexemes, ← hparams.eq_lexemes]

theorem IsHash.eq_lexemes
    {ks : List Lexeme} {hash : List (String × Expr)} (h : IsHash ks hash) :
    ks = hashLexemes hash := by
  cases h with
  | nil => rfl
  | cons key he hhash => rw [hashLexemes, ← he.eq_lexemes, ← hhash.eq_lexemes]

end

/-- A call is written out as its lexemes and the names of its block parameters. -/
theorem IsCall.eq_lexemes
    {allowed : Bool} {ls : List Lexeme} {call : Call} {names : List String}
    (h : IsCall allowed ls call names) :
    ls = call.lexemes ++ blockParamLexemes names := by
  obtain ⟨hs, ps, ks, rfl, hhead, hparams, hhash, -⟩ := h
  cases call
  rw [hhead.eq_lexemes, hparams.eq_lexemes, hhash.eq_lexemes, Call.lexemes]
  simp only [List.append_assoc]

/-! ## Words -/

/-- A word that is a literal is read as it. -/
theorem ofWord_of_lexeme {word : String} {value : Literal} (h : value.lexeme = .word word) :
    Expr.ofWord word = .ok (.literal value) := by
  unfold Expr.ofWord
  cases value with
  | text value => cases h
  | number numeral =>
      obtain ⟨text, hnumber⟩ := numeral
      obtain rfl : text = word := Lexeme.word.inj h
      have hne {other : String} (hother : isNumber other.toList = false) : text ≠ other := by
        rintro rfl
        rw [hnumber] at hother
        contradiction
      rw [if_neg (hne (by decide)), if_neg (hne (by decide)), if_neg (hne (by decide)),
        if_neg (hne (by decide)), dif_pos hnumber]
  | bool value =>
      cases value with
      | true => cases h; rfl
      | false => cases h; rfl
  | null => cases h; rfl
  | undefined => cases h; rfl

/-- A word that is no literal is read as a path. -/
theorem ofWord_of_ne_lexeme {word : String} (h : ∀ value : Literal, value.lexeme ≠ .word word) :
    Expr.ofWord word =
      match Path.ofWord? word with
      | some path => .ok (.path path)
      | none => .error (.invalidPath word) := by
  have htrue : word ≠ "true" := by
    rintro rfl
    exact h (.bool true) rfl
  have hfalse : word ≠ "false" := by
    rintro rfl
    exact h (.bool false) rfl
  have hnull : word ≠ "null" := by
    rintro rfl
    exact h .null rfl
  have hundefined : word ≠ "undefined" := by
    rintro rfl
    exact h .undefined rfl
  have hnumber : ¬ isNumber word.toList = true := by
    intro hnumber
    exact h (.number ⟨word, hnumber⟩) rfl
  unfold Expr.ofWord
  exact (if_neg htrue).trans <| (if_neg hfalse).trans <| (if_neg hnull).trans <|
    (if_neg hundefined).trans (dif_neg hnumber)

/-- A word is read just as the expression that it is. -/
theorem isExpr_of_ofWord {word : String} {e : Expr} (h : Expr.ofWord word = .ok e) :
    IsExpr [.word word] e := by
  by_cases hword : ∃ value : Literal, value.lexeme = .word word
  · obtain ⟨value, hvalue⟩ := hword
    rw [ofWord_of_lexeme hvalue] at h
    obtain rfl := Except.ok.inj h
    rw [← hvalue]
    exact .literal value
  · rw [not_exists] at hword
    rw [ofWord_of_ne_lexeme hword] at h
    split at h
    · next path hpath =>
        obtain rfl := Except.ok.inj h
        exact .path hword hpath
    · contradiction

/-! ## Steps of reading -/

/-- An expression is read, and certain lexemes are left. -/
def TakesExpr (ls : List Lexeme) (e : Expr) (rest : List Lexeme) : Prop :=
  ∃ h, readExpr ls = .ok (e, ⟨rest, h⟩)

def TakesCall
    (allowed : Bool) (ls : List Lexeme) (call : Call) (names : List String) (rest : List Lexeme) :
    Prop :=
  ∃ h, readCall allowed ls = .ok (call, names, ⟨rest, h⟩)

def TakesArguments
    (allowed named : Bool) (ls : List Lexeme) (args : Arguments) (rest : List Lexeme) : Prop :=
  ∃ h, readArguments allowed named ls = .ok (args, ⟨rest, h⟩)

theorem takesExpr_iff {ls rest : List Lexeme} {e : Expr} :
    TakesExpr ls e rest ↔
      (∃ word, ls = .word word :: rest ∧ Expr.ofWord word = .ok e) ∨
      (∃ text, ls = .quoted text :: rest ∧ e = .literal (.text text)) ∨
      ∃ inside call names,
        ls = .openParen :: inside ∧ TakesCall false inside call names (.closeParen :: rest) ∧
          e = .sub call := by
  constructor
  · rintro ⟨hlt, h⟩
    rw [readExpr.eq_def] at h
    split at h
    · contradiction
    · next word later =>
        split at h
        · contradiction
        · next e' he =>
            cases h
            exact .inl ⟨word, rfl, he⟩
    · next text later =>
        cases h
        exact .inr (.inl ⟨text, rfl, rfl⟩)
    · next inside =>
        split at h
        · contradiction
        · next call names later hlater hcall =>
            cases h
            exact .inr (.inr ⟨inside, call, names, rfl, ⟨hlater, hcall⟩, rfl⟩)
        · contradiction
    · contradiction
  · rintro (⟨word, rfl, he⟩ | ⟨text, rfl, rfl⟩ | ⟨inside, call, names, rfl, ⟨hlt, hcall⟩, rfl⟩)
    · refine ⟨by simp, ?_⟩
      rw [readExpr, he]
    · refine ⟨by simp, ?_⟩
      rw [readExpr]
    · refine ⟨by simp at hlt ⊢; omega, ?_⟩
      rw [readExpr]
      simp only [hcall]

theorem takesCall_iff
    {allowed : Bool} {ls rest : List Lexeme} {call : Call} {names : List String} :
    TakesCall allowed ls call names rest ↔
      ∃ middle,
        TakesExpr ls call.head middle ∧
        TakesArguments allowed false middle ⟨call.params, call.hash, names⟩ rest := by
  constructor
  · rintro ⟨hlt, h⟩
    rw [readCall] at h
    split at h
    · contradiction
    · next head middle hmiddle hhead =>
        split at h
        · contradiction
        · next args later hlater hargs =>
            cases h
            exact ⟨middle, ⟨hmiddle, hhead⟩, ⟨hlater, hargs⟩⟩
  · rintro ⟨middle, ⟨hmiddle, hhead⟩, ⟨hrest, hargs⟩⟩
    cases call
    refine ⟨by omega, ?_⟩
    rw [readCall]
    simp only [hhead, hargs]

/-- The names of block parameters are read up to their closing bar. -/
theorem blockParamNames?_eq_some {ls rest : List Lexeme} {names : List String} :
    blockParamNames? ls = some (names, rest) ↔ ls = names.map .word ++ .pipe :: rest := by
  constructor
  · intro h
    induction ls generalizing names with
    | nil => simp [blockParamNames?] at h
    | cons l ls ih =>
        unfold blockParamNames? at h
        split at h
        · next name tail heq =>
            cases heq
            simp only [Option.map_eq_some_iff, Prod.mk.injEq, Prod.exists] at h
            obtain ⟨names', later, hnames, rfl, rfl⟩ := h
            rw [ih hnames]
            rfl
        · next tail heq =>
            cases heq
            cases h
            rfl
        · contradiction
  · rintro rfl
    induction names with
    | nil => rfl
    | cons name names ih =>
        simp only [List.map_cons, List.cons_append, blockParamNames?, ih]
        rfl

/-- Arguments stop at the end or at a closing parenthesis. -/
def Stops (rest : List Lexeme) : Prop :=
  ∀ l ∈ rest.head?, l = .closeParen

/-- Lexemes start neither with a key nor with block parameters. -/
def NoClause (ls : List Lexeme) : Prop :=
  (∀ key rest, ls ≠ .word key :: .equals :: rest) ∧ ∀ rest, ls ≠ .word "as" :: .pipe :: rest

/-- Arguments are none, block parameters, or begin with one that has a name or with a positional
one. -/
theorem TakesArguments.cases
    {allowed named : Bool} {ls rest : List Lexeme} {args : Arguments}
    (h : TakesArguments allowed named ls args rest) :
    (ls = rest ∧ Stops rest ∧ args = .none) ∨
    (∃ name names,
      allowed = true ∧ ls = blockParamLexemes (name :: names) ++ rest ∧
        args = { Arguments.none with blockParams := name :: names }) ∨
    (∃ key value inside later args',
      ls = .word key :: .equals :: inside ∧ TakesExpr inside value later ∧
        TakesArguments allowed true later args' rest ∧ args = args'.addNamed key value) ∨
    ∃ value later args',
      named = false ∧ NoClause ls ∧ TakesExpr ls value later ∧
        TakesArguments allowed false later args' rest ∧ args = args'.addParam value := by
  obtain ⟨hlt, h⟩ := h
  rw [readArguments.eq_def] at h
  split at h
  · cases h
    exact .inl ⟨rfl, by simp [Stops], rfl⟩
  · cases h
    exact .inl ⟨rfl, by simp [Stops], rfl⟩
  · next tail =>
      split at h
      · next hallowed =>
          split at h
          · next name names later hnames =>
              cases h
              rw [blockParamNames?_eq_some.mp hnames]
              exact .inr (.inl ⟨name, names, hallowed, by simp [blockParamLexemes], rfl⟩)
          · contradiction
      · contradiction
  · next _ key inside =>
      split at h
      · contradiction
      · next value later hlater hvalue =>
          split at h
          · contradiction
          · next args' last hlast hargs =>
              cases h
              exact .inr (.inr (.inl
                ⟨key, value, inside, later, args', rfl, ⟨hlater, hvalue⟩, ⟨hlast, hargs⟩, rfl⟩))
  · next ls hnil hclose has hkey =>
      split at h
      · contradiction
      · next hnamed =>
          split at h
          · contradiction
          · next value later hlater hvalue =>
              split at h
              · contradiction
              · next args' last hlast hargs =>
                  cases h
                  exact .inr (.inr (.inr ⟨value, later, args', by simpa using hnamed,
                    ⟨hkey, has⟩, ⟨hlater, hvalue⟩, ⟨hlast, hargs⟩, rfl⟩))

theorem takesArguments_stop {rest : List Lexeme} (h : Stops rest) (allowed named : Bool) :
    TakesArguments allowed named rest ⟨[], [], []⟩ rest := by
  refine ⟨Nat.le_refl _, ?_⟩
  cases rest with
  | nil =>
      rw [readArguments]
      rfl
  | cons l rest =>
      obtain rfl := h l rfl
      rw [readArguments]
      rfl

theorem takesArguments_blockParams
    (named : Bool) (name : String) (names : List String) (rest : List Lexeme) :
    TakesArguments true named (blockParamLexemes (name :: names) ++ rest) ⟨[], [], name :: names⟩
      rest := by
  have hnames :
      blockParamNames? ((name :: names).map .word ++ [.pipe] ++ rest) =
        some (name :: names, rest) := by
    rw [blockParamNames?_eq_some, List.append_assoc, List.singleton_append]
  refine ⟨by simp [blockParamLexemes]; omega, ?_⟩
  simp only [blockParamLexemes, List.cons_append]
  rw [readArguments, if_pos rfl]
  split
  · next name' names' later hread =>
      rw [hnames] at hread
      cases hread
      rfl
  · next hnone => exact absurd hnames (hnone name names rest)

theorem takesArguments_named
    {allowed : Bool} {inside later rest : List Lexeme} {value : Expr} {args : Arguments}
    (hvalue : TakesExpr inside value later) (hargs : TakesArguments allowed true later args rest)
    (named : Bool) (key : String) :
    TakesArguments allowed named (.word key :: .equals :: inside) (args.addNamed key value)
      rest := by
  obtain ⟨hlater, hvalue⟩ := hvalue
  obtain ⟨hlast, hargs⟩ := hargs
  refine ⟨by simp; omega, ?_⟩
  rw [readArguments]
  simp only [hvalue, hargs]

theorem takesArguments_param
    {allowed : Bool} {ls later rest : List Lexeme} {value : Expr} {args : Arguments}
    (hclause : NoClause ls) (hvalue : TakesExpr ls value later)
    (hargs : TakesArguments allowed false later args rest) :
    TakesArguments allowed false ls (args.addParam value) rest := by
  obtain ⟨hlater, hvalue⟩ := hvalue
  obtain ⟨hlast, hargs⟩ := hargs
  refine ⟨by omega, ?_⟩
  rw [readArguments]
  · simp only [hvalue, hargs]
    rfl
  · rintro rfl
    rw [readExpr] at hvalue
    contradiction
  · rintro tail rfl
    rw [readExpr] at hvalue
    · contradiction
    · simp
    · simp
    · simp
  · exact hclause.2
  · exact hclause.1

theorem TakesExpr.length_lt {ls rest : List Lexeme} {e : Expr} (h : TakesExpr ls e rest) :
    rest.length < ls.length := by
  obtain ⟨hlt, -⟩ := h
  exact hlt

/-- No argument starts with an equals sign or a bar. -/
theorem TakesArguments.head?_ne
    {allowed named : Bool} {ls rest : List Lexeme} {args : Arguments}
    (h : TakesArguments allowed named ls args rest) :
    ls.head? ≠ some .equals ∧ ls.head? ≠ some .pipe := by
  obtain ⟨rfl, hstops, -⟩ | ⟨name, names, -, rfl, -⟩ | ⟨key, value, inside, later, args', rfl, -⟩ |
    ⟨value, later, args', -, -, hvalue, -⟩ := h.cases
  · constructor
    · intro hhead
      exact Lexeme.noConfusion (hstops _ hhead)
    · intro hhead
      exact Lexeme.noConfusion (hstops _ hhead)
  · simp [blockParamLexemes]
  · simp
  · obtain ⟨word, rfl, -⟩ | ⟨text, rfl, -⟩ | ⟨inside, call, names, rfl, -⟩ :=
      takesExpr_iff.mp hvalue
    · simp
    · simp
    · simp

/-! ## What is a call is read -/

theorem Literal.lexeme_cases (value : Literal) :
    (∃ word, value.lexeme = .word word) ∨ ∃ text, value = .text text := by
  cases value with
  | text text => exact .inr ⟨text, rfl⟩
  | number numeral => exact .inl ⟨_, rfl⟩
  | bool value =>
      cases value with
      | true => exact .inl ⟨_, rfl⟩
      | false => exact .inl ⟨_, rfl⟩
  | null => exact .inl ⟨_, rfl⟩
  | undefined => exact .inl ⟨_, rfl⟩

/-- An expression starts no clause where it can stand as a positional argument. -/
theorem IsExpr.noClause
    {ls later : List Lexeme} {e : Expr}
    (h : IsExpr ls e)
    (hkey : later.head? ≠ some .equals)
    (has : ls = [.word "as"] → later.head? ≠ some .pipe) :
    NoClause (ls ++ later) := by
  have hword {word : String} (hls : ls = [.word word]) : NoClause (ls ++ later) := by
    subst hls
    constructor
    · intro key rest heq
      obtain ⟨-, rfl⟩ := List.cons.inj heq
      exact hkey rfl
    · intro rest heq
      obtain ⟨hword, rfl⟩ := List.cons.inj heq
      exact has (by rw [hword]) rfl
  cases h with
  | literal value =>
      obtain ⟨word, hlexeme⟩ | ⟨text, rfl⟩ := value.lexeme_cases
      · exact hword (by rw [hlexeme])
      · simp [NoClause, Literal.lexeme]
  | path => exact hword rfl
  | sub => simp [NoClause]

/-- Arguments stop behind the names of block parameters, or where there are none. -/
theorem takesArguments_end
    {allowed : Bool} {names : List String} {rest : List Lexeme}
    (hallowed : names ≠ [] → allowed = true)
    (hstops : names = [] → Stops rest) (named : Bool) :
    TakesArguments allowed named (blockParamLexemes names ++ rest) ⟨[], [], names⟩ rest := by
  cases names with
  | nil => exact takesArguments_stop (hstops rfl) allowed named
  | cons name names =>
      rw [hallowed (List.cons_ne_nil _ _)]
      exact takesArguments_blockParams named name names rest

mutual

/-- An expression is read as the tree that it is, whatever follows. -/
theorem IsExpr.takes {ls : List Lexeme} {e : Expr} (h : IsExpr ls e) (rest : List Lexeme) :
    TakesExpr (ls ++ rest) e rest := by
  rw [takesExpr_iff]
  cases h with
  | literal value =>
      obtain ⟨word, hword⟩ | ⟨text, rfl⟩ := value.lexeme_cases
      · exact .inl ⟨word, by rw [hword]; rfl, ofWord_of_lexeme hword⟩
      · exact .inr (.inl ⟨text, rfl, rfl⟩)
  | path hword hpath =>
      refine .inl ⟨_, rfl, ?_⟩
      rw [ofWord_of_ne_lexeme hword, hpath]
  | @sub hs ps ks head params hash hhead hparams hhash =>
      -- The parenthesis stops the arguments, whether or not one with a name came last.
      have hend (named : Bool) :
          TakesArguments false named (.closeParen :: rest) ⟨[], [], []⟩ (.closeParen :: rest) :=
        takesArguments_stop (by simp [Stops]) false named
      have hargs := hparams.takes (by simp [List.head?_append]) (hhash.takes hend false)
      have hcall : TakesCall false (hs ++ (ps ++ (ks ++ .closeParen :: rest)))
          { head, params, hash } [] (.closeParen :: rest) :=
        takesCall_iff.mpr ⟨_, hhead.takes _, hargs⟩
      refine .inr (.inr ⟨_, _, _, ?_, hcall, rfl⟩)
      simp only [List.cons_append, List.append_assoc, List.nil_append]

theorem IsParams.takes
    {next : Option Lexeme} {ps : List Lexeme} {params : List Expr} (h : IsParams next ps params)
    {allowed : Bool} {later rest : List Lexeme} {hash : List (String × Expr)} {names : List String}
    (hnext : later.head? = next)
    (hlater : TakesArguments allowed false later ⟨[], hash, names⟩ rest) :
    TakesArguments allowed false (ps ++ later) ⟨params, hash, names⟩ rest := by
  cases h with
  | nil => exact hlater
  | cons he hparams hkey has =>
      rw [← hnext, ← List.head?_append] at hkey has
      rw [List.append_assoc]
      exact takesArguments_param (he.noClause hkey has) (he.takes _) (hparams.takes hnext hlater)

theorem IsHash.takes
    {ks : List Lexeme} {hash : List (String × Expr)} (h : IsHash ks hash)
    {allowed : Bool} {tail rest : List Lexeme} {names : List String}
    (htail : ∀ named, TakesArguments allowed named tail ⟨[], [], names⟩ rest) (named : Bool) :
    TakesArguments allowed named (ks ++ tail) ⟨[], hash, names⟩ rest := by
  cases h with
  | nil => exact htail named
  | cons key he hhash =>
      rw [List.cons_append, List.cons_append, List.append_assoc]
      exact takesArguments_named (he.takes _) (hhash.takes htail true) named key

end

theorem IsCall.takes
    {allowed : Bool} {ls : List Lexeme} {call : Call} {names : List String}
    (h : IsCall allowed ls call names) :
    TakesCall allowed ls call names [] := by
  obtain ⟨hs, ps, ks, rfl, hhead, hparams, hhash, hallowed⟩ := h
  have hend (named : Bool) :
      TakesArguments allowed named (blockParamLexemes names) ⟨[], [], names⟩ [] := by
    rw [← List.append_nil (blockParamLexemes names)]
    exact takesArguments_end hallowed (fun _ => by simp [Stops]) named
  have hargs := hparams.takes rfl (hhash.takes hend false)
  exact takesCall_iff.mpr ⟨_, hhead.takes _, hargs⟩

/-! ## What is read is a call -/

/-- Lexemes that are arguments in front of others.  The arguments end with block parameters, or
where reading stops. -/
def IsArguments (allowed : Bool) (ls : List Lexeme) (args : Arguments) (rest : List Lexeme) : Prop :=
  ∃ ps ks,
    ls = ps ++ (ks ++ (blockParamLexemes args.blockParams ++ rest)) ∧
    IsParams (ks ++ (blockParamLexemes args.blockParams ++ rest)).head? ps args.params ∧
    IsHash ks args.hash ∧
    (args.blockParams ≠ [] → allowed = true) ∧
    (args.blockParams = [] → Stops rest)

mutual

theorem TakesExpr.isExpr {ls rest : List Lexeme} {e : Expr} (h : TakesExpr ls e rest) :
    ∃ front, ls = front ++ rest ∧ IsExpr front e := by
  obtain ⟨word, rfl, he⟩ | ⟨text, rfl, rfl⟩ | ⟨inside, call, names, rfl, hcall, rfl⟩ :=
    takesExpr_iff.mp h
  · exact ⟨_, rfl, isExpr_of_ofWord he⟩
  · exact ⟨_, rfl, .literal (.text text)⟩
  · obtain ⟨head, params, hash⟩ := call
    obtain ⟨middle, hhead, hargs⟩ := takesCall_iff.mp hcall
    have := hhead.length_lt
    obtain ⟨hs, rfl, hexpr⟩ := hhead.isExpr
    obtain ⟨⟨ps, ks, rfl, hparams, hhash, hallowed, -⟩, -⟩ := hargs.isArguments
    obtain rfl : names = [] := by
      by_contra hnames
      exact Bool.noConfusion (hallowed hnames)
    simp only [blockParamLexemes, List.nil_append, List.head?_append, List.head?_cons] at hparams
    refine ⟨_, ?_, .sub hexpr hparams hhash⟩
    simp [blockParamLexemes]
termination_by 2 * ls.length

theorem TakesArguments.isArguments
    {allowed named : Bool} {ls rest : List Lexeme} {args : Arguments}
    (h : TakesArguments allowed named ls args rest) :
    IsArguments allowed ls args rest ∧ (named = true → args.params = []) := by
  obtain ⟨rfl, hstops, rfl⟩ | ⟨name, names, rfl, rfl, rfl⟩ |
    ⟨key, value, inside, later, args, rfl, hvalue, hargs, rfl⟩ |
    ⟨value, later, args, rfl, ⟨hkey, has⟩, hvalue, hargs, rfl⟩ := h.cases
  · exact ⟨⟨[], [], rfl, .nil _, .nil, fun hnames => absurd rfl hnames, fun _ => hstops⟩,
      fun _ => rfl⟩
  · exact ⟨⟨[], [], rfl, .nil _, .nil, fun _ => rfl, fun hnames => absurd hnames (by simp)⟩,
      fun _ => rfl⟩
  · have := hvalue.length_lt
    obtain ⟨front, rfl, he⟩ := hvalue.isExpr
    obtain ⟨⟨ps, ks, rfl, hparams, hhash, hallowed, hstops⟩, hnone⟩ := hargs.isArguments
    -- Behind an argument with a name no positional one is read.
    obtain rfl : ps = [] := by
      rw [hnone rfl] at hparams
      exact hparams.eq_lexemes
    refine ⟨⟨[], .word key :: .equals :: (front ++ ks), ?_, ?_, ?_, hallowed, hstops⟩, ?_⟩
    · simp [Arguments.addNamed]
    · rw [Arguments.addNamed, hnone rfl]
      exact .nil _
    · exact .cons key he hhash
    · intro _
      exact hnone rfl
  · have := hvalue.length_lt
    have hnext := hargs.head?_ne
    obtain ⟨front, rfl, he⟩ := hvalue.isExpr
    obtain ⟨⟨ps, ks, rfl, hparams, hhash, hallowed, hstops⟩, -⟩ := hargs.isArguments
    rw [List.head?_append] at hnext
    refine ⟨⟨front ++ ps, ks, ?_, ?_, hhash, hallowed, hstops⟩, ?_⟩
    · simp [Arguments.addParam]
    · exact .cons he hparams hnext.1 fun _ => hnext.2
    · intro hnamed
      contradiction
termination_by 2 * ls.length + 1

end

theorem TakesCall.isCall
    {allowed : Bool} {ls : List Lexeme} {call : Call} {names : List String}
    (h : TakesCall allowed ls call names []) :
    IsCall allowed ls call names := by
  obtain ⟨middle, hhead, hargs⟩ := takesCall_iff.mp h
  obtain ⟨hs, rfl, hexpr⟩ := hhead.isExpr
  obtain ⟨⟨ps, ks, rfl, hparams, hhash, hallowed, -⟩, -⟩ := hargs.isArguments
  simp only [List.append_nil] at hparams ⊢
  exact ⟨hs, ps, ks, rfl, hexpr, hparams, hhash, hallowed⟩

/-! ## Tags -/

theorem TakesCall.unique
    {allowed : Bool} {ls rest rest' : List Lexeme} {call call' : Call} {names names' : List String}
    (h : TakesCall allowed ls call names rest) (h' : TakesCall allowed ls call' names' rest') :
    call' = call ∧ names' = names := by
  obtain ⟨hlt, h⟩ := h
  obtain ⟨hlt', h'⟩ := h'
  rw [h] at h'
  cases h'
  exact ⟨rfl, rfl⟩

theorem parseCall_eq_ok {body : String} {allowed : Bool} {call : Call} {names : List String} :
    parseCall body allowed = .ok (call, names) ↔
      ∃ ls, Lexeme.ofBody body = .ok ls ∧ TakesCall allowed ls call names [] := by
  unfold parseCall
  constructor
  · intro h
    split at h
    · contradiction
    · next ls hls =>
        split at h
        · contradiction
        · next hlt hcall =>
            cases h
            exact ⟨ls, hls, hlt, hcall⟩
        · contradiction
  · rintro ⟨ls, hls, hlt, hcall⟩
    simp only [hls, hcall]

theorem partialName_eq_ok {ls rest : List Lexeme} {name : String} :
    partialName ls = .ok (name, rest) ↔
      ∃ first, ls = first :: rest ∧ (first = .word name ∨ first = .quoted name) := by
  constructor
  · intro h
    unfold partialName at h
    split at h
    · cases h
      exact ⟨_, rfl, .inl rfl⟩
    · cases h
      exact ⟨_, rfl, .inr rfl⟩
    · contradiction
    · contradiction
  · rintro ⟨first, rfl, rfl | rfl⟩
    · rfl
    · rfl

/-- Where no block parameters are allowed, none are read. -/
theorem TakesArguments.blockParams_eq_nil
    {named : Bool} {ls rest : List Lexeme} {args : Arguments}
    (h : TakesArguments false named ls args rest) :
    args.blockParams = [] := by
  obtain ⟨⟨ps, ks, -, -, -, hallowed, -⟩, -⟩ := h.isArguments
  by_contra hnames
  exact Bool.noConfusion (hallowed hnames)

theorem parseInclusion_eq_ok {body : String} {p : Inclusion} :
    parseInclusion body = .ok p ↔
      ∃ first rest,
        Lexeme.ofBody body = .ok (first :: rest) ∧ (first = .word p.name ∨ first = .quoted p.name) ∧
          TakesArguments false false rest ⟨p.context.toList, p.hash, []⟩ [] := by
  unfold parseInclusion
  constructor
  · intro h
    split at h
    · contradiction
    · next ls hls =>
        split at h
        · contradiction
        · next name rest hname =>
            split at h
            · contradiction
            · contradiction
            · next args hlt hargs =>
                have htakes : TakesArguments false false rest args [] := ⟨hlt, hargs⟩
                obtain ⟨first, rfl, hfirst⟩ := partialName_eq_ok.mp hname
                obtain ⟨params, hash, names⟩ := args
                obtain rfl : names = [] := htakes.blockParams_eq_nil
                split at h
                · next hparams =>
                    obtain rfl : params = [] := hparams
                    cases h
                    exact ⟨first, rest, hls, hfirst, htakes⟩
                · next context hparams =>
                    obtain rfl : params = [context] := hparams
                    cases h
                    exact ⟨first, rest, hls, hfirst, htakes⟩
                · contradiction
  · rintro ⟨first, rest, hls, hfirst, hlt, hargs⟩
    have hname : partialName (first :: rest) = .ok (p.name, rest) :=
      partialName_eq_ok.mpr ⟨first, rfl, hfirst⟩
    obtain ⟨name, context, hash⟩ := p
    simp only [hls, hname, hargs]
    cases context with
    | none => rfl
    | some context => rfl

/-- A tag is read as a call just where its lexemes are a call by the rules; then the tree that is
read is the only one they allow, and it is written with each lexeme once and in order.  A partial is
a name, at most one positional argument and arguments with names. -/
theorem reads_calls (body : String) (allowed : Bool) :
    (∀ call names,
      parseCall body allowed = .ok (call, names) ↔
        ∃ ls,
          Lexeme.ofBody body = .ok ls ∧
          ls = call.lexemes ++ blockParamLexemes names ∧
          IsCall allowed ls call names ∧
          ∀ call' names', IsCall allowed ls call' names' → call' = call ∧ names' = names) ∧
    ∀ p : Inclusion,
      parseInclusion body = .ok p ↔
        ∃ name ps ks,
          Lexeme.ofBody body = .ok (name :: (ps ++ ks)) ∧
          (name = .word p.name ∨ name = .quoted p.name) ∧
          IsParams ks.head? ps p.context.toList ∧
          IsHash ks p.hash := by
  constructor
  · intro call names
    rw [parseCall_eq_ok]
    constructor
    · rintro ⟨ls, hls, htakes⟩
      refine ⟨ls, hls, htakes.isCall.eq_lexemes, htakes.isCall, ?_⟩
      intro call' names' hcall'
      exact htakes.unique hcall'.takes
    · rintro ⟨ls, hls, -, hcall, -⟩
      exact ⟨ls, hls, hcall.takes⟩
  · intro p
    rw [parseInclusion_eq_ok]
    constructor
    · rintro ⟨name, rest, hls, hname, hargs⟩
      obtain ⟨⟨ps, ks, rfl, hparams, hhash, -⟩, -⟩ := hargs.isArguments
      simp only [blockParamLexemes, List.append_nil] at hls hparams
      exact ⟨name, ps, ks, hls, hname, hparams, hhash⟩
    · rintro ⟨name, ps, ks, hls, hname, hparams, hhash⟩
      have hend (named : Bool) : TakesArguments false named [] ⟨[], [], []⟩ [] :=
        takesArguments_stop (by simp [Stops]) false named
      have hargs := hparams.takes (by simp) (hhash.takes hend false)
      rw [List.append_nil] at hargs
      exact ⟨name, ps ++ ks, hls, hname, hargs⟩

end Template
end TemplateModules
