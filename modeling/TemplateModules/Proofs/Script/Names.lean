import Mathlib.Tactic.Common
import TemplateModules.Module.Binding
import TemplateModules.Proofs.Script.Scan

/-!
# The names that a script takes from outside

A script is read word by word.  A word is a name unless it is a keyword, a number or the name of a
property, which stands behind a point.  A name is declared as a parameter of a function or by `var`,
and what a function declares is known inside of it.  A name that is known nowhere around it is free:
it means what the surroundings of the script say.

The reader covers the part of the language that templates are written in: functions without names,
`var`, and expressions with ASCII words whose objects have quoted keys.
-/

namespace TemplateModules
namespace Script

open TemplateModules.Module

/-! ## Words -/

inductive Token where
  | word (word : String)
  | sign (c : Char)
  | literal (raw : List Char)
  deriving DecidableEq, Repr

/-- Whether a character goes on with a word that is read so far, which is given in reverse.  A point
goes on with a number. -/
def goesOn (word : List Char) (c : Char) : Bool :=
  continuesIdentifier c || (c == '.' && word.getLast?.any Char.isDigit)

/-- The word that is read so far, if there is one. -/
def flush (word : List Char) : List Token :=
  if word = [] then [] else [.word (String.ofList word.reverse)]

def tokensFrom : List Char → List Mark → List Token
  | word, [] => flush word
  | word, .char c :: ms =>
      if goesOn word c then tokensFrom (c :: word) ms else flush word ++ .sign c :: tokensFrom [] ms
  | word, .literal raw :: ms => flush word ++ .literal raw :: tokensFrom [] ms

/-- The words, signs and literals of a script. -/
def tokens (ms : List Mark) : List Token :=
  tokensFrom [] ms

/-! ## Reading -/

/-- Words that name nothing. -/
def keywords : List String :=
  ["break", "case", "catch", "class", "const", "continue", "debugger", "default", "delete", "do",
    "else", "enum", "export", "extends", "false", "finally", "for", "function", "if", "import", "in",
    "instanceof", "new", "null", "return", "super", "switch", "this", "throw", "true", "try", "typeof",
    "var", "void", "while", "with"]

/-- What a function that is being read goes on with. -/
inductive Phase where
  | ordinary
  /-- Behind the keyword: the parameters in parentheses. -/
  | parameters
  /-- Behind the parameters: the body in braces. -/
  | body (parameters : List String)
  deriving DecidableEq, Repr

/-- A pair of brackets that is open. -/
structure Level where
  /-- The names that are declared there, if it is the body of a function or its parameters. -/
  scope : Option (List String)
  phase : Phase
  /-- A comma is followed by another declaration. -/
  lists : Bool
  /-- The next word is declared. -/
  declares : Bool
  deriving DecidableEq, Repr

namespace Level

/-- Brackets in an expression. -/
def plain : Level :=
  { scope := none, phase := .ordinary, lists := false, declares := false }

/-- The parameters of a function. -/
def parameters : Level :=
  { scope := some [], phase := .ordinary, lists := true, declares := true }

/-- The body of a function. -/
def body (names : List String) : Level :=
  { scope := some names, phase := .ordinary, lists := false, declares := false }

/-- Nothing is being declared at a level, and no function is begun there. -/
def Idle (level : Level) : Prop :=
  level.phase = .ordinary ∧ level.lists = false ∧ level.declares = false

end Level

/-- Declares a name in the innermost function. -/
def declare (name : String) : List Level → List Level
  | [] => []
  | level :: levels =>
      match level.scope with
      | some names => { level with scope := some (name :: names) } :: levels
      | none => level :: declare name levels

/-- Whether a name is declared at one of several levels. -/
def knows (levels : List Level) (name : String) : Bool :=
  levels.any fun level => (level.scope.getD []).contains name

/-- Where the reading of a script stands. -/
structure Reader where
  /-- The brackets that are open, the innermost first, and the script itself. -/
  levels : List Level
  /-- A point has been read. -/
  property : Bool
  free : List String
  deriving DecidableEq, Repr

namespace Reader

def start : Reader :=
  { levels := [.body []], property := false, free := [] }

def readWord (r : Reader) (word : String) : Reader :=
  if r.property then { r with property := false }
  else if word.toList.head?.any Char.isDigit then r
  else
    match r.levels with
    | [] => r
    | level :: levels =>
        if level.declares then
          { r with levels := declare word ({ level with declares := false } :: levels) }
        else if word = "function" then
          { r with levels := { level with phase := .parameters } :: levels }
        else if word = "var" then
          { r with levels := { level with lists := true, declares := true } :: levels }
        else if keywords.contains word || knows r.levels word then r
        else { r with free := r.free ++ [word] }

/-- The levels behind an opening bracket. -/
def open? (c : Char) (level : Level) (levels : List Level) : Option (List Level) :=
  match c with
  | '(' =>
      if level.phase = .parameters then some (.parameters :: level :: levels)
      else some (.plain :: level :: levels)
  | '[' => some (.plain :: level :: levels)
  | '\x7b' =>
      match level.phase with
      | .body names => some (.body names :: { level with phase := .ordinary } :: levels)
      | _ => some (.plain :: level :: levels)
  | _ => none

/-- The levels behind a closing bracket.  Behind its parameters a function has its body. -/
def close (level : Level) : List Level → List Level
  | [] => []
  | outer :: levels =>
      if outer.phase = .parameters then
        { outer with phase := .body (level.scope.getD []) } :: levels
      else outer :: levels

def readSign (r : Reader) (c : Char) : Reader :=
  if c = ' ' ∨ c = '\n' then r
  else
    match r.levels with
    | [] => { r with property := c == '.' }
    | level :: levels =>
        match open? c level levels with
        | some levels => { r with levels, property := false }
        | none =>
            if isClosing c then { r with levels := close level levels, property := false }
            else if c = ',' then
              { r with levels := { level with declares := level.lists } :: levels, property := false }
            else if c = ';' then
              { r with levels := { level with lists := false, declares := false } :: levels,
                       property := false }
            else { r with property := c == '.' }

def read (r : Reader) : Token → Reader
  | .word word => r.readWord word
  | .sign c => r.readSign c
  | .literal _ => { r with property := false }

def readAll (r : Reader) (ts : List Token) : Reader :=
  ts.foldl read r

end Reader

/-- The free names of a script, in the order in which they are met. -/
def freeNames (ms : List Mark) : List String :=
  (Reader.start.readAll (tokens ms)).free

/-- A name stays free where it stands in a function that declares another one. -/
example : freeNames (chars "f(function(a, b) \x7b var c = a.d; return c || g; \x7d);".toList) =
    ["f", "g"] := by
  decide +kernel

/-! ## Words of joined scripts -/

/-- Whether a mark may be a part of a word. -/
def Mark.isWordly : Mark → Bool
  | .char c => continuesIdentifier c || c == '.'
  | .literal _ => false

theorem goesOn_of_not_isWordly {word : List Char} {c : Char} (h : (Mark.char c).isWordly = false) :
    goesOn word c = false := by
  simp only [Mark.isWordly, Bool.or_eq_false_iff] at h
  simp [goesOn, h.1, h.2]

section

variable {xs ys : List Mark}

theorem tokensFrom_of_front (word : List Char) (h : ∀ m ∈ ys.head?, m.isWordly = false) :
    tokensFrom word ys = flush word ++ tokens ys := by
  cases ys with
  | nil => simp [tokens, tokensFrom, flush]
  | cons m ys =>
      have hm := h m rfl
      cases m with
      | char c => simp [tokens, tokensFrom, goesOn_of_not_isWordly hm, flush]
      | literal raw => simp [tokens, tokensFrom, flush]

/-- No word goes from one script to another one that starts with no part of a word. -/
theorem tokens_append_of_front (h : ∀ m ∈ ys.head?, m.isWordly = false) :
    tokens (xs ++ ys) = tokens xs ++ tokens ys := by
  have hfrom : ∀ word, tokensFrom word (xs ++ ys) = tokensFrom word xs ++ tokens ys := by
    induction xs with
    | nil => exact fun word => tokensFrom_of_front word h
    | cons m xs ih =>
        intro word
        cases m with
        | char c =>
            rw [List.cons_append, tokensFrom, tokensFrom, ih, ih]
            split <;> simp
        | literal raw =>
            rw [List.cons_append, tokensFrom, tokensFrom, ih]
            simp
  exact hfrom []

/-- No word goes from a script that ends with no part of a word to another one. -/
theorem tokens_append_of_back (h : ∀ m ∈ xs.getLast?, m.isWordly = false) :
    tokens (xs ++ ys) = tokens xs ++ tokens ys := by
  have hfrom : ∀ word, (xs = [] → word = []) →
      tokensFrom word (xs ++ ys) = tokensFrom word xs ++ tokens ys := by
    induction xs with
    | nil =>
        intro word hword
        rw [hword rfl]
        rfl
    | cons m xs ih =>
        intro word _
        have hxs : ∀ n ∈ xs.getLast?, n.isWordly = false := by
          intro n hn
          have hlast : (m :: xs).getLast? = some n := by
            rw [List.getLast?_cons, Option.mem_def.mp hn]
            rfl
          exact h n hlast
        have hrest := ih hxs
        cases m with
        | char c =>
            by_cases hc : goesOn word c = true
            · have hmore : xs = [] → c :: word = [] := by
                rintro rfl
                have hlast : goesOn word c = false := goesOn_of_not_isWordly (h (.char c) rfl)
                rw [hc] at hlast
                cases hlast
              simp only [List.cons_append, tokensFrom, hc, if_true, hrest _ hmore]
            · simp [tokensFrom, hc, hrest [] fun _ => rfl]
        | literal raw => simp [tokensFrom, hrest [] fun _ => rfl]
  exact hfrom [] fun _ => rfl

/-- Characters that all go on with a word are one. -/
theorem tokens_chars_of_word
    {c : Char} {cs : List Char} (hc : continuesIdentifier c = true)
    (hcs : ∀ d ∈ cs, continuesIdentifier d = true ∨ d = '.' ∧ c.isDigit = true) :
    tokens (chars (c :: cs)) = [.word (String.ofList (c :: cs))] := by
  have hfrom : ∀ word : List Char, word.getLast? = some c →
      tokensFrom word (chars cs) = [.word (String.ofList (word.reverse ++ cs))] := by
    induction cs with
    | nil =>
        intro word hword
        have hne : word ≠ [] := by
          rintro rfl
          cases hword
        simp [tokensFrom, flush, hne]
    | cons d cs ih =>
        obtain ⟨hd, hmore⟩ := List.forall_mem_cons.mp hcs
        intro word hword
        have hgoes : goesOn word d = true := by
          rcases hd with hd | ⟨rfl, hdecimal⟩
          · simp [goesOn, hd]
          · simp [goesOn, hword, hdecimal]
        have hlast : (d :: word).getLast? = some c := by
          rw [List.getLast?_cons, hword]
          rfl
        rw [chars_cons, tokensFrom, if_pos hgoes, ih hmore _ hlast]
        simp
  have hstart : goesOn [] c = true := by simp [goesOn, hc]
  rw [tokens, chars_cons, tokensFrom, if_pos hstart, hfrom [c] rfl]
  rfl

end

/-! ## Reading without a trace -/

namespace Reader

variable {r : Reader} {ts : List Token}

theorem readAll_cons (r : Reader) (t : Token) (ts : List Token) :
    r.readAll (t :: ts) = (r.read t).readAll ts :=
  rfl

theorem readAll_append (r : Reader) (ts us : List Token) :
    r.readAll (ts ++ us) = (r.readAll ts).readAll us :=
  List.foldl_append

theorem readWord_of_digit
    {word : String} (h : word.toList.head?.any Char.isDigit = true) (levels : List Level)
    (free : List String) :
    readWord { levels, property := false, free } word = { levels, property := false, free } := by
  simp only [readWord, h, Bool.false_eq_true, if_false, if_true]

/-- A name that is known nowhere is free. -/
theorem readWord_of_unknown
    {word : String} {level : Level} {levels : List Level} (hdeclares : level.declares = false)
    (hdigit : word.toList.head?.any Char.isDigit = false) (hword : word ∉ keywords)
    (hknows : knows (level :: levels) word = false) (free : List String) :
    readWord { levels := level :: levels, property := false, free } word =
      { levels := level :: levels, property := false, free := free ++ [word] } := by
  have hfunction : word ≠ "function" := by
    rintro rfl
    exact hword (by decide)
  have hvar : word ≠ "var" := by
    rintro rfl
    exact hword (by decide)
  simp [readWord, hdigit, hdeclares, hfunction, hvar, hword, hknows]

/-- The names that are free already play no part in what is read. -/
theorem read_free (r : Reader) (found : List String) (t : Token) :
    ({ r with free := found ++ r.free } : Reader).read t =
      { r.read t with free := found ++ (r.read t).free } := by
  obtain ⟨levels, property, free⟩ := r
  cases t with
  | word word => cases levels <;> simp only [read, readWord] <;> split_ifs <;> simp
  | sign c =>
      cases levels with
      | nil => simp only [read, readSign]; split_ifs <;> rfl
      | cons level levels =>
          simp only [read, readSign]
          cases open? c level levels <;> split_ifs <;> rfl
  | literal raw => rfl

theorem readAll_free (r : Reader) (found : List String) (ts : List Token) :
    ({ r with free := found ++ r.free } : Reader).readAll ts =
      { r.readAll ts with free := found ++ (r.readAll ts).free } := by
  induction ts generalizing r with
  | nil => rfl
  | cons t ts ih => rw [readAll_cons, read_free, ih, readAll_cons]

end Reader

/-- How reading words and signs moves through plain brackets, if they declare nothing and their
names are among some given ones: whether a point has been read, and how many brackets are open. -/
def glance (names : List String) : Bool × Nat → Token → Option (Bool × Nat)
  | (property, depth), .word word =>
      if property || word.toList.head?.any Char.isDigit ||
        (word != "function" && word != "var" && (keywords.contains word || names.contains word))
      then some (false, depth)
      else none
  | (property, depth), .sign c =>
      if c = ' ' ∨ c = '\n' then some (property, depth)
      else if (closing? c).isSome then some (false, depth + 1)
      else if isClosing c then if depth = 0 then none else some (false, depth - 1)
      else some (c == '.', depth)
  | (_, depth), .literal _ => some (false, depth)

/-- Levels where nothing is being declared, and where each of some names is known or is one of those
that may be free. -/
structure Calm (names free : List String) (levels : List Level) : Prop where
  idle : ∃ level outer, levels = level :: outer ∧ level.Idle
  known : ∀ name ∈ names, knows levels name = true ∨ name ∈ free

theorem Level.idle_plain : Level.plain.Idle := ⟨rfl, rfl, rfl⟩

theorem Calm.plain {names free : List String} {levels : List Level} (h : Calm names free levels) :
    Calm names free (.plain :: levels) where
  idle := ⟨_, _, rfl, Level.idle_plain⟩
  known := by
    intro name hname
    refine (h.known name hname).imp_left fun hknown => ?_
    simpa [knows, Level.plain] using hknown

theorem Calm.replicate
    {names free : List String} {levels : List Level} (h : Calm names free levels) (depth : Nat) :
    Calm names free (List.replicate depth .plain ++ levels) := by
  induction depth with
  | zero => exact h
  | succ depth ih => exact ih.plain

section

variable {level : Level} {levels : List Level} {c : Char}

theorem open?_of_closing (hidle : level.Idle) (hc : (closing? c).isSome = true) :
    Reader.open? c level levels = some (.plain :: level :: levels) := by
  have hphase := hidle.1
  unfold closing? at hc
  unfold Reader.open?
  split at hc
  · simp [hphase]
  · simp
  · simp [hphase]
  · cases hc

theorem open?_of_not_closing (hc : (closing? c).isSome = false) :
    Reader.open? c level levels = none := by
  unfold Reader.open?
  split
  · cases hc
  · cases hc
  · cases hc
  · rfl

theorem close_of_idle {outer : Level} (h : outer.Idle) :
    Reader.close level (outer :: levels) = outer :: levels := by
  have hphase : outer.phase ≠ .parameters := by
    rw [h.1]
    decide
  simp [Reader.close, hphase]

end

section

variable {names free : List String} {base : List Level} {property property' : Bool}
  {depth depth' : Nat}

theorem readWord_of_glance
    {levels : List Level} (hlevels : Calm names free levels) {word : String}
    (h : glance names (property, depth) (.word word) = some (property', depth')) :
    property' = false ∧ depth' = depth ∧ ∃ found, (∀ name ∈ found, name ∈ free) ∧
      ∀ met, Reader.readWord { levels, property, free := met } word =
        { levels, property := false, free := met ++ found } := by
  obtain ⟨⟨level, outer, rfl, -, -, hdeclares⟩, hknown⟩ := hlevels
  simp only [glance, Bool.or_eq_true, Bool.and_eq_true, bne_iff_ne, Option.ite_none_right_eq_some,
    Option.some.injEq, Prod.mk.injEq] at h
  obtain ⟨hword, rfl, rfl⟩ := h
  refine ⟨rfl, rfl, ?_⟩
  by_cases hproperty : property = true
  · exact ⟨[], by simp, fun met => by simp [Reader.readWord, hproperty]⟩
  by_cases hdigit : word.toList.head?.any Char.isDigit = true
  · exact ⟨[], by simp, fun met => by simp [Reader.readWord, hproperty, hdigit]⟩
  obtain ⟨⟨hfunction, hvar⟩, hname⟩ := hword.resolve_left fun h => h.elim hproperty hdigit
  by_cases hnothing : keywords.contains word || knows (level :: outer) word
  · refine ⟨[], by simp, fun met => ?_⟩
    simp only [Reader.readWord, hproperty, hdigit, hdeclares, hfunction, hvar, hnothing]
    simp
  · simp only [Bool.or_eq_true, not_or, Bool.not_eq_true] at hnothing hproperty hdigit
    obtain ⟨hkeyword, hunknown⟩ := hnothing
    have hnew : word ∉ keywords := by simpa using hkeyword
    have hmem : word ∈ names := by simpa [hnew] using hname
    refine ⟨[word], ?_, fun met => ?_⟩
    · simpa [hunknown] using hknown word hmem
    · rw [hproperty]
      exact Reader.readWord_of_unknown hdeclares hdigit hnew hunknown met

theorem readSign_of_glance
    (hbase : Calm names free base) {c : Char}
    (h : glance names (property, depth) (.sign c) = some (property', depth')) (met : List String) :
    Reader.readSign { levels := List.replicate depth .plain ++ base, property, free := met } c =
      { levels := List.replicate depth' .plain ++ base, property := property', free := met } := by
  obtain ⟨level, outer, hlevels, hidle⟩ := (hbase.replicate depth).idle
  simp only [glance] at h
  split_ifs at h with hblank hopen hclosing hnone
  · cases h
    simp [Reader.readSign, hblank]
  · cases h
    simp [Reader.readSign, hblank, hlevels, open?_of_closing hidle hopen, List.replicate_succ]
  · cases h
    obtain ⟨depth, rfl⟩ := Nat.exists_eq_succ_of_ne_zero hnone
    obtain ⟨next, outer', hnext, hidle'⟩ := (hbase.replicate depth).idle
    have hsome : (closing? c).isSome = false := by simpa using hopen
    simp only [Reader.readSign, if_neg hblank, List.replicate_succ, List.cons_append, hnext,
      open?_of_not_closing hsome, if_pos hclosing, close_of_idle hidle', Nat.succ_eq_add_one,
      Nat.add_sub_cancel]
  · cases h
    have hsome : (closing? c).isSome = false := by simpa using hopen
    obtain ⟨scope, phase, lists, declares⟩ := level
    obtain ⟨rfl, rfl, rfl⟩ := hidle
    simp only [Reader.readSign, if_neg hblank, hlevels, open?_of_not_closing hsome, hclosing,
      Bool.false_eq_true, if_false]
    split_ifs with hcomma hend
    · rw [hcomma]
      rfl
    · rw [hend]
      rfl
    · rfl

/-- A reader in plain brackets moves as the glance says, and meets no free names but those that may
be free. -/
theorem read_of_glance
    (hbase : Calm names free base) {t : Token}
    (h : glance names (property, depth) t = some (property', depth')) :
    ∃ found, (∀ name ∈ found, name ∈ free) ∧
      ∀ met, Reader.read { levels := List.replicate depth .plain ++ base, property, free := met } t =
        { levels := List.replicate depth' .plain ++ base, property := property',
          free := met ++ found } := by
  cases t with
  | word word =>
      obtain ⟨hproperty, hdepth, hfound⟩ := readWord_of_glance (hbase.replicate depth) h
      rw [hproperty, hdepth]
      exact hfound
  | sign c =>
      refine ⟨[], by simp, fun met => ?_⟩
      rw [List.append_nil]
      exact readSign_of_glance hbase h met
  | literal raw =>
      cases h
      exact ⟨[], by simp, fun met => by simp [Reader.read]⟩

end

end Script
end TemplateModules
