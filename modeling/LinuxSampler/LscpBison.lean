import LinuxSampler.PartialLoop
import Mathlib.Algebra.Order.Ring.Int

/-!
# Push parser of the LSCP shell

`network/lscp.y` has a parser of its own over the tables that Bison
generates for `yyparse()`: `yyPushParse()` takes one character and the
stack of states, and `yyValidCharacters()` says how much of a line it
takes. The tables are not part of the sources; they are parameters here,
with the facts about them that Bison guarantees.

`yyparse()` is Bison's algorithm: what an automaton with these tables does
for a token, after `yylex()` has made the token of the character. Both
parsers are loops over reductions, which need not end for all tables.
-/

namespace LinuxSampler

namespace LscpShell

open PartialLoop

/-- The tables of a grammar; the terminal symbols are numbered from the end of the input
(`YYEOF`) on. -/
structure Tables where
  YYPACT_NINF : Int
  YYTABLE_NINF : Int
  YYLAST : Int
  YYFINAL : Int
  YYNTOKENS : Int
  YYNRULES : Int
  YYMAXUTOK : Int
  /-- The number that `yylex()` returns for all characters of eight bits. -/
  EXT_ASCII_CHAR : Int
  yypact : Int → Int
  yydefact : Int → Int
  yyr1 : Int → Int
  yyr2 : Int → Nat
  yypgoto : Int → Int
  yydefgoto : Int → Int
  yytable : Int → Int
  yycheck : Int → Int
  yytranslate : Int → Int
  /-- A row begins within the table. -/
  pact_range : ∀ state, yypact state = YYPACT_NINF ∨
    YYPACT_NINF < yypact state ∧ yypact state ≤ YYLAST
  /-- The rules have the numbers from one on; zero is no rule. -/
  defact_range : ∀ state, 0 ≤ yydefact state ∧ yydefact state ≤ YYNRULES
  /-- Characters come before the named tokens. -/
  ascii_le : 127 ≤ YYMAXUTOK

def YYEOF : Int := 0

/-- The number of the symbol for what is no token. -/
def YYUNDEFTOK : Int := 2

/-- The states of a parser. There is always one, as reductions push a state. -/
structure Stack where
  top : Int
  below : List Int
  deriving DecidableEq

namespace Stack

def push (stack : Stack) (state : Int) : Stack := ⟨state, stack.top :: stack.below⟩

/-- Removes states; all must not be removed. -/
def pop (stack : Stack) (len : Nat) : Option Stack :=
  match (stack.top :: stack.below).drop len with
  | [] => none
  | state :: below => some ⟨state, below⟩

end Stack

/-! ## Bison's parser -/

/-- What the automaton does in a state. -/
inductive Action where
  | shift (state : Int)
  | reduce (rule : Int)
  | accept
  | error

namespace Tables

def defaultAction (t : Tables) (state : Int) : Action :=
  if t.yydefact state = 0 then .error else .reduce (t.yydefact state)

/-- The table has an entry for the token in the row of the state. -/
def HasEntry (t : Tables) (state token : Int) : Prop :=
  (0 ≤ t.yypact state + token ∧ t.yypact state + token ≤ t.YYLAST) ∧
    t.yycheck (t.yypact state + token) = token

instance (t : Tables) (state token : Int) : Decidable (t.HasEntry state token) :=
  inferInstanceAs (Decidable (_ ∧ _))

/-- The entry of the table for the token. -/
def entry (t : Tables) (entry : Int) : Action :=
  if entry = 0 ∨ entry = t.YYTABLE_NINF then .error
  else if entry < 0 then .reduce (-entry)
  else if entry = t.YYFINAL then .accept
  else .shift entry

def action (t : Tables) (state token : Int) : Action :=
  if t.yypact state = t.YYPACT_NINF then t.defaultAction state
  else if t.HasEntry state token then t.entry (t.yytable (t.yypact state + token))
  else t.defaultAction state

/-- The state after a reduction to a symbol. -/
def goto (t : Tables) (state symbol : Int) : Int :=
  let i := t.yypgoto (symbol - t.YYNTOKENS) + state
  if (0 ≤ i ∧ i ≤ t.YYLAST) ∧ t.yycheck i = state then t.yytable i
  else t.yydefgoto (symbol - t.YYNTOKENS)

def reduce (t : Tables) (stack : Stack) (rule : Int) : Option Stack :=
  (stack.pop (t.yyr2 rule)).map fun s => s.push (t.goto s.top (t.yyr1 rule))

end Tables

/-- What becomes of a token. Accepting ends the parser. -/
inductive Outcome where
  | shifted (stack : Stack)
  | accepted (stack : Stack)
  | error
  | undefined
  deriving DecidableEq

def perform (t : Tables) (stack : Stack) : Action → Next Stack Outcome
  | .shift state => .done (.shifted (stack.push state))
  | .reduce rule =>
      match t.reduce stack rule with
      | some stack => .more stack
      | none => .done .undefined
  | .accept => .done (.accepted stack)
  | .error => .done .error

/-- `yyparse()` until it needs the next token, step by step. -/
def yyparse (t : Tables) (token : Int) (stack : Stack) : Next Stack Outcome :=
  perform t stack (t.action stack.top token)

/-- The number that the scanner returns for a character. -/
def yylex (t : Tables) (c : UInt8) : Int :=
  if c < 128 then c.toNat else t.EXT_ASCII_CHAR

/-- The terminal symbol of a number. -/
def symbol (t : Tables) (yychar : Int) : Int :=
  if yychar ≤ YYEOF then YYEOF
  else if yychar ≤ t.YYMAXUTOK then t.yytranslate yychar
  else YYUNDEFTOK

/-! ## Push parser -/

/-- What `yyPushParse()` does: it returns, throws a number, or reads outside of an array. -/
inductive Push where
  | returned (b : Bool) (stack : Stack)
  | threw (i : Nat)
  | undefined

/-- `_yyReduce()`. `none`: the stack is no longer than the right-hand side of the rule, which the
tables of a grammar exclude. The source throws there, or reads an empty vector. -/
def yyReduce (t : Tables) (stack : Stack) (rule : Int) : Option Stack :=
  match stack.pop (t.yyr2 rule) with
  | none => none
  | some stack =>
      let newState := t.yypgoto (t.yyr1 rule - t.YYNTOKENS) + stack.top
      if 0 ≤ newState ∧ newState ≤ t.YYLAST ∧ t.yycheck newState = stack.top then
        some (stack.push (t.yytable newState))
      else some (stack.push (t.yydefgoto (t.yyr1 rule - t.YYNTOKENS)))

/-- Back to `startLabel` with what has been reduced. -/
def again : Option Stack → Next Stack Push
  | some stack => .more stack
  | none => .done .undefined

/-- `_yyDefaultReduce()` -/
def yyDefaultReduce (t : Tables) (stack : Stack) : Next Stack Push :=
  let rule := t.yydefact stack.top
  if rule ≤ 0 ∨ t.YYNRULES ≤ rule then .done (.threw 3) else again (yyReduce t stack rule)

/-- The value of a `char`. -/
def char (c : UInt8) : Int := if c < 128 then c.toNat else c.toNat - 256

/-- The token for a character; `yytranslate` has no negative indices. -/
def translated (t : Tables) (ch : Int) : Option Int :=
  if ch = YYEOF then some YYEOF else if ch < 0 then none else some (t.yytranslate ch)

/-- `yyPushParse()` from `startLabel` on. -/
def yyPushParse (t : Tables) (ch : Int) (stack : Stack) : Next Stack Push :=
  let n := t.yypact stack.top
  if n = t.YYPACT_NINF then yyDefaultReduce t stack
  else if ¬(t.YYPACT_NINF < n ∧ n ≤ t.YYLAST) then .done (.returned false stack)
  else
    match translated t ch with
    | none => .done .undefined
    | some token =>
        let n := n + token
        if n < 0 ∨ t.YYLAST < n ∨ t.yycheck n ≠ token then yyDefaultReduce t stack
        else
          let action := t.yytable n
          if action = 0 ∨ action = t.YYTABLE_NINF then .done (.threw 4)
          else if action < 0 then again (yyReduce t stack (-action))
          else if action = t.YYFINAL then .done (.returned true stack)
          else .done (.returned true (stack.push action))

/-- The result of `yyValid()`, with the stack that is kept. -/
inductive Verdict where
  | valid (stack : Stack)
  | invalid
  | undefined
  deriving DecidableEq

/-- Exceptions make `yyValid()` return false. -/
def Push.verdict : Push → Verdict
  | .returned true stack => .valid stack
  | .returned false _ => .invalid
  | .threw _ => .invalid
  | .undefined => .undefined

def YYValid (t : Tables) (c : UInt8) (stack : Stack) (v : Verdict) : Prop :=
  Computes (yyPushParse t (char c)) Push.verdict stack v

/-- `yyValidCharacters()` without corrections returns `n`. -/
inductive YYValidCharacters (t : Tables) : Stack → List UInt8 → Nat → Prop
  | nil {stack : Stack} : YYValidCharacters t stack [] 0
  | valid {stack stack' : Stack} {c : UInt8} {line : List UInt8} {n : Nat}
      (h : YYValid t c stack (.valid stack')) (hrest : YYValidCharacters t stack' line n) :
      YYValidCharacters t stack (c :: line) (n + 1)
  | invalid {stack : Stack} {c : UInt8} {line : List UInt8} (h : YYValid t c stack .invalid) :
      YYValidCharacters t stack (c :: line) 0

/-! ## Meaning -/

/-- `yyparse()` gets the character and this becomes of it. -/
def Parses (t : Tables) (c : UInt8) (stack : Stack) (o : Outcome) : Prop :=
  Ends (yyparse t (symbol t (yylex t c))) stack o

/-- `n` is the length of the longest prefix of the line that `yyparse()` consumes without a
syntax error. -/
inductive Consumes (t : Tables) : Stack → List UInt8 → Nat → Prop
  | nil {stack : Stack} : Consumes t stack [] 0
  | shifted {stack stack' : Stack} {c : UInt8} {line : List UInt8} {n : Nat}
      (h : Parses t c stack (.shifted stack')) (hrest : Consumes t stack' line n) :
      Consumes t stack (c :: line) (n + 1)
  | accepted {stack stack' : Stack} {c : UInt8} {line : List UInt8}
      (h : Parses t c stack (.accepted stack')) : Consumes t stack (c :: line) 1
  | error {stack : Stack} {c : UInt8} {line : List UInt8} (h : Parses t c stack .error) :
      Consumes t stack (c :: line) 0

def Outcome.verdict : Outcome → Verdict
  | .shifted stack => .valid stack
  | .accepted stack => .valid stack
  | .error => .invalid
  | .undefined => .undefined

/-- Both parsers do the same with a character. -/
def Agrees (t : Tables) (c : UInt8) (stack : Stack) : Prop :=
  ∀ v, YYValid t c stack v ↔ ∃ o, Parses t c stack o ∧ o.verdict = v

end LscpShell

end LinuxSampler
