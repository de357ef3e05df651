import Mathlib.Data.List.Infix

/-!
# SQL conditions

Conditions of a `WHERE` clause as far as queries are put together from
pieces of text: comparisons of a column, numbers, parentheses, `AND` and
`OR`. The text is cut into tokens and parsed with the precedence that SQL
gives to `AND`; the parameters, written `?`, count from 1 in the order of
the text.

`Parses` says that tokens parse as a condition wherever they stand, so
that the condition of a text follows from its pieces.
-/

namespace LinuxSampler

namespace Sql

/-! ## Tokens -/

inductive Token where
  | word (s : List Char)
  | symbol (c : Char)
  | parameter
deriving DecidableEq

def isWordChar (c : Char) : Bool := c.isAlphanum || c == '_'

/-- The word that has been read. -/
def wordToken : List Char → List Token
  | [] => []
  | w => [.word w]

/-- The token of a character that is no part of a word. -/
def charToken (c : Char) : List Token :=
  if c = ' ' then [] else if c = '?' then [.parameter] else [.symbol c]

/-- `w` is the word that has begun. -/
def lexFrom (w : List Char) : List Char → List Token
  | [] => wordToken w
  | c :: s =>
      if isWordChar c then lexFrom (w ++ [c]) s else wordToken w ++ charToken c ++ lexFrom [] s

def lex (s : List Char) : List Token := lexFrom [] s

theorem lexFrom_append (w a : List Char) {c : Char} (b : List Char) (hc : isWordChar c = false) :
    lexFrom w (a ++ c :: b) = lexFrom w a ++ charToken c ++ lex b := by
  induction a generalizing w with
  | nil => simp [lexFrom, hc, lex]
  | cons x a ih =>
      rw [List.cons_append, lexFrom, lexFrom]
      split
      · exact ih _
      · rw [ih]
        simp

/-- A character that is no part of a word separates what is before it from the rest. -/
theorem lex_append_cons (a : List Char) {c : Char} (b : List Char) (hc : isWordChar c = false) :
    lex (a ++ c :: b) = lex a ++ charToken c ++ lex b := lexFrom_append [] a b hc

/-- A text that ends with such a character does not depend on what follows. -/
theorem lex_concat_append (a : List Char) {c : Char} (b : List Char) (hc : isWordChar c = false) :
    lex (a ++ [c] ++ b) = lex (a ++ [c]) ++ lex b := by
  rw [List.append_assoc, List.singleton_append, lex_append_cons a b hc, lex_append_cons a [] hc]
  simp [lex, lexFrom, wordToken]

/-- What follows the text does not change its tokens. -/
def Closed (s : List Char) : Prop := ∀ t, lex (s ++ t) = lex s ++ lex t

theorem closed_concat (a : List Char) {c : Char} (hc : isWordChar c = false) : Closed (a ++ [c]) :=
  fun t => lex_concat_append a t hc

theorem lex_append_blank (a b : List Char) : lex (a ++ ' ' :: b) = lex a ++ lex (' ' :: b) :=
  (lex_append_cons a b rfl).trans (List.append_assoc _ _ _)

theorem lexFrom_word (w : List Char) {s : List Char} (hs : ∀ c ∈ s, isWordChar c = true) :
    lexFrom w s = wordToken (w ++ s) := by
  induction s generalizing w with
  | nil => rw [List.append_nil, lexFrom]
  | cons c s ih =>
      rw [lexFrom, if_pos (hs c List.mem_cons_self),
        ih _ fun c' hc' => hs c' (List.mem_cons_of_mem _ hc')]
      simp

theorem lex_word {s : List Char} (hs : ∀ c ∈ s, isWordChar c = true) (hne : s ≠ []) :
    lex s = [.word s] := by
  rw [lex, lexFrom_word [] hs, List.nil_append]
  cases s with
  | nil => exact absurd rfl hne
  | cons c s => rfl

/-! ## Conditions -/

inductive Op where
  | eq
  | ne
  | lt
  | gt
  | like
  | regexp
deriving DecidableEq

inductive Operand where
  | parameter (k : Nat)
  | number (n : Int)
deriving DecidableEq

inductive Cond where
  | number (n : Nat)
  | compare (column : List Char) (op : Op) (arg : Operand)
  | and (c d : Cond)
  | or (c d : Cond)
deriving DecidableEq

/-- The condition holds under a meaning of the comparisons. A number is false if it is zero. -/
def Cond.Holds (meaning : List Char → Op → Operand → Prop) : Cond → Prop
  | .number n => n ≠ 0
  | .compare column op arg => meaning column op arg
  | .and c d => c.Holds meaning ∧ d.Holds meaning
  | .or c d => c.Holds meaning ∨ d.Holds meaning

def numeral (w : List Char) : Option Nat :=
  if w ≠ [] ∧ w.all Char.isDigit then some (Nat.ofDigitChars 10 w 0) else none

def parseOperand (k : Nat) : List Token → Option (Operand × Nat × List Token)
  | .parameter :: ts => some (.parameter k, k + 1, ts)
  | .word w :: ts => (numeral w).map fun n : Nat => (.number n, k, ts)
  | .symbol '-' :: .word w :: ts => (numeral w).map fun n : Nat => (.number (-n), k, ts)
  | _ => none

def keyword (s : String) : Token := .word s.toList

def Op.tokens : Op → List Token
  | .eq => [.symbol '=']
  | .ne => [.symbol '!', .symbol '=']
  | .lt => [.symbol '<']
  | .gt => [.symbol '>']
  | .like => [keyword "LIKE"]
  | .regexp => [keyword "regexp"]

/-- A comparison, or a number. -/
def parseComparison (k : Nat) : List Token → Option (Cond × Nat × List Token)
  | .word w :: ts =>
      let compare (op : Op) (ts : List Token) :=
        (parseOperand k ts).map fun (arg, k, ts) => (Cond.compare w op arg, k, ts)
      match ts with
      | .symbol '=' :: ts => compare .eq ts
      | .symbol '!' :: .symbol '=' :: ts => compare .ne ts
      | .symbol '<' :: ts => compare .lt ts
      | .symbol '>' :: ts => compare .gt ts
      | t :: ts' =>
          if t = keyword "LIKE" then compare .like ts'
          else if t = keyword "regexp" then compare .regexp ts'
          else (numeral w).map fun n => (.number n, k, ts)
      | [] => (numeral w).map fun n => (.number n, k, ts)
  | _ => none

/-- What is parsed: a comparison or parentheses, a conjunction, or a disjunction. -/
inductive Level where
  | term
  | and
  | or

/-- `k` is the number of the next parameter. -/
def parse : Nat → Level → Nat → List Token → Option (Cond × Nat × List Token)
  | 0, _, _, _ => none
  | fuel + 1, .term, k, ts =>
      if ts.head? = some (.symbol '(') then do
        let (c, k, ts) ← parse fuel .or k ts.tail
        if ts.head? = some (.symbol ')') then some (c, k, ts.tail) else none
      else parseComparison k ts
  | fuel + 1, .and, k, ts => do
      let (c, k, ts) ← parse fuel .term k ts
      match ts with
      | t :: ts' =>
          if t = keyword "AND" then do
            let (d, k, ts) ← parse fuel .and k ts'
            some (.and c d, k, ts)
          else some (c, k, ts)
      | [] => some (c, k, [])
  | fuel + 1, .or, k, ts => do
      let (c, k, ts) ← parse fuel .and k ts
      match ts with
      | t :: ts' =>
          if t = keyword "OR" then do
            let (d, k, ts) ← parse fuel .or k ts'
            some (.or c d, k, ts)
          else some (c, k, ts)
      | [] => some (c, k, [])

/-- More fuel does not change the result. -/
theorem parse_succ {fuel : Nat} {l : Level} {k : Nat} {ts : List Token}
    {r : Cond × Nat × List Token} (h : parse fuel l k ts = some r) :
    parse (fuel + 1) l k ts = some r := by
  induction fuel generalizing l k ts r with
  | zero => cases h
  | succ fuel ih =>
      have hbind {l' : Level} {k' : Nat} {ts' : List Token}
          {f : Cond × Nat × List Token → Option (Cond × Nat × List Token)}
          (hf : (parse fuel l' k' ts').bind f = some r) :
          (parse (fuel + 1) l' k' ts').bind f = some r := by
        obtain ⟨x, hx, hfx⟩ := Option.bind_eq_some_iff.mp hf
        rw [ih hx, Option.bind_some, hfx]
      cases l with
      | term =>
          unfold parse at h ⊢
          split
          · next ht =>
            rw [if_pos ht] at h
            exact hbind h
          · next ht => rwa [if_neg ht] at h
      | and =>
          unfold parse at h ⊢
          obtain ⟨⟨c, k₁, ts₁⟩, hc, hrest⟩ := Option.bind_eq_some_iff.mp h
          rw [ih hc]
          cases ts₁ with
          | nil => exact hrest
          | cons t ts' =>
              simp only [Option.bind_eq_bind, Option.bind_some] at hrest ⊢
              split
              · next ht =>
                rw [if_pos ht] at hrest
                exact hbind hrest
              · next ht => rwa [if_neg ht] at hrest
      | or =>
          unfold parse at h ⊢
          obtain ⟨⟨c, k₁, ts₁⟩, hc, hrest⟩ := Option.bind_eq_some_iff.mp h
          rw [ih hc]
          cases ts₁ with
          | nil => exact hrest
          | cons t ts' =>
              simp only [Option.bind_eq_bind, Option.bind_some] at hrest ⊢
              split
              · next ht =>
                rw [if_pos ht] at hrest
                exact hbind hrest
              · next ht => rwa [if_neg ht] at hrest

theorem parse_mono {n m : Nat} {l : Level} {k : Nat} {ts : List Token}
    {r : Cond × Nat × List Token} (h : parse n l k ts = some r) (hnm : n ≤ m) :
    parse m l k ts = some r := by
  induction hnm with
  | refl => exact h
  | step _ ih => exact parse_succ ih

/-- The tokens are a condition with `n` parameters. -/
def IsCondition (ts : List Token) (c : Cond) (n : Nat) : Prop :=
  ∃ fuel, parse fuel .or 1 ts = some (c, n + 1, [])

theorem IsCondition.unique {ts : List Token} {c d : Cond} {n m : Nat} (hc : IsCondition ts c n)
    (hd : IsCondition ts d m) : c = d ∧ n = m := by
  obtain ⟨f, hf⟩ := hc
  obtain ⟨g, hg⟩ := hd
  have h := (parse_mono hf (Nat.le_max_left f g)).symm.trans (parse_mono hg (Nat.le_max_right f g))
  injection h with h
  injection h with hcond h
  injection h with hcount h
  exact ⟨hcond, Nat.succ.inj hcount⟩

/-! ## Pieces -/

/-- What may follow, so that no more is read. -/
def Stops : Level → List Token → Prop
  | .term, _ => True
  | .and, ts => ts.head? ≠ some (keyword "AND")
  | .or, ts => ts.head? ≠ some (keyword "AND") ∧ ts.head? ≠ some (keyword "OR")

/-- The tokens parse as the condition, with the parameters from `k` to before `k'`. -/
def Parses (l : Level) (k : Nat) (ts : List Token) (c : Cond) (k' : Nat) : Prop :=
  ∃ fuel, ∀ rest, Stops l rest → parse fuel l k (ts ++ rest) = some (c, k', rest)

namespace Parses

variable {k k₁ k' : Nat} {ts ts' : List Token} {c d : Cond}

theorem isCondition (h : Parses .or 1 ts c (k + 1)) : IsCondition ts c k := by
  obtain ⟨f, hf⟩ := h
  have := hf [] ⟨by simp, by simp⟩
  rw [List.append_nil] at this
  exact ⟨f, this⟩

theorem and_of_term (h : Parses .term k ts c k') : Parses .and k ts c k' := by
  obtain ⟨f, hf⟩ := h
  refine ⟨f + 1, fun rest hrest => ?_⟩
  unfold parse
  rw [hf rest trivial, Option.bind_eq_bind, Option.bind_some]
  cases rest with
  | nil => rfl
  | cons t rest => exact if_neg fun ht => hrest (congrArg some ht)

theorem or_of_and (h : Parses .and k ts c k') : Parses .or k ts c k' := by
  obtain ⟨f, hf⟩ := h
  refine ⟨f + 1, fun rest hrest => ?_⟩
  unfold parse
  rw [hf rest hrest.1, Option.bind_eq_bind, Option.bind_some]
  cases rest with
  | nil => rfl
  | cons t rest => exact if_neg fun ht => hrest.2 (congrArg some ht)

theorem and (hc : Parses .term k ts c k₁) (hd : Parses .and k₁ ts' d k') :
    Parses .and k (ts ++ keyword "AND" :: ts') (.and c d) k' := by
  obtain ⟨f, hf⟩ := hc
  obtain ⟨g, hg⟩ := hd
  refine ⟨max f g + 1, fun rest hrest => ?_⟩
  unfold parse
  rw [List.append_assoc, parse_mono (hf _ trivial) (Nat.le_max_left f g), Option.bind_eq_bind,
    Option.bind_some]
  simp only [List.cons_append, if_true]
  rw [parse_mono (hg rest hrest) (Nat.le_max_right f g)]
  rfl

theorem or (hc : Parses .and k ts c k₁) (hd : Parses .or k₁ ts' d k') :
    Parses .or k (ts ++ keyword "OR" :: ts') (.or c d) k' := by
  obtain ⟨f, hf⟩ := hc
  obtain ⟨g, hg⟩ := hd
  have hstops : Stops .and (keyword "OR" :: ts') := by simp [Stops, keyword]
  refine ⟨max f g + 1, fun rest hrest => ?_⟩
  unfold parse
  have hf := hf (keyword "OR" :: (ts' ++ rest)) (by simp [Stops, keyword])
  rw [List.append_assoc, List.cons_append, parse_mono hf (Nat.le_max_left f g),
    Option.bind_eq_bind, Option.bind_some]
  simp only [if_true]
  rw [parse_mono (hg rest hrest) (Nat.le_max_right f g)]
  rfl

theorem paren (h : Parses .or k ts c k') :
    Parses .term k (.symbol '(' :: ts ++ [.symbol ')']) c k' := by
  obtain ⟨f, hf⟩ := h
  refine ⟨f + 1, fun rest _ => ?_⟩
  have hf := hf (.symbol ')' :: rest) ⟨by simp [keyword], by simp [keyword]⟩
  rw [List.append_assoc, List.singleton_append, List.cons_append]
  unfold parse
  rw [List.head?_cons, if_pos rfl, List.tail_cons, hf]
  rfl

theorem comparison (h : ∀ rest, parseComparison k (ts ++ rest) = some (c, k', rest))
    (hparen : ∀ rest, (ts ++ rest).head? ≠ some (.symbol '(')) : Parses .term k ts c k' := by
  refine ⟨1, fun rest _ => ?_⟩
  unfold parse
  rw [if_neg (hparen rest), h rest]

theorem compare {w : List Char} {op : Op} {arg : Operand}
    (h : ∀ rest, parseOperand k (ts ++ rest) = some (arg, k', rest)) :
    Parses .term k (.word w :: op.tokens ++ ts) (.compare w op arg) k' := by
  refine comparison (fun rest => ?_) fun rest => by simp
  cases op <;> simp [parseComparison, Op.tokens, h, keyword]

end Parses

end Sql

end LinuxSampler
