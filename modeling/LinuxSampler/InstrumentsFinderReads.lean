import LinuxSampler.InstrumentsFinder

/-!
# The meaning of a search

The text that `DirectoryFinder` and `InstrumentFinder` put together is a
condition, and its placeholders are the parameters in their order. What
the condition says of a row is what the fields of the search ask for.

`Means` relates the tokens of a piece, and the parameters that come with
it, to what the piece says. `Reads` is the invariant of the text that has
been emitted: another condition may follow it.
-/

namespace LinuxSampler

namespace InstrumentsFinder

open Sql

/-! ## Rows -/

inductive Value where
  | int (n : ℤ)
  | text (s : Bytes)

/-- A row. That a column is `LIKE` `"%s%"` means that it contains `s`. -/
structure Row where
  text : List Char → Bytes
  compare : List Char → Op → Value → Prop
  compare_like : ∀ column s, compare column .like (.text (like s)) ↔ s <:+: text column

/-- The first parameter is the directory, the others are `Params`. -/
def argument (dirId : ℤ) (params : List Bytes) : Operand → Option Value
  | .number n => some (.int n)
  | .parameter 0 => none
  | .parameter 1 => some (.int dirId)
  | .parameter (k + 2) => params[k]?.map .text

namespace Row

def meaning (R : Row) (dirId : ℤ) (params : List Bytes) (column : List Char) (op : Op)
    (arg : Operand) : Prop :=
  ∃ v, argument dirId params arg = some v ∧ R.compare column op v

/-- The column contains all parts of one of the words. -/
def Matches (R : Row) (col : Column) (pattern : Bytes) : Prop :=
  if pattern = [] then True
  else if isRegex pattern then R.compare col.name .regexp (.text pattern)
  else if words pattern = [] then pattern <:+: R.text col.name
  else ∃ w ∈ words pattern, parts w ≠ [] ∧ ∀ part ∈ parts w, part <:+: R.text col.name

/-- The comparison holds, unless the text is empty. -/
def Asks (R : Row) (column : String) (op : Op) (s : Bytes) : Prop :=
  s ≠ [] → R.compare column.toList op (.text s)

def Dated (R : Row) (q : SearchQuery) : Prop :=
  R.Asks "created" .gt q.createdAfter ∧ R.Asks "created" .lt q.createdBefore ∧
    R.Asks "modified" .gt q.modifiedAfter ∧ R.Asks "modified" .lt q.modifiedBefore

/-- A size of -1 asks for nothing. -/
def Sized (R : Row) (op : Op) (size : ℤ) : Prop :=
  size ≠ -1 → R.compare "instr_size".toList op (.int size)

def Typed (R : Row) (type : InstrumentType) : Prop :=
  match type with
  | .chromatic => R.compare "is_drum".toList .eq (.int 0)
  | .drum => R.compare "is_drum".toList .ne (.int 0)
  | .both => True

def OfFamily (R : Row) (families : List Bytes) : Prop :=
  families ≠ [] → ∃ family ∈ families, R.compare "format_family".toList .eq (.text family)

/-- What is asked of a directory, but for the patterns. -/
def IsDirectory (R : Row) (dirId : ℤ) (q : SearchQuery) : Prop :=
  R.compare "dir_id".toList .ne (.int 0) ∧ R.compare "parent_dir_id".toList .eq (.int dirId) ∧
    R.Dated q

/-- What is asked of an instrument, but for the patterns. -/
def IsInstrument (R : Row) (dirId : ℤ) (q : SearchQuery) : Prop :=
  R.compare "dir_id".toList .eq (.int dirId) ∧ R.Dated q ∧ R.Sized .gt q.minSize ∧
    R.Sized .lt q.maxSize ∧ R.Typed q.instrType ∧ R.OfFamily q.formatFamilies

end Row

/-- The text is `start` and a condition with `Params` and the directory, which asks for `P`. -/
def Translates (start : List Token) (f : Finder) (P : Row → ℤ → Prop) : Prop :=
  ∃ ts c, lex f.sql = start ++ ts ∧ IsCondition ts c (f.params.length + 1) ∧
    ∀ (R : Row) dirId, c.Holds (R.meaning dirId f.params) ↔ P R dirId

/-! ## Pieces -/

/-- The tokens are a condition with the parameters `added`, which follow `before`. -/
def Means (l : Level) (before : List Bytes) (ts : List Token) (added : List Bytes)
    (Q : Row → ℤ → Prop) : Prop :=
  ∃ c, Parses l (before.length + 2) ts c ((before ++ added).length + 2) ∧
    ∀ (R : Row) dirId params, before ++ added <+: params →
      (c.Holds (R.meaning dirId params) ↔ Q R dirId)

namespace Means

variable {l : Level} {before added added' : List Bytes} {ts ts' : List Token}
  {Q Q' : Row → ℤ → Prop}

theorem congr (h : Means l before ts added Q) (hQ : ∀ R dirId, Q R dirId ↔ Q' R dirId) :
    Means l before ts added Q' := by
  obtain ⟨c, hc, hm⟩ := h
  exact ⟨c, hc, fun R dirId params hp => (hm R dirId params hp).trans (hQ R dirId)⟩

theorem and_of_term (h : Means .term before ts added Q) : Means .and before ts added Q := by
  obtain ⟨c, hc, hm⟩ := h
  exact ⟨c, hc.and_of_term, hm⟩

theorem or_of_and (h : Means .and before ts added Q) : Means .or before ts added Q := by
  obtain ⟨c, hc, hm⟩ := h
  exact ⟨c, hc.or_of_and, hm⟩

theorem paren (h : Means .or before ts added Q) :
    Means .term before (.symbol '(' :: ts ++ [.symbol ')']) added Q := by
  obtain ⟨c, hc, hm⟩ := h
  exact ⟨c, hc.paren, hm⟩

theorem and (h : Means .term before ts added Q) (h' : Means .and (before ++ added) ts' added' Q') :
    Means .and before (ts ++ keyword "AND" :: ts') (added ++ added')
      fun R dirId => Q R dirId ∧ Q' R dirId := by
  obtain ⟨c, hc, hm⟩ := h
  obtain ⟨d, hd, hm'⟩ := h'
  rw [List.append_assoc] at hd hm'
  refine ⟨.and c d, hc.and hd, fun R dirId params hp => ?_⟩
  have hleft : before ++ added <+: params :=
    (List.append_assoc before added added' ▸ List.prefix_append _ _).trans hp
  exact and_congr (hm R dirId params hleft) (hm' R dirId params hp)

theorem or (h : Means .and before ts added Q) (h' : Means .or (before ++ added) ts' added' Q') :
    Means .or before (ts ++ keyword "OR" :: ts') (added ++ added')
      fun R dirId => Q R dirId ∨ Q' R dirId := by
  obtain ⟨c, hc, hm⟩ := h
  obtain ⟨d, hd, hm'⟩ := h'
  rw [List.append_assoc] at hd hm'
  refine ⟨.or c d, hc.or hd, fun R dirId params hp => ?_⟩
  have hleft : before ++ added <+: params :=
    (List.append_assoc before added added' ▸ List.prefix_append _ _).trans hp
  exact or_congr (hm R dirId params hleft) (hm' R dirId params hp)

/-- Pieces with `AND` before all but the first. -/
theorem all {α : Type} {t : α → List Token} {a : α → List Bytes} {Q : α → Row → ℤ → Prop} (x : α)
    (xs : List α) (before : List Bytes)
    (h : ∀ y ∈ x :: xs, ∀ before, Means .term before (t y) (a y) (Q y)) :
    Means .and before (t x ++ xs.flatMap fun y => keyword "AND" :: t y) ((x :: xs).flatMap a)
      fun R dirId => ∀ y ∈ x :: xs, Q y R dirId := by
  have hx := h x List.mem_cons_self
  induction xs generalizing x before with
  | nil =>
      rw [List.flatMap_nil, List.append_nil, List.flatMap_singleton]
      exact (hx before).and_of_term.congr fun R dirId => by simp
  | cons y ys ih =>
      have hrest := ih y (before ++ a x) (fun z hz => h z (List.mem_cons_of_mem _ hz))
        (h y (List.mem_cons_of_mem _ List.mem_cons_self))
      rw [List.flatMap_cons, List.flatMap_cons]
      exact ((hx before).and hrest).congr fun R dirId => by
        rw [List.forall_mem_cons (l := y :: ys)]

/-- Pieces with `OR` before all but the first. -/
theorem any {α : Type} {t : α → List Token} {a : α → List Bytes} {Q : α → Row → ℤ → Prop} (x : α)
    (xs : List α) (before : List Bytes)
    (h : ∀ y ∈ x :: xs, ∀ before, Means .and before (t y) (a y) (Q y)) :
    Means .or before (t x ++ xs.flatMap fun y => keyword "OR" :: t y) ((x :: xs).flatMap a)
      fun R dirId => ∃ y ∈ x :: xs, Q y R dirId := by
  have hx := h x List.mem_cons_self
  induction xs generalizing x before with
  | nil =>
      rw [List.flatMap_nil, List.append_nil, List.flatMap_singleton]
      exact (hx before).or_of_and.congr fun R dirId => by simp
  | cons y ys ih =>
      have hrest := ih y (before ++ a x) (fun z hz => h z (List.mem_cons_of_mem _ hz))
        (h y (List.mem_cons_of_mem _ List.mem_cons_self))
      rw [List.flatMap_cons, List.flatMap_cons]
      exact ((hx before).or hrest).congr fun R dirId => by
        rw [List.exists_mem_cons_iff (l := y :: ys)]

/-- The placeholder of a comparison is its parameter. -/
theorem compare (before : List Bytes) (column : List Char) (op : Op) (s : Bytes) :
    Means .term before (.word column :: op.tokens ++ [.parameter]) [s]
      fun R _ => R.compare column op (.text s) := by
  refine ⟨.compare column op (.parameter (before.length + 2)), ?_, fun R dirId params hp => ?_⟩
  · rw [List.length_append]
    exact Parses.compare fun rest => rfl
  · obtain ⟨rest, rfl⟩ := hp
    simp [Cond.Holds, Row.meaning, argument]

/-- A number takes no parameter. -/
theorem compareNumber (before : List Bytes) (column : List Char) (op : Op) {ts : List Token} {n : ℤ}
    (h : ∀ k rest, parseOperand k (ts ++ rest) = some (.number n, k, rest)) :
    Means .term before (.word column :: op.tokens ++ ts) [] fun R _ =>
      R.compare column op (.int n) := by
  refine ⟨.compare column op (.number n), ?_, fun R dirId params _ => ?_⟩
  · rw [List.append_nil]
    exact Parses.compare (h _)
  · simp [Cond.Holds, Row.meaning, argument]

end Means

/-! ## Emitted text -/

/-- `g` has the tokens and parameters more than `f`, and anything may follow. -/
structure Adds (f g : Finder) (ts : List Token) (added : List Bytes) : Prop where
  sql : lex g.sql = lex f.sql ++ ts
  params : g.params = f.params ++ added
  closed : Closed g.sql

namespace Adds

variable {f g : Finder} {ts ts' : List Token} {added added' : List Bytes}

theorem refl (hf : Closed f.sql) : Adds f f [] [] := by
  constructor <;> simp [hf]

theorem trans {g₁ : Finder} (h : Adds f g₁ ts added) (h' : Adds g₁ g ts' added') :
    Adds f g (ts ++ ts') (added ++ added') := by
  constructor
  · rw [h'.sql, h.sql, List.append_assoc]
  · rw [h'.params, h.params, List.append_assoc]
  · exact h'.closed

theorem emit (hf : Closed f.sql) (text : List Char) {c : Char} (hc : isWordChar c = false) :
    Adds f (f.emit (text ++ [c])) (lex (text ++ [c])) [] := by
  refine ⟨hf _, (List.append_nil _).symm, ?_⟩
  rw [Finder.emit, ← List.append_assoc]
  exact closed_concat _ hc

theorem push (h : Adds f g ts added) (s : Bytes) : Adds f (g.push s) ts (added ++ [s]) :=
  ⟨h.sql, by rw [Finder.push, h.params, List.append_assoc], h.closed⟩

end Adds

/-! ## AddSql() -/

def likeTokens (col : Column) : List Token := .word col.name :: Op.like.tokens ++ [.parameter]

/-- The comparison of a column with a parameter. -/
theorem adds_compare {f : Finder} (hf : Closed f.sql) (col : Column) (text : List Char) {op : Op}
    (h : lex (text ++ ['?']) = op.tokens ++ [.parameter]) (param : Bytes) :
    Adds f ((f.emit (col.name ++ ' ' :: (text ++ ['?']))).push param)
      (.word col.name :: op.tokens ++ [.parameter]) [param] := by
  have hlex :
      lex (col.name ++ ' ' :: text ++ ['?']) = .word col.name :: op.tokens ++ [.parameter] := by
    rw [List.append_assoc, List.cons_append, lex_append_cons col.name _ rfl,
      lex_word col.word col.ne_nil, h]
    rfl
  have hemit := Adds.emit hf (col.name ++ ' ' :: text) (c := '?') rfl
  rw [hlex, List.append_assoc] at hemit
  exact hemit.push param

theorem adds_like {f : Finder} (hf : Closed f.sql) (col : Column) (part : Bytes) :
    Adds f ((f.emit (col.name ++ " LIKE ?".toList)).push (like part)) (likeTokens col)
      [like part] :=
  adds_compare hf col "LIKE ".toList rfl (like part)

/-- The parts after the first one. -/
theorem adds_addParts (col : Column) (j : ℕ) (b : Bool) (ps : List Bytes) {f : Finder}
    (hf : Closed f.sql) :
    Adds f (addParts col (j + 1) b ps f).1 (ps.flatMap fun _ => keyword "AND" :: likeTokens col)
      (ps.map like) := by
  induction ps generalizing j b f with
  | nil => exact .refl hf
  | cons part ps ih =>
      have hand := Adds.emit hf " AND".toList (c := ' ') rfl
      have hlike := hand.trans (adds_like hand.closed col part)
      exact hlike.trans (ih (j + 1) true hlike.closed)

/-- The tokens of a word with its parts. -/
def groupTokens (col : Column) : List Bytes → List Token
  | [] => []
  | [_] => likeTokens col
  | _ :: ps =>
      .symbol '(' :: (likeTokens col ++ ps.flatMap fun _ => keyword "AND" :: likeTokens col) ++
        [.symbol ')']

/-- The column contains all parts. -/
theorem means_group (col : Column) (part : Bytes) (ps : List Bytes) (before : List Bytes) :
    Means .and before (groupTokens col (part :: ps)) ((part :: ps).map like)
      fun R _ => ∀ p ∈ part :: ps, p <:+: R.text col.name := by
  have hall : Means .and before (likeTokens col ++ ps.flatMap fun _ => keyword "AND" :: likeTokens col)
      ((part :: ps).map like) fun R _ => ∀ p ∈ part :: ps, p <:+: R.text col.name := by
    rw [List.map_eq_flatMap]
    exact Means.all part ps before fun p _ before =>
      (Means.compare before col.name .like (like p)).congr fun R _ => R.compare_like col.name p
  cases ps with
  | nil =>
      rw [List.flatMap_nil, List.append_nil] at hall
      exact hall
  | cons p ps => exact hall.or_of_and.paren.and_of_term

theorem adds_group (col : Column) (b : Bool) (part : Bytes) (ps : List Bytes) {f : Finder}
    (hf : Closed f.sql) :
    let f₁ := if (part :: ps).length > 1 then f.emit "(".toList else f
    let f₂ := (addParts col 0 b (part :: ps) f₁).1
    Adds f (if (part :: ps).length > 1 then f₂.emit ")".toList else f₂) (groupTokens col (part :: ps))
      ((part :: ps).map like) := by
  intro f₁ f₂
  cases ps with
  | nil => exact adds_like hf col part
  | cons p ps =>
      have hopen := Adds.emit hf [] (c := '(') rfl
      have hlike := adds_like hopen.closed col part
      have hparts := hlike.trans (adds_addParts col 0 true (p :: ps) hlike.closed)
      have hclose := hparts.trans (.emit hparts.closed [] (c := ')') rfl)
      rw [List.append_nil] at hclose
      exact hopen.trans hclose

theorem addParts_flag (col : Column) (j : ℕ) (b : Bool) (part : Bytes) (ps : List Bytes)
    (f : Finder) : (addParts col j b (part :: ps) f).2 = true := by
  induction ps generalizing j b part f with
  | nil => rfl
  | cons p ps ih => exact ih (j + 1) true p _

/-- A word without parts adds nothing. -/
theorem addWord_nil (col : Column) (i : ℕ) (b : Bool) {token : Bytes} (f : Finder)
    (h : readWords (plusToBlank token) = []) : addWord col (i + 1) b token f = (f, b) := by
  simp [addWord, h, addParts]

/-- A word with parts adds its group, after `OR` unless it is the first. -/
theorem adds_addWord (col : Column) (i : ℕ) (b : Bool) {token part : Bytes} {ps : List Bytes}
    {f : Finder} (hf : Closed f.sql) (h : readWords (plusToBlank token) = part :: ps) :
    Adds f (addWord col (i + 1) b token f).1
        ((if b then [keyword "OR"] else []) ++ groupTokens col (part :: ps))
        ((part :: ps).map like) ∧
      (addWord col (i + 1) b token f).2 = true := by
  rw [addWord, if_neg (Nat.succ_ne_zero i), h]
  dsimp only
  refine ⟨?_, addParts_flag col 0 b part ps _⟩
  cases b with
  | false => exact adds_group col false part ps hf
  | true =>
      have hor := Adds.emit hf " OR".toList (c := ' ') rfl
      exact hor.trans (adds_group col true part ps hor.closed)

/-- The parts of the words that have some. -/
def groups (tokens : List Bytes) : List (List Bytes) := (tokens.map parts).filter (· ≠ [])

/-- The groups of the words, after the first one. -/
theorem adds_addWords_true (col : Column) (i : ℕ) (tokens : List Bytes) {f : Finder}
    (hf : Closed f.sql) (hspace : ∀ w ∈ tokens, ∀ c ∈ w, isSpace c = false) :
    Adds f (addWords col (i + 1) true tokens f).1
        ((groups tokens).flatMap fun ps => keyword "OR" :: groupTokens col ps)
        ((groups tokens).flatMap fun ps => ps.map like) ∧
      (addWords col (i + 1) true tokens f).2 = true := by
  induction tokens generalizing i f with
  | nil => exact ⟨.refl hf, rfl⟩
  | cons token tokens ih =>
      have hparts := readWords_plusToBlank (hspace token List.mem_cons_self)
      have hrest := fun w hw => hspace w (List.mem_cons_of_mem _ hw)
      rw [addWords]
      cases hp : parts token with
      | nil =>
          rw [addWord_nil col i true f (hparts.trans hp)]
          simpa [groups, hp] using ih (i + 1) hf hrest
      | cons part ps =>
          obtain ⟨hword, hflag⟩ := adds_addWord col i true hf (hparts.trans hp)
          dsimp only
          rw [hflag]
          obtain ⟨hwords, hflag'⟩ := ih (i + 1) hword.closed hrest
          refine ⟨?_, hflag'⟩
          simpa [groups, hp] using hword.trans hwords

/-- The groups of the words; nothing is added if there are none. -/
theorem adds_addWords_false (col : Column) (i : ℕ) (tokens : List Bytes) {f : Finder}
    (hf : Closed f.sql) (hspace : ∀ w ∈ tokens, ∀ c ∈ w, isSpace c = false) :
    match groups tokens with
    | [] => addWords col (i + 1) false tokens f = (f, false)
    | g :: gs =>
        Adds f (addWords col (i + 1) false tokens f).1
            (groupTokens col g ++ gs.flatMap fun ps => keyword "OR" :: groupTokens col ps)
            ((g :: gs).flatMap fun ps => ps.map like) ∧
          (addWords col (i + 1) false tokens f).2 = true := by
  induction tokens generalizing i with
  | nil => rfl
  | cons token tokens ih =>
      have hparts := readWords_plusToBlank (hspace token List.mem_cons_self)
      have hrest := fun w hw => hspace w (List.mem_cons_of_mem _ hw)
      rw [addWords]
      cases hp : parts token with
      | nil =>
          rw [addWord_nil col i false f (hparts.trans hp)]
          have hgroups : groups (token :: tokens) = groups tokens := by simp [groups, hp]
          rw [hgroups]
          exact ih (i + 1) hrest
      | cons part ps =>
          obtain ⟨hword, hflag⟩ := adds_addWord col i false hf (hparts.trans hp)
          have hgroups : groups (token :: tokens) = (part :: ps) :: groups tokens := by
            simp [groups, hp]
          rw [hgroups]
          dsimp only
          rw [hflag]
          obtain ⟨hwords, hflag'⟩ := adds_addWords_true col (i + 1) tokens hword.closed hrest
          exact ⟨hword.trans hwords, hflag'⟩

/-- `g` has one condition more than `f`, after `AND`. -/
def Joins (f g : Finder) (Q : Row → ℤ → Prop) : Prop :=
  ∃ ts added, lex g.sql = lex f.sql ++ keyword "AND" :: ts ∧ g.params = f.params ++ added ∧
    Means .term f.params ts added Q

/-- A text that begins with a blank may follow any other. -/
theorem adds_blank (f : Finder) (text : List Char) {c : Char} (hc : isWordChar c = false) :
    Adds f (f.emit (' ' :: text ++ [c])) (lex (' ' :: text ++ [c])) [] := by
  refine ⟨lex_append_blank _ _, (List.append_nil _).symm, ?_⟩
  rw [Finder.emit, ← List.append_assoc]
  exact closed_concat _ hc

theorem joins_compare (col : Column) (text : List Char) {op : Op}
    (h : lex (text ++ ['?']) = op.tokens ++ [.parameter]) (param : Bytes) (f : Finder) :
    Joins f ((f.emit (" AND ".toList ++ col.name ++ ' ' :: (text ++ ['?']))).push param)
      fun R _ => R.compare col.name op (.text param) := by
  have hand : Adds f (f.emit " AND ".toList) [keyword "AND"] [] :=
    adds_blank f "AND".toList (c := ' ') rfl
  have hcompare := hand.trans (adds_compare hand.closed col text h param)
  refine ⟨_, [param], ?_, hcompare.params, .compare f.params col.name op param⟩
  have hsql := hcompare.sql
  rw [List.append_assoc]
  simpa [Finder.emit, Finder.push] using hsql

theorem addWords_succ (col : Column) (i j : ℕ) (b : Bool) (tokens : List Bytes) (f : Finder) :
    addWords col (i + 1) b tokens f = addWords col (j + 1) b tokens f := by
  induction tokens generalizing i j b f with
  | nil => rfl
  | cons token tokens ih => exact ih (i + 1) (j + 1) _ _

/-- The first word comes after the opening parenthesis. -/
theorem addWords_zero (col : Column) (b : Bool) (token : Bytes) (tokens : List Bytes) (f : Finder) :
    addWords col 0 b (token :: tokens) f =
      addWords col 1 b (token :: tokens) (f.emit " AND (".toList) :=
  addWords_succ col 0 1 _ tokens _

/-- The condition of the groups. -/
theorem means_groups (col : Column) {tokens : List Bytes} {g : List Bytes} {gs : List (List Bytes)}
    (h : groups tokens = g :: gs) (before : List Bytes) :
    Means .or before (groupTokens col g ++ gs.flatMap fun ps => keyword "OR" :: groupTokens col ps)
      ((g :: gs).flatMap fun ps => ps.map like)
      fun R _ => ∃ w ∈ tokens, parts w ≠ [] ∧ ∀ part ∈ parts w, part <:+: R.text col.name := by
  have hany := Means.any (t := groupTokens col) (a := fun ps => ps.map like)
    (Q := fun ps R _ => ∀ p ∈ ps, p <:+: R.text col.name) g gs before fun ps hps before => by
      rw [← h] at hps
      cases ps with
      | nil => simp [groups] at hps
      | cons part ps => exact means_group col part ps before
  rw [← h] at hany ⊢
  exact hany.congr fun R _ => by simp [groups, and_assoc]

theorem means_zero (before : List Bytes) :
    Means .term before [.symbol '(', .word ['0'], .symbol ')'] [] fun _ _ => False := by
  refine ⟨.number 0, ⟨4, fun rest _ => ?_⟩, fun R dirId params _ => by simp [Cond.Holds]⟩
  rw [List.append_nil]
  rfl

/-- The pattern becomes its condition. -/
theorem joins_addSql (col : Column) {pattern : Bytes} (hne : pattern ≠ []) (f : Finder) :
    Joins f (addSql col pattern f) fun R _ => R.Matches col pattern := by
  unfold Row.Matches addSql
  simp only [if_neg hne, readWords_eq]
  split
  · exact joins_compare col "regexp ".toList rfl pattern f
  cases hw : words pattern with
  | nil =>
      simp only [if_true, ← Row.compare_like]
      exact joins_compare col "LIKE ".toList rfl (like pattern) f
  | cons token tokens =>
      have hspace := fun w (hmem : w ∈ token :: tokens) => noSpace_of_mem_words (hw ▸ hmem)
      have hopen : Adds f (f.emit " AND (".toList) [keyword "AND", .symbol '('] [] :=
        adds_blank f "AND ".toList (c := '(') rfl
      have hwords := adds_addWords_false col 0 (token :: tokens) hopen.closed hspace
      rw [if_neg (List.cons_ne_nil _ _), addWords_zero]
      simp only [if_neg (List.cons_ne_nil token tokens)]
      cases hg : groups (token :: tokens) with
      | nil =>
          rw [hg] at hwords
          rw [hwords]
          have hzero := hopen.trans (.emit hopen.closed "0".toList (c := ')') rfl)
          have hnone : ∀ w ∈ token :: tokens, parts w = [] := by simpa [groups] using hg
          refine ⟨_, [], hzero.sql, hzero.params, (means_zero f.params).congr fun R _ => ?_⟩
          exact iff_of_false id fun ⟨w, hmem, hne, _⟩ => hne (hnone w hmem)
      | cons g gs =>
          rw [hg] at hwords
          obtain ⟨hgroups, hflag⟩ := hwords
          have hclose := hgroups.trans (.emit hgroups.closed [] (c := ')') rfl)
          rw [List.append_nil] at hclose
          have hall := hopen.trans hclose
          rw [hflag]
          exact ⟨_, _, hall.sql, hall.params, (means_groups col hg f.params).paren⟩

/-! ## Queries -/

/-- The text is a condition, and another one may follow. -/
def Reads (start : List Token) (f : Finder) (P : Row → ℤ → Prop) : Prop :=
  ∃ ts, lex f.sql = start ++ ts ∧
    (∃ c, Parses .and 1 ts c (f.params.length + 2) ∧
      ∀ (R : Row) dirId, c.Holds (R.meaning dirId f.params) ↔ P R dirId) ∧
    ∀ ts' added Q, Means .and f.params ts' added Q →
      ∃ c, Parses .and 1 (ts ++ keyword "AND" :: ts') c ((f.params ++ added).length + 2) ∧
        ∀ (R : Row) dirId params, f.params ++ added <+: params →
          (c.Holds (R.meaning dirId params) ↔ P R dirId ∧ Q R dirId)

namespace Reads

variable {start : List Token} {f g : Finder} {P Q : Row → ℤ → Prop}

theorem translates (h : Reads start f P) : Translates start f P := by
  obtain ⟨ts, hsql, ⟨c, hc, hm⟩, -⟩ := h
  exact ⟨ts, c, hsql, hc.or_of_and.isCondition, hm⟩

/-- Adding a condition keeps it. -/
theorem joins (h : Reads start f P) (hg : Joins f g Q) :
    Reads start g fun R dirId => P R dirId ∧ Q R dirId := by
  obtain ⟨ts, hsql, -, hnext⟩ := h
  obtain ⟨ts', added, hsql', hparams, hmeans⟩ := hg
  refine ⟨ts ++ keyword "AND" :: ts', ?_, ?_, fun ts'' added' Q' h'' => ?_⟩
  · rw [hsql', hsql, List.append_assoc]
  · obtain ⟨c, hc, hm⟩ := hnext ts' added Q hmeans.and_of_term
    rw [hparams]
    exact ⟨c, hc, fun R dirId => hm R dirId _ List.prefix_rfl⟩
  · rw [hparams] at h'' ⊢
    obtain ⟨c, hc, hm⟩ := hnext _ _ _ (hmeans.and h'')
    rw [List.append_assoc, List.append_assoc]
    exact ⟨c, hc, fun R dirId params hp => (hm R dirId params hp).trans and_assoc.symm⟩

theorem congr (h : Reads start f P) (hQ : ∀ R dirId, P R dirId ↔ Q R dirId) : Reads start f Q := by
  rwa [← funext₂ fun R dirId => propext (hQ R dirId)]

/-- A condition that is asked for only if `b` holds. -/
theorem joins_if (h : Reads start f P) {b : Prop} [Decidable b] (hg : b → Joins f g Q) :
    Reads start (if b then g else f) fun R dirId => P R dirId ∧ (b → Q R dirId) := by
  split
  · next hb => exact (h.joins (hg hb)).congr fun R dirId => by simp [hb]
  · next hb => exact h.congr fun R dirId => by simp [hb]

end Reads

theorem joins_text {text : List Char} {column : String} {op : Op}
    (h : lex (' ' :: text) = keyword "AND" :: .word column.toList :: op.tokens ++ [.parameter])
    (param : Bytes) (f : Finder) :
    Joins f ((f.emit (' ' :: text)).push param)
      fun R _ => R.compare column.toList op (.text param) := by
  refine ⟨_, [param], ?_, rfl, .compare f.params column.toList op param⟩
  exact (lex_append_blank f.sql text).trans (congrArg _ h)

/-- The digits of a number. -/
theorem numeral_toDigits (n : ℕ) : numeral (Nat.toDigits 10 n) = some n := by
  have hdigits : (Nat.toDigits 10 n).all Char.isDigit = true :=
    List.all_eq_true.mpr fun c hc => Nat.isDigit_of_mem_toDigits (by decide) (by decide) hc
  rw [numeral, if_pos ⟨Nat.toDigits_ne_nil, hdigits⟩, Nat.ofDigitChars_ten_toDigits]

theorem lex_toDigits (n : ℕ) : lex (Nat.toDigits 10 n) = [.word (Nat.toDigits 10 n)] := by
  refine lex_word (fun c hc => ?_) Nat.toDigits_ne_nil
  have hdigit : c.isDigit = true := Nat.isDigit_of_mem_toDigits (by decide) (by decide) hc
  simp [isWordChar, Char.isAlphanum, hdigit]

theorem parseOperand_decimal (n : ℤ) (k : ℕ) (rest : List Token) :
    parseOperand k (lex (decimal n) ++ rest) = some (.number n, k, rest) := by
  unfold decimal
  split
  · next hn =>
    have hlex : lex ('-' :: Nat.toDigits 10 n.natAbs) =
        [.symbol '-', .word (Nat.toDigits 10 n.natAbs)] := by
      rw [← List.nil_append ('-' :: _), lex_append_cons [] _ rfl, lex_toDigits]
      rfl
    rw [hlex]
    simp only [List.cons_append, List.nil_append, parseOperand, numeral_toDigits, Option.map_some]
    rw [Int.ofNat_natAbs_of_nonpos (Int.le_of_lt hn), Int.neg_neg]
  · next hn =>
    rw [lex_toDigits]
    simp only [List.cons_append, List.nil_append, parseOperand, numeral_toDigits, Option.map_some]
    rw [Int.natAbs_of_nonneg (Int.not_lt.mp hn)]

theorem joins_size {text : List Char} {op : Op} (htext : Closed (' ' :: text))
    (h : lex (' ' :: text) = keyword "AND" :: .word "instr_size".toList :: op.tokens) (size : ℤ)
    (f : Finder) :
    Joins f ((f.emit (' ' :: text)).emit (decimal size))
      fun R _ => R.compare "instr_size".toList op (.int size) := by
  refine ⟨_, [], ?_, (List.append_nil _).symm,
    .compareNumber f.params "instr_size".toList op (parseOperand_decimal size)⟩
  rw [Finder.emit, Finder.emit, List.append_assoc]
  refine (lex_append_blank f.sql (text ++ decimal size)).trans (congrArg _ ?_)
  rw [← List.cons_append, htext, h]
  rfl

namespace Reads

variable {start : List Token} {f : Finder} {P : Row → ℤ → Prop}

theorem addText (h : Reads start f P) (text column : String) (op : Op) (param : Bytes)
    {tail : List Char} (htext : text.toList = ' ' :: tail)
    (hlex : lex (' ' :: tail) = keyword "AND" :: .word column.toList :: op.tokens ++ [.parameter]) :
    Reads start (addText text param f) fun R dirId => P R dirId ∧ R.Asks column op param := by
  have hread := h.joins_if (b := param ≠ []) fun _ => joins_text hlex param f
  rwa [ite_not, ← htext] at hread

theorem addDates (h : Reads start f P) (q : SearchQuery) :
    Reads start (addDates q f) fun R dirId => P R dirId ∧ R.Dated q := by
  have h₁ := h.addText " AND created > ?" "created" .gt q.createdAfter rfl rfl
  have h₂ := h₁.addText " AND created < ?" "created" .lt q.createdBefore rfl rfl
  have h₃ := h₂.addText " AND modified > ?" "modified" .gt q.modifiedAfter rfl rfl
  have h₄ := h₃.addText " AND modified < ?" "modified" .lt q.modifiedBefore rfl rfl
  exact h₄.congr fun R dirId => by simp only [Row.Dated, and_assoc]

theorem addSize (h : Reads start f P) (text : String) (op : Op) (size : ℤ) {tail : List Char}
    (htext : text.toList = ' ' :: tail) (hclosed : Closed (' ' :: tail))
    (hlex : lex (' ' :: tail) = keyword "AND" :: .word "instr_size".toList :: op.tokens) :
    Reads start (addSize text size f) fun R dirId => P R dirId ∧ R.Sized op size := by
  have hread := h.joins_if (b := size ≠ -1) fun _ => joins_size hclosed hlex size f
  rwa [← htext] at hread

theorem addType (h : Reads start f P) (type : InstrumentType) :
    Reads start (addType type f) fun R dirId => P R dirId ∧ R.Typed type := by
  have hzero (k : ℕ) (rest : List Token) :
      parseOperand k ([.word ['0']] ++ rest) = some (.number 0, k, rest) := rfl
  cases type with
  | chromatic =>
      exact h.joins ⟨_, [], lex_append_blank f.sql _, (List.append_nil _).symm,
        .compareNumber f.params "is_drum".toList .eq hzero⟩
  | drum =>
      exact h.joins ⟨_, [], lex_append_blank f.sql _, (List.append_nil _).symm,
        .compareNumber f.params "is_drum".toList .ne hzero⟩
  | both => exact h.congr fun R dirId => by simp [Row.Typed]

theorem addPatterns (h : Reads start f P) (patterns : List (Column × Bytes)) :
    Reads start (addPatterns patterns f)
      fun R dirId => P R dirId ∧ ∀ p ∈ patterns, R.Matches p.1 p.2 := by
  induction patterns generalizing f P with
  | nil => exact h.congr fun R dirId => by simp
  | cons p patterns ih =>
      refine (ih (f := addSql p.1 p.2 f) (P := fun R dirId => P R dirId ∧ R.Matches p.1 p.2) ?_).congr
        fun R dirId => by rw [List.forall_mem_cons, and_assoc]
      by_cases hne : p.2 = []
      · rw [addSql, if_pos hne]
        exact h.congr fun R dirId => by simp [Row.Matches, hne]
      · exact h.joins (joins_addSql p.1 hne f)

end Reads

/-- The other families come after `OR`, without a blank before it. -/
theorem adds_families (families : List Bytes) {f : Finder} (hf : Closed f.sql) :
    Adds f (families.foldl (fun f family => (f.emit "OR format_family=?".toList).push family) f)
      (families.flatMap fun _ =>
        keyword "OR" :: .word "format_family".toList :: Op.eq.tokens ++ [.parameter])
      families := by
  induction families generalizing f with
  | nil => exact .refl hf
  | cons family families ih =>
      have hfamily := (Adds.emit hf "OR format_family=".toList (c := '?') rfl).push family
      exact hfamily.trans (ih hfamily.closed)

theorem Reads.addFamilies {start : List Token} {f : Finder} {P : Row → ℤ → Prop}
    (h : Reads start f P) (families : List Bytes) :
    Reads start (addFamilies families f) fun R dirId => P R dirId ∧ R.OfFamily families := by
  cases families with
  | nil => exact h.congr fun R dirId => by simp [Row.OfFamily]
  | cons family families =>
      have hfirst := (adds_blank f "AND (format_family=".toList (c := '?') rfl).push family
      have hrest := adds_families families hfirst.closed
      have hclose := hrest.trans (.emit hrest.closed [] (c := ')') rfl)
      rw [List.append_nil] at hclose
      have hall := hfirst.trans hclose
      have hany := Means.any (a := fun family => [family]) family families f.params
        fun family _ before => (Means.compare before "format_family".toList .eq family).and_of_term
      rw [List.flatMap_singleton'] at hany
      refine (h.joins ⟨_, family :: families, hall.sql, hall.params, hany.paren⟩).congr
        fun R dirId => by simp [Row.OfFamily]

/-- The comparison with the directory. -/
theorem parses_directory (column : List Char) :
    Parses .term 1 (.word column :: Op.eq.tokens ++ [.parameter]) (.compare column .eq (.parameter 1))
      2 :=
  Parses.compare fun _ => rfl

theorem reads_directory (column : String) {start : List Token} {sql : List Char}
    (hsql : lex sql = start ++ (.word column.toList :: Op.eq.tokens ++ [.parameter])) :
    Reads start ⟨sql, []⟩ fun R dirId => R.compare column.toList .eq (.int dirId) := by
  have hdir := parses_directory column.toList
  have hmeaning (R : Row) (dirId : ℤ) (params : List Bytes) :
      (Cond.compare column.toList .eq (.parameter 1)).Holds (R.meaning dirId params) ↔
        R.compare column.toList .eq (.int dirId) := by
    simp [Cond.Holds, Row.meaning, argument]
  refine ⟨_, hsql, ⟨_, hdir.and_of_term, fun R dirId => hmeaning R dirId []⟩, ?_⟩
  rintro ts' added Q ⟨c, hc, hm⟩
  exact ⟨_, hdir.and hc, fun R dirId params hp =>
    and_congr (hmeaning R dirId params) (hm R dirId params hp)⟩

/-- Another condition may stand before all of them. -/
theorem Reads.first {start ts : List Token} {f : Finder} {P : Row → ℤ → Prop} {column : List Char}
    {op : Op} {n : ℤ} (h : Reads (start ++ (.word column :: op.tokens ++ ts ++ [keyword "AND"])) f P)
    (hn : ∀ k rest, parseOperand k (ts ++ rest) = some (.number n, k, rest)) :
    Reads start f fun R dirId => R.compare column op (.int n) ∧ P R dirId := by
  obtain ⟨ts₁, hsql, ⟨c, hc, hm⟩, hnext⟩ := h
  have hfirst : Parses .term 1 (.word column :: op.tokens ++ ts) (.compare column op (.number n)) 1 :=
    Parses.compare (hn 1)
  have hmeaning (R : Row) (dirId : ℤ) (params : List Bytes) :
      (Cond.compare column op (.number n)).Holds (R.meaning dirId params) ↔
        R.compare column op (.int n) := by
    simp [Cond.Holds, Row.meaning, argument]
  refine ⟨.word column :: op.tokens ++ ts ++ keyword "AND" :: ts₁, ?_, ?_, fun ts' added Q h' => ?_⟩
  · rw [hsql]
    simp
  · exact ⟨_, hfirst.and hc, fun R dirId => and_congr (hmeaning R dirId _) (hm R dirId)⟩
  · obtain ⟨d, hd, hm'⟩ := hnext ts' added Q h'
    rw [List.append_assoc, List.cons_append]
    exact ⟨_, hfirst.and hd, fun R dirId params hp =>
      (and_congr (hmeaning R dirId params) (hm' R dirId params hp)).trans and_assoc.symm⟩

theorem reads_directoryBase (q : SearchQuery) :
    Reads (["SELECT", "dir_name", "from", "instr_dirs", "WHERE"].map keyword) (directoryBase q)
      fun R dirId => R.IsDirectory dirId q := by
  have hlex : lex "SELECT dir_name from instr_dirs WHERE dir_id!=0 AND parent_dir_id=?".toList =
      ["SELECT", "dir_name", "from", "instr_dirs", "WHERE"].map keyword ++
        (.word "dir_id".toList :: Op.ne.tokens ++ [.word ['0']] ++ [keyword "AND"]) ++
        (.word "parent_dir_id".toList :: Op.eq.tokens ++ [.parameter]) := rfl
  have hparent := (reads_directory "parent_dir_id" hlex).first (n := 0) fun _ _ => rfl
  exact (hparent.addDates q).congr fun R dirId => and_assoc

theorem reads_instrumentBase (q : SearchQuery) :
    Reads (["SELECT", "instr_name", "from", "instruments", "WHERE"].map keyword) (instrumentBase q)
      fun R dirId => R.IsInstrument dirId q := by
  have hlex : lex "SELECT instr_name from instruments WHERE dir_id=?".toList =
      ["SELECT", "instr_name", "from", "instruments", "WHERE"].map keyword ++
        (.word "dir_id".toList :: Op.eq.tokens ++ [.parameter]) := rfl
  have hdates := (reads_directory "dir_id" hlex).addDates q
  have hmin := hdates.addSize " AND instr_size > " .gt q.minSize rfl
    (closed_concat " AND instr_size >".toList rfl) rfl
  have hmax := hmin.addSize " AND instr_size < " .lt q.maxSize rfl
    (closed_concat " AND instr_size <".toList rfl) rfl
  exact ((hmax.addType q.instrType).addFamilies q.formatFamilies).congr fun R dirId => by
    simp only [Row.IsInstrument, and_assoc]

/-- The text of a search, for any patterns of any columns, is a condition with the directory and
`Params` as its placeholders. It holds of a row if all that is asked for does. -/
theorem finders_translate (q : SearchQuery) (patterns : List (Column × Bytes)) :
    Translates (["SELECT", "dir_name", "from", "instr_dirs", "WHERE"].map keyword)
        (addPatterns patterns (directoryBase q))
        (fun R dirId => R.IsDirectory dirId q ∧ ∀ p ∈ patterns, R.Matches p.1 p.2) ∧
      Translates (["SELECT", "instr_name", "from", "instruments", "WHERE"].map keyword)
        (addPatterns patterns (instrumentBase q))
        (fun R dirId => R.IsInstrument dirId q ∧ ∀ p ∈ patterns, R.Matches p.1 p.2) :=
  ⟨((reads_directoryBase q).addPatterns patterns).translates,
    ((reads_instrumentBase q).addPatterns patterns).translates⟩

/-! ## A pattern of white space -/

/-- A text has one meaning. -/
theorem Translates.unique {start : List Token} {f : Finder} {P Q : Row → ℤ → Prop}
    (h : Translates start f P) (h' : Translates start f Q) (R : Row) (dirId : ℤ) :
    P R dirId ↔ Q R dirId := by
  obtain ⟨ts, c, hsql, hc, hP⟩ := h
  obtain ⟨ts', d, hsql', hd, hQ⟩ := h'
  obtain rfl := List.append_cancel_left (hsql.symm.trans hsql')
  obtain ⟨rfl, -⟩ := hc.unique hd
  exact (hP R dirId).symm.trans (hQ R dirId)

/-- Only the words are asked for. -/
def Row.MatchesWord (R : Row) (col : Column) (pattern : Bytes) : Prop :=
  if pattern = [] then True
  else if isRegex pattern then R.compare col.name .regexp (.text pattern)
  else ∃ w ∈ words pattern, parts w ≠ [] ∧ ∀ part ∈ parts w, part <:+: R.text col.name

theorem like_injective {s t : Bytes} (h : like s = like t) : s = t :=
  List.append_cancel_right (List.cons.inj h).2

/-- A row whose columns are one blank. -/
def blankRow : Row where
  text _ := [blank]
  compare _ op v := op = .like → ∀ s, v = .text (like s) → s <:+: [blank]
  compare_like _ s := by
    refine ⟨fun h => h rfl s rfl, fun h _ t ht => ?_⟩
    rwa [← like_injective (Value.text.inj ht)]

/-- A pattern of one blank has no word, yet it is not false. -/
theorem not_finders_match_word :
    ¬ ∀ (q : SearchQuery) (patterns : List (Column × Bytes)),
      Translates (["SELECT", "dir_name", "from", "instr_dirs", "WHERE"].map keyword)
        (addPatterns patterns (directoryBase q))
        fun R dirId => R.IsDirectory dirId q ∧ ∀ p ∈ patterns, R.MatchesWord p.1 p.2 := by
  intro h
  let q : SearchQuery := ⟨[], [], -1, -1, [], [], [], [], [], [], [], [], .both⟩
  let col := column "description" rfl
  have hcode := ((reads_directoryBase q).addPatterns [(col, [blank])]).translates
  have hiff := hcode.unique (h q [(col, [blank])]) blankRow 0
  have hbase : blankRow.IsDirectory 0 q := by
    simp [Row.IsDirectory, Row.Dated, Row.Asks, blankRow, q]
  have hmatch : blankRow.Matches col [blank] := by
    rw [Row.Matches, if_neg (List.cons_ne_nil _ _), if_neg (by decide), if_pos (by decide)]
    exact List.infix_rfl
  have hword : ¬ blankRow.MatchesWord col [blank] := by
    rw [Row.MatchesWord, if_neg (List.cons_ne_nil _ _), if_neg (by decide)]
    rintro ⟨w, hw, -⟩
    exact absurd hw (by rw [show words [blank] = [] by decide]; exact List.not_mem_nil)
  exact hword ((hiff.mp ⟨hbase, fun p hp => List.mem_singleton.mp hp ▸ hmatch⟩).2 _
    List.mem_cons_self)

end InstrumentsFinder

end LinuxSampler
