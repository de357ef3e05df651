import LinuxSampler.FsPath
import LinuxSampler.SqlExpr

/-!
# Search in the instruments database

`DirectoryFinder` and `InstrumentFinder` of `db/InstrumentsDbUtilities.cpp`
put the text of a query together from the fields of a search, with the
parameters that are bound to its placeholders. The first placeholder is
the directory.
-/

namespace LinuxSampler

namespace InstrumentsFinder

open Sql

def blank : UInt8 := 32

def plus : UInt8 := 43

/-- `isspace()` in the C locale. -/
def isSpace (c : UInt8) : Bool := c = 32 ∨ 9 ≤ c ∧ c ≤ 13

/-! ## Queries -/

/-- The column of a table. -/
structure Column where
  name : List Char
  word : ∀ c ∈ name, isWordChar c = true
  ne_nil : name ≠ []

inductive InstrumentType where
  | chromatic
  | drum
  | both

structure SearchQuery where
  name : Bytes
  formatFamilies : List Bytes
  minSize : ℤ
  maxSize : ℤ
  createdBefore : Bytes
  createdAfter : Bytes
  modifiedBefore : Bytes
  modifiedAfter : Bytes
  description : Bytes
  product : Bytes
  artists : Bytes
  keywords : Bytes
  instrType : InstrumentType

/-- The stream of the query text, and `Params`. -/
structure Finder where
  sql : List Char
  params : List Bytes

namespace Finder

def emit (f : Finder) (text : List Char) : Finder := { f with sql := f.sql ++ text }

def push (f : Finder) (param : Bytes) : Finder := { f with params := f.params ++ [param] }

end Finder

/-! ## AddSql() -/

def isRegex (pattern : Bytes) : Bool := 63 ∈ pattern || 42 ∈ pattern

/-- The word that has been read. -/
def readWord (buf : Bytes) : List Bytes := if buf = [] then [] else [buf]

/-- The loop `while (ss >> buf)`, after `buf` was read. -/
def readWordsFrom (buf : Bytes) : Bytes → List Bytes
  | [] => readWord buf
  | c :: s => if isSpace c then readWord buf ++ readWordsFrom [] s else readWordsFrom (buf ++ [c]) s

def readWords (s : Bytes) : List Bytes := readWordsFrom [] s

/-- `'+'` becomes a blank. -/
def plusToBlank (token : Bytes) : Bytes := token.map fun c => if c = plus then blank else c

/-- `"%" + s + "%"` -/
def like (s : Bytes) : Bytes := Bytes.percent :: s ++ [Bytes.percent]

/-- The loop over `tokens2`. -/
def addParts (col : Column) : ℕ → Bool → List Bytes → Finder → Finder × Bool
  | _, b, [], f => (f, b)
  | j, _, part :: parts, f =>
      let f := if j ≠ 0 then f.emit " AND ".toList else f
      let f := (f.emit (col.name ++ " LIKE ?".toList)).push (like part)
      addParts col (j + 1) true parts f

/-- The body of the loop over `tokens`. -/
def addWord (col : Column) (i : ℕ) (b : Bool) (token : Bytes) (f : Finder) : Finder × Bool :=
  let f := if i = 0 then f.emit " AND (".toList else f
  let tokens2 := readWords (plusToBlank token)
  let f := if b = true ∧ tokens2.length > 0 then f.emit " OR ".toList else f
  let f := if tokens2.length > 1 then f.emit "(".toList else f
  let (f, b) := addParts col 0 b tokens2 f
  let f := if tokens2.length > 1 then f.emit ")".toList else f
  (f, b)

/-- The loop over `tokens`. -/
def addWords (col : Column) : ℕ → Bool → List Bytes → Finder → Finder × Bool
  | _, b, [], f => (f, b)
  | i, b, token :: tokens, f =>
      let (f, b) := addWord col i b token f
      addWords col (i + 1) b tokens f

/-- `AbstractFinder::AddSql()` -/
def addSql (col : Column) (pattern : Bytes) (f : Finder) : Finder :=
  if pattern = [] then f
  else if isRegex pattern then
    (f.emit (" AND ".toList ++ col.name ++ " regexp ?".toList)).push pattern
  else
    let tokens := readWords pattern
    if tokens = [] then
      (f.emit (" AND ".toList ++ col.name ++ " LIKE ?".toList)).push (like pattern)
    else
      let (f, b) := addWords col 0 false tokens f
      if b then f.emit ")".toList else f.emit "0)".toList

/-! ## Constructors -/

/-- A parameter for the text, unless it is empty. -/
def addText (text : String) (param : Bytes) (f : Finder) : Finder :=
  if param = [] then f else (f.emit text.toList).push param

def addDates (q : SearchQuery) (f : Finder) : Finder :=
  let f := addText " AND created > ?" q.createdAfter f
  let f := addText " AND created < ?" q.createdBefore f
  let f := addText " AND modified > ?" q.modifiedAfter f
  addText " AND modified < ?" q.modifiedBefore f

/-- A number in decimal. -/
def decimal (n : ℤ) : List Char :=
  if n < 0 then '-' :: Nat.toDigits 10 n.natAbs else Nat.toDigits 10 n.natAbs

def addSize (text : String) (size : ℤ) (f : Finder) : Finder :=
  if size ≠ -1 then (f.emit text.toList).emit (decimal size) else f

def addType (type : InstrumentType) (f : Finder) : Finder :=
  match type with
  | .chromatic => f.emit " AND is_drum = 0".toList
  | .drum => f.emit " AND is_drum != 0".toList
  | .both => f

/-- No blank stands before `OR`. -/
def addFamilies (families : List Bytes) (f : Finder) : Finder :=
  match families with
  | [] => f
  | family :: families =>
      let f := (f.emit " AND (format_family=?".toList).push family
      let f := families.foldl (fun f family => (f.emit "OR format_family=?".toList).push family) f
      f.emit ")".toList

def addPatterns (patterns : List (Column × Bytes)) (f : Finder) : Finder :=
  patterns.foldl (fun f p => addSql p.1 p.2 f) f

def directoryBase (q : SearchQuery) : Finder :=
  addDates q ⟨"SELECT dir_name from instr_dirs WHERE dir_id!=0 AND parent_dir_id=?".toList, []⟩

def instrumentBase (q : SearchQuery) : Finder :=
  let f := addDates q ⟨"SELECT instr_name from instruments WHERE dir_id=?".toList, []⟩
  let f := addSize " AND instr_size > " q.minSize f
  let f := addSize " AND instr_size < " q.maxSize f
  addFamilies q.formatFamilies (addType q.instrType f)

def column (name : String) (h : (name.toList ≠ [] && name.toList.all isWordChar) = true) : Column :=
  have h := Bool.and_eq_true_iff.mp h
  ⟨name.toList, List.all_eq_true.mp h.2, of_decide_eq_true h.1⟩

/-- The constructor of `DirectoryFinder`. -/
def directoryFinder (q : SearchQuery) : Finder :=
  addPatterns [(column "dir_name" rfl, q.name),
    (column "description" rfl, q.description)] (directoryBase q)

/-- The constructor of `InstrumentFinder`. -/
def instrumentFinder (q : SearchQuery) : Finder :=
  addPatterns [(column "instr_name" rfl, q.name),
    (column "description" rfl, q.description),
    (column "product" rfl, q.product), (column "artists" rfl, q.artists),
    (column "keywords" rfl, q.keywords)] (instrumentBase q)

/-! ## Words -/

/-- The words of a pattern, which white space separates. -/
def words (pattern : Bytes) : List Bytes := (pattern.splitOnP isSpace).filter (· ≠ [])

/-- The parts of a word that are not empty, between the `'+'` signs. -/
def parts (word : Bytes) : List Bytes := (word.splitOnP (· = plus)).filter (· ≠ [])

theorem filter_ne_nil_cons (w : Bytes) (ws : List Bytes) :
    (w :: ws).filter (· ≠ []) = readWord w ++ ws.filter (· ≠ []) := by
  by_cases h : w = [] <;> simp [readWord, h]

theorem readWordsFrom_eq (buf s : Bytes) :
    readWordsFrom buf s = (s.splitOnPPrepend isSpace buf.reverse).filter (· ≠ []) := by
  induction s generalizing buf with
  | nil => rw [readWordsFrom, List.splitOnPPrepend_nil, filter_ne_nil_cons]; simp
  | cons c s ih =>
      rw [readWordsFrom, List.splitOnPPrepend_cons_eq_if]
      split
      · rw [filter_ne_nil_cons, List.reverse_reverse, ih]
        simp
      · rw [ih, List.reverse_append, List.reverse_singleton, List.singleton_append]

/-- Reading from a stream gives the words. -/
theorem readWords_eq (s : Bytes) : readWords s = words s := readWordsFrom_eq [] s

theorem isSpace_blank : isSpace blank = true := by decide

theorem splitOnPPrepend_plusToBlank {w : Bytes} (acc : Bytes) (hw : ∀ c ∈ w, isSpace c = false) :
    (plusToBlank w).splitOnPPrepend isSpace acc = w.splitOnPPrepend (· = plus) acc := by
  induction w generalizing acc with
  | nil => rfl
  | cons c w ih =>
      have hrest := fun acc => ih acc fun c' hc' => hw c' (List.mem_cons_of_mem _ hc')
      rw [plusToBlank, List.map_cons, List.splitOnPPrepend_cons_eq_if,
        List.splitOnPPrepend_cons_eq_if (x := c)]
      by_cases hc : c = plus
      · rw [if_pos hc, if_pos isSpace_blank, if_pos (decide_eq_true hc)]
        exact congrArg _ (hrest [])
      · rw [if_neg hc, if_neg (Bool.not_eq_true _ ▸ hw c List.mem_cons_self),
          if_neg (mt of_decide_eq_true hc)]
        exact hrest (c :: acc)

/-- The second reading gives the parts of a word. -/
theorem readWords_plusToBlank {w : Bytes} (hw : ∀ c ∈ w, isSpace c = false) :
    readWords (plusToBlank w) = parts w := by
  rw [readWords_eq, words, parts, List.splitOnP_eq_splitOnPPrepend,
    splitOnPPrepend_plusToBlank [] hw, List.splitOnP_eq_splitOnPPrepend]

theorem noSpace_of_mem {s acc w : Bytes} (hacc : ∀ c ∈ acc, isSpace c = false)
    (h : w ∈ s.splitOnPPrepend isSpace acc) : ∀ c ∈ w, isSpace c = false := by
  induction s generalizing acc with
  | nil =>
      rw [List.splitOnPPrepend_nil, List.mem_singleton] at h
      rw [h]
      exact fun c hc => hacc c (List.mem_reverse.mp hc)
  | cons x s ih =>
      rw [List.splitOnPPrepend_cons_eq_if] at h
      split at h
      · rcases List.mem_cons.mp h with rfl | h
        · exact fun c hc => hacc c (List.mem_reverse.mp hc)
        · exact ih (fun c hc => absurd hc List.not_mem_nil) h
      · next hx =>
        refine ih (fun c hc => ?_) h
        rcases List.mem_cons.mp hc with rfl | hc
        · exact Bool.not_eq_true _ ▸ hx
        · exact hacc c hc

/-- No white space is in a word. -/
theorem noSpace_of_mem_words {pattern w : Bytes} (h : w ∈ words pattern) :
    ∀ c ∈ w, isSpace c = false :=
  noSpace_of_mem (fun _ hc => absurd hc List.not_mem_nil) (List.mem_of_mem_filter h)

end InstrumentsFinder

end LinuxSampler
