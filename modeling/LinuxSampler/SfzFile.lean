import LinuxSampler.SfzDefine
import LinuxSampler.SfzLoader
import Mathlib.Order.Preorder.Finite

/-!
# Files and `#include` statements of the sfz engine

`parseFile()` reads a file line by line, and calls itself for the file of
an `#include` statement. What it does on the other lines is left to
`Loader`; scripts are not collected.

Nothing is known of the files that are being read. So the recursion ends if
no chain of `#include` statements goes on for ever, and where no line throws
an exception it ends only then (`load_ends`).
-/

namespace LinuxSampler

namespace Sfz

namespace FileParser

open Bytes Define

/-! ## Lines -/

def newline : UInt8 := 10

def quote : UInt8 := 34

/-- The lines that `std::getline()` gives; the argument before the text is the line so far. -/
def getLines : Bytes → Bytes → List Bytes
  | line, [] => if line = [] then [] else [line]
  | line, c :: s => if c = newline then line :: getLines [] s else getLines (line ++ [c]) s

/-- The line up to `//`. -/
def withoutComment : Bytes → Bytes
  | [] => []
  | c :: s => if c = slash ∧ s.head? = some slash then [] else c :: withoutComment s

inductive Statement where
  | inclusion
  | define
  | script
  | definition
  deriving DecidableEq

def statement (line : Bytes) : Statement :=
  if bytes "#include " <+: line then .inclusion
  else if bytes "#define" <+: line then .define
  else if bytes "script" <+: line then .script
  else .definition

/-- `Path::stripLastName()` of a string -/
def stripLastName (file : Bytes) : Bytes :=
  let p := Path.fromPosix file
  { p with elements := p.elements.dropLast }.toPosix

/-- The name of the file of an `#include` statement, if there are quotes. -/
def includeName (currentDir line : Bytes) : Option Bytes := do
  let fnameStart ← findFrom (· = quote) line 0
  let fnameEnd ← findFrom (· = quote) line (fnameStart + 1)
  let fname := (line.drop (fnameStart + 1)).take (fnameEnd - fnameStart - 1)
  return if currentDir ≠ [] ∧ (Path.fromPosix fname).absolute = false then
    currentDir ++ [slash] ++ fname
  else fname

/-! ## Tokens of a definition -/

inductive TokenType where
  | header
  | opcode

/-- A word, and where a header ends before the word does, what is behind it. -/
def cutHeader (token : Bytes) : Bytes × Bytes :=
  match findFrom (· = 62) token 1 with
  | none => (token, [])
  | some p =>
      if token.head? = some 60 ∧ p < token.length - 1 then (token.take (p + 1), token.drop (p + 1))
      else (token, [])

theorem cutHeader_append (token : Bytes) : (cutHeader token).1 ++ (cutHeader token).2 = token := by
  unfold cutHeader
  split
  · exact List.append_nil _
  · split
    · exact List.take_append_drop _ _
    · exact List.append_nil _

theorem cutHeader_ne_nil {token : Bytes} (h : token ≠ []) : (cutHeader token).1 ≠ [] := by
  unfold cutHeader
  split
  · exact h
  · split
    · exact fun hnil => (List.take_eq_nil_iff.mp hnil).elim (Nat.succ_ne_zero _) h
    · exact h

/-- The tokens of a text that does not begin with a space, each with the number of spaces before
it. -/
def tokens (spaces : ℕ) (s : Bytes) : List (ℕ × Bytes) :=
  if _h : s.takeWhile (!isSpace ·) = [] then []
  else
    let cut := cutHeader (s.takeWhile (!isSpace ·))
    let rest := cut.2 ++ s.dropWhile (!isSpace ·)
    (spaces, cut.1) :: tokens (rest.takeWhile isSpace).length (rest.dropWhile isSpace)
termination_by s.length
decreasing_by
  have hsplit := congrArg List.length (List.takeWhile_append_dropWhile (p := (!isSpace ·)) (l := s))
  have hcut := congrArg List.length (cutHeader_append (s.takeWhile (!isSpace ·)))
  have hpos := List.length_pos_of_ne_nil (cutHeader_ne_nil _h)
  have hle := (List.dropWhile_suffix isSpace (l := rest)).length_le
  simp only [rest, cut, List.length_append] at hsplit hcut hle hpos ⊢
  omega

def Result.bind {α β : Type} (x : Result α) (f : α → Result β) : Result β :=
  match x with
  | .done a => f a
  | .thrown => .thrown
  | .undefined => .undefined

/-- What is left of the tokens before: the type persists from line to line. -/
structure Pending where
  tokenString : Bytes := []
  tokenType : Option TokenType := none

section Definition

variable (objectFirst : Bytes → Bool)

/-- The switches over `token_type`. -/
def pushPending (p : Pending) (f : Loader) : Result Loader :=
  if p.tokenString = [] then .done f
  else
    match p.tokenType with
    | none => .done f
    | some .header => f.push objectFirst (.header p.tokenString)
    | some .opcode => f.push objectFirst (.opcode p.tokenString)

def isHead (token : Bytes) : Option TokenType :=
  if token.head? = some 60 ∧ token.getLast? = some 62 then some .header
  else if Loader.equals ∈ token then some .opcode
  else none

/-- The loop over the tokens of a line, and what follows at its end. -/
def readTokens : List (ℕ × Bytes) → Pending → Loader → Result (Option TokenType × Loader)
  | [], p, f => Result.bind (pushPending objectFirst p f) fun f => .done (p.tokenType, f)
  | (spaces, token) :: rest, p, f =>
      match isHead token with
      | some type =>
          Result.bind (pushPending objectFirst p f) fun f =>
            readTokens rest ⟨token, some type⟩ f
      | none =>
          let tail := List.replicate spaces 32 ++ token
          readTokens rest { p with tokenString := p.tokenString ++ tail } f

end Definition

/-! ## `parseFile()` -/

structure FileState where
  loader : Loader := {}
  currentDir : Bytes := []
  currentLine : ℕ := 0

/-- The state in which a line is read. -/
def FileState.atLine (st : FileState) : FileState := { st with currentLine := st.currentLine + 1 }

/-- The state behind an `#include` statement, with the directory and the line of before. -/
def FileState.back (st st' : FileState) : FileState :=
  { st' with currentDir := st.currentDir, currentLine := st.atLine.currentLine }

/-- The content of the files that can be opened, by their paths. -/
abbrev FileSystem := Bytes → Option Bytes

section ParseFile

variable (objectFirst : Bytes → Bool)

/-- What comes of a line without the call for an `#include` statement. -/
inductive LineResult where
  | next (type : Option TokenType) (st : FileState)
  | call (fname : Bytes)
  | thrown
  | undefined

def readLine (line : Bytes) (type : Option TokenType) (st : FileState) : LineResult :=
  match statement line with
  | .inclusion =>
      match includeName st.currentDir line with
      | none => .next type st
      | some fname => .call fname
  | .define =>
      match defineLine st.loader.macros line with
      | none => .thrown
      | some macros => .next type { st with loader := { st.loader with macros := macros } }
  | .script => .next type st
  | .definition =>
      match readTokens objectFirst (tokens 0 (line.dropWhile isSpace)) ⟨[], type⟩ st.loader with
      | .done (type, loader) => .next type { st with loader := loader }
      | .thrown => .thrown
      | .undefined => .undefined

/-- The loop of `parseFile()` over the lines of a file, with the calls for other files. -/
def parseLines (call : Bytes → FileState → Option (Result FileState)) :
    List Bytes → Option TokenType → FileState → Option (Result FileState)
  | [], _, st => some (.done st)
  | line :: lines, type, st =>
      match readLine objectFirst (withoutComment line) type st.atLine with
      | .next type st => parseLines call lines type st
      | .call fname =>
          match call fname st.atLine with
          | some (.done st') => parseLines call lines type (st.back st')
          | result => result
      | .thrown => some .thrown
      | .undefined => some .undefined

def linesOf (fs : FileSystem) (file : Bytes) : List Bytes := ((fs file).map (getLines [])).getD []

/-- `parseFile()` with a bound on the depth of its calls. -/
def parseFile (fs : FileSystem) : ℕ → Bytes → FileState → Option (Result FileState)
  | 0, _, _ => none
  | depth + 1, file, st =>
      parseLines objectFirst (parseFile fs depth) (linesOf fs file) none
        { st with currentDir := stripLastName file, currentLine := 0 }

/-- The call comes to an end. -/
def Ends (fs : FileSystem) (file : Bytes) (st : FileState) : Prop :=
  ∃ depth, parseFile objectFirst fs depth file st ≠ none

/-! ## `#include` statements -/

/-- A line of the file is an `#include` statement for the other one. -/
def Includes (fs : FileSystem) (file other : Bytes) : Prop :=
  ∃ line ∈ linesOf fs file, statement (withoutComment line) = .inclusion ∧
    includeName (stripLastName file) (withoutComment line) = some other

/-- A chain of `#include` statements that never ends. -/
def Endless (fs : FileSystem) (file : Bytes) : Prop :=
  ∃ chain : ℕ → Bytes, chain 0 = file ∧ ∀ n, Includes fs (chain n) (chain (n + 1))

/-- A line that no exception comes from, and no undefined behaviour. -/
def Calm (line : Bytes) : Prop :=
  match statement line with
  | .inclusion => True
  | .define => ∀ macros, defineLine macros line ≠ none
  | .script => True
  | .definition => ∀ type f, ∃ x,
      readTokens objectFirst (tokens 0 (line.dropWhile isSpace)) ⟨[], type⟩ f = .done x

/-- All lines of the files that a file leads to are calm. -/
def AllCalm (fs : FileSystem) (file : Bytes) : Prop :=
  ∀ other, Relation.ReflTransGen (Includes fs) file other →
    ∀ line ∈ linesOf fs other, Calm objectFirst (withoutComment line)

variable {objectFirst} {fs : FileSystem}

variable (objectFirst) in
/-- What comes of a line, by the kind of its statement. -/
theorem readLine_cases (line : Bytes) (type : Option TokenType) (st : FileState) :
    (∃ fname, readLine objectFirst line type st = .call fname ∧ statement line = .inclusion ∧
      includeName st.currentDir line = some fname) ∨
    (∃ type' st', readLine objectFirst line type st = .next type' st' ∧
      st'.currentDir = st.currentDir ∧
      (statement line = .inclusion → includeName st.currentDir line = none)) ∨
    (readLine objectFirst line type st = .thrown ∨ readLine objectFirst line type st = .undefined) ∧
      ¬ Calm objectFirst line := by
  unfold readLine Calm
  cases hkind : statement line with
  | inclusion =>
      cases hname : includeName st.currentDir line with
      | none => exact .inr (.inl ⟨type, st, rfl, rfl, fun _ => rfl⟩)
      | some fname => exact .inl ⟨fname, rfl, rfl, rfl⟩
  | define =>
      dsimp only
      cases hmacros : defineLine st.loader.macros line with
      | none => exact .inr (.inr ⟨.inl rfl, fun hcalm => hcalm _ hmacros⟩)
      | some macros => exact .inr (.inl ⟨type, _, rfl, rfl, (fun h => nomatch h)⟩)
  | script => exact .inr (.inl ⟨type, st, rfl, rfl, (fun h => nomatch h)⟩)
  | definition =>
      dsimp only
      cases htokens : readTokens objectFirst (tokens 0 (line.dropWhile isSpace)) ⟨[], type⟩
          st.loader with
      | done x => exact .inr (.inl ⟨x.1, _, rfl, rfl, (fun h => nomatch h)⟩)
      | thrown =>
          refine .inr (.inr ⟨.inl rfl, fun hcalm => ?_⟩)
          obtain ⟨x, hdone⟩ := hcalm type st.loader
          exact nomatch htokens.symm.trans hdone
      | undefined =>
          refine .inr (.inr ⟨.inr rfl, fun hcalm => ?_⟩)
          obtain ⟨x, hdone⟩ := hcalm type st.loader
          exact nomatch htokens.symm.trans hdone

section Lines

variable {call : Bytes → FileState → Option (Result FileState)} {line : Bytes} {lines : List Bytes}
  {type : Option TokenType} {st : FileState}

theorem parseLines_of_next {type' : Option TokenType} {st' : FileState}
    (h : readLine objectFirst (withoutComment line) type st.atLine = .next type' st') :
    parseLines objectFirst call (line :: lines) type st =
      parseLines objectFirst call lines type' st' := by
  rw [parseLines, h]

theorem parseLines_of_call {fname : Bytes}
    (h : readLine objectFirst (withoutComment line) type st.atLine = .call fname) :
    parseLines objectFirst call (line :: lines) type st =
      match call fname st.atLine with
      | some (.done st') => parseLines objectFirst call lines type (st.back st')
      | result => result := by
  rw [parseLines, h]

theorem parseLines_of_stop (call : Bytes → FileState → Option (Result FileState))
    (lines : List Bytes)
    (h : readLine objectFirst (withoutComment line) type st.atLine = .thrown ∨
      readLine objectFirst (withoutComment line) type st.atLine = .undefined) :
    parseLines objectFirst call (line :: lines) type st = some .thrown ∨
      parseLines objectFirst call (line :: lines) type st = some .undefined := by
  rcases h with h | h
  · exact .inl (by rw [parseLines, h])
  · exact .inr (by rw [parseLines, h])

end Lines

/-- A longer bound changes nothing about what has come to an end. -/
theorem parseLines_mono {call call' : Bytes → FileState → Option (Result FileState)}
    (h : ∀ file st result, call file st = some result → call' file st = some result)
    {lines : List Bytes} {type : Option TokenType} {st : FileState} {result : Result FileState}
    (hrun : parseLines objectFirst call lines type st = some result) :
    parseLines objectFirst call' lines type st = some result := by
  induction lines generalizing type st with
  | nil => exact hrun
  | cons line lines ih =>
      cases hline : readLine objectFirst (withoutComment line) type st.atLine with
      | next type' st' =>
          rw [parseLines_of_next hline] at hrun ⊢
          exact ih hrun
      | call fname =>
          rw [parseLines_of_call hline] at hrun ⊢
          cases hcall : call fname st.atLine with
          | none =>
              rw [hcall] at hrun
              exact nomatch hrun
          | some called =>
              rw [hcall] at hrun
              rw [h _ _ _ hcall]
              cases called with
              | done st' => exact ih hrun
              | thrown => exact hrun
              | undefined => exact hrun
      | thrown =>
          rw [parseLines, hline] at hrun ⊢
          exact hrun
      | undefined =>
          rw [parseLines, hline] at hrun ⊢
          exact hrun

theorem parseFile_mono {depth depth' : ℕ} (h : depth ≤ depth') {file : Bytes} {st : FileState}
    {result : Result FileState} (hrun : parseFile objectFirst fs depth file st = some result) :
    parseFile objectFirst fs depth' file st = some result := by
  induction depth generalizing depth' file st result with
  | zero => exact nomatch hrun
  | succ depth ih =>
      obtain ⟨depth', rfl⟩ := Nat.exists_eq_succ_of_ne_zero (show depth' ≠ 0 by omega)
      exact parseLines_mono (fun _ _ _ hcall => ih (Nat.le_of_succ_le_succ h) hcall) hrun

/-- The loop over the lines ends if the calls do. -/
theorem parseLines_ends (lines : List Bytes) (dir : Bytes)
    (h : ∀ line ∈ lines, ∀ fname, statement (withoutComment line) = .inclusion →
      includeName dir (withoutComment line) = some fname → ∀ st, Ends objectFirst fs fname st) :
    ∀ (type : Option TokenType) (st : FileState), st.currentDir = dir →
      ∃ depth result,
        parseLines objectFirst (parseFile objectFirst fs depth) lines type st = some result := by
  induction lines with
  | nil => exact fun type st _ => ⟨0, _, rfl⟩
  | cons line lines ih =>
      intro type st hdir
      have ih := ih fun line hline => h line (List.mem_cons_of_mem _ hline)
      rcases readLine_cases objectFirst (withoutComment line) type st.atLine with
        ⟨fname, hline, hkind, hname⟩ | ⟨type', st', hline, hdir', -⟩ | ⟨hstop, -⟩
      · obtain ⟨depth, hends⟩ := h line List.mem_cons_self fname hkind (hdir ▸ hname) st.atLine
        obtain ⟨result, hresult⟩ := Option.ne_none_iff_exists'.mp hends
        cases result with
        | done st' =>
            obtain ⟨depth', result', hrest⟩ := ih type (st.back st') hdir
            refine ⟨max depth depth', result', ?_⟩
            rw [parseLines_of_call hline, parseFile_mono (le_max_left _ _) hresult]
            exact parseLines_mono (fun _ _ _ hcall => parseFile_mono (le_max_right _ _) hcall) hrest
        | thrown => exact ⟨depth, .thrown, by rw [parseLines_of_call hline, hresult]⟩
        | undefined => exact ⟨depth, .undefined, by rw [parseLines_of_call hline, hresult]⟩
      · obtain ⟨depth, result, hrest⟩ := ih type' st' (hdir'.trans hdir)
        exact ⟨depth, result, by rw [parseLines_of_next hline, hrest]⟩
      · rcases parseLines_of_stop (parseFile objectFirst fs 0) lines hstop with
          hend | hend
        · exact ⟨0, _, hend⟩
        · exact ⟨0, _, hend⟩

/-- By induction along the `#include` statements. -/
theorem ends_of_acc {file : Bytes} (h : Acc (fun other file => Includes fs file other) file)
    (st : FileState) : Ends objectFirst fs file st := by
  induction h generalizing st with
  | intro file _ ih =>
      obtain ⟨depth, result, hrun⟩ := parseLines_ends (linesOf fs file) (stripLastName file)
        (fun line hline fname hkind hname => ih fname ⟨line, hline, hkind, hname⟩) none
        { st with currentDir := stripLastName file, currentLine := 0 } rfl
      refine ⟨depth + 1, ?_⟩
      rw [parseFile, hrun]
      exact Option.some_ne_none _

/-- Calm lines are all read, and so are the files that they name. -/
theorem parseLines_calm {depth : ℕ} {lines : List Bytes} (dir : Bytes) (P : Bytes → Prop)
    (hcalm : ∀ line ∈ lines, Calm objectFirst (withoutComment line))
    (hcall : ∀ line ∈ lines, ∀ fname, statement (withoutComment line) = .inclusion →
      includeName dir (withoutComment line) = some fname → ∀ st result,
        parseFile objectFirst fs depth fname st = some result →
          (∃ st', result = .done st') ∧ P fname) :
    ∀ (type : Option TokenType) (st : FileState) (result : Result FileState),
      st.currentDir = dir →
        parseLines objectFirst (parseFile objectFirst fs depth) lines type st = some result →
          (∃ st', result = .done st') ∧ ∀ line ∈ lines, ∀ fname,
            statement (withoutComment line) = .inclusion →
              includeName dir (withoutComment line) = some fname → P fname := by
  induction lines with
  | nil =>
      rintro type st result - hrun
      exact ⟨⟨st, (Option.some.inj hrun).symm⟩, fun line hline => absurd hline List.not_mem_nil⟩
  | cons line lines ih =>
      intro type st result hdir hrun
      have ih := ih (fun line hline => hcalm line (List.mem_cons_of_mem _ hline))
        (fun line hline => hcall line (List.mem_cons_of_mem _ hline))
      rcases readLine_cases objectFirst (withoutComment line) type st.atLine with
        ⟨fname, hline, hkind, hname⟩ | ⟨type', st', hline, hdir', hnone⟩ | ⟨-, hnot⟩
      · rw [parseLines_of_call hline] at hrun
        cases hresult : parseFile objectFirst fs depth fname st.atLine with
        | none =>
            rw [hresult] at hrun
            exact nomatch hrun
        | some called =>
            obtain ⟨⟨st', rfl⟩, hP⟩ := hcall line List.mem_cons_self fname hkind
              (hdir ▸ hname) _ _ hresult
            rw [hresult] at hrun
            obtain ⟨hdone, hrest⟩ := ih _ (st.back st') _ hdir hrun
            refine ⟨hdone, List.forall_mem_cons.mpr ⟨fun other _ hother => ?_, hrest⟩⟩
            cases hother.symm.trans (hdir ▸ hname)
            exact hP
      · rw [parseLines_of_next hline] at hrun
        obtain ⟨hdone, hrest⟩ := ih _ _ _ (hdir'.trans hdir) hrun
        refine ⟨hdone, List.forall_mem_cons.mpr ⟨fun other hkind hother => ?_, hrest⟩⟩
        have hno := hnone hkind
        rw [show st.atLine.currentDir = dir from hdir, hother] at hno
        exact nomatch hno
      · exact absurd (hcalm line List.mem_cons_self) hnot

theorem acc_of_ends {depth : ℕ} {file : Bytes} (hcalm : AllCalm objectFirst fs file)
    {st : FileState} {result : Result FileState}
    (hrun : parseFile objectFirst fs depth file st = some result) :
    (∃ st', result = .done st') ∧ Acc (fun other file => Includes fs file other) file := by
  induction depth generalizing file st result with
  | zero => exact nomatch hrun
  | succ depth ih =>
      obtain ⟨hdone, hacc⟩ := parseLines_calm (stripLastName file)
        (Acc fun other file => Includes fs file other)
        (hcalm file .refl) (fun line hline fname hkind hname st result hresult =>
          ih (fun other hother => hcalm other
            (.head ⟨line, hline, hkind, hname⟩ hother)) hresult) _ _ _ rfl hrun
      refine ⟨hdone, Acc.intro file ?_⟩
      rintro other ⟨line, hline, hkind, hname⟩
      exact hacc line hline other hkind hname

theorem acc_iff_not_endless (fs : FileSystem) (file : Bytes) :
    Acc (fun other file => Includes fs file other) file ↔ ¬ Endless fs file := by
  rw [← not_iff_not, not_not, not_acc_iff_exists_descending_chain]
  rfl

theorem not_rel_of_acc {α : Type} {r : α → α → Prop} {a : α} (h : Acc r a) : ¬ r a a := by
  induction h with
  | intro a _ ih => exact fun hself => ih a hself hself

/-- Loading ends unless a chain of `#include` statements does not, and where nothing throws an
exception before, it does not end then. -/
theorem load_ends (objectFirst : Bytes → Bool) (fs : FileSystem) (file : Bytes) :
    (¬ Endless fs file → ∀ st, Ends objectFirst fs file st) ∧
      (AllCalm objectFirst fs file → ∀ st, Ends objectFirst fs file st → ¬ Endless fs file) := by
  rw [← acc_iff_not_endless]
  refine ⟨fun hacc st => ends_of_acc hacc st, ?_⟩
  rintro hcalm st ⟨depth, hends⟩
  obtain ⟨result, hresult⟩ := Option.ne_none_iff_exists'.mp hends
  exact (acc_of_ends hcalm hresult).2

end ParseFile

/-! ## A file that includes itself -/

/-- `"/a.sfz"` -/
def selfName : Bytes := [47, 97, 46, 115, 102, 122]

/-- `#include "/a.sfz"` -/
def selfLine : Bytes := bytes "#include " ++ [quote] ++ selfName ++ [quote]

def selfFiles : FileSystem := fun file => if file = selfName then some selfLine else none

theorem linesOf_selfFiles : linesOf selfFiles selfName = [selfLine] := by decide +kernel

theorem includeName_selfLine (dir : Bytes) : includeName dir selfLine = some selfName := by
  have hstart : findFrom (· = quote) selfLine 0 = some 9 := by decide +kernel
  have hend : findFrom (· = quote) selfLine 10 = some 16 := by decide +kernel
  unfold includeName
  rw [hstart]
  simp only [Option.bind_eq_bind, Option.bind_some, hend]
  have hname : (selfLine.drop (9 + 1)).take (16 - 9 - 1) = selfName := by decide +kernel
  have habsolute : (Path.fromPosix selfName).absolute = true := rfl
  rw [hname, habsolute, if_neg (fun h => Bool.noConfusion h.2)]
  rfl

theorem statement_selfLine : statement (withoutComment selfLine) = .inclusion := by decide +kernel

theorem withoutComment_selfLine : withoutComment selfLine = selfLine := by decide +kernel

theorem includes_selfFiles : Includes selfFiles selfName selfName :=
  ⟨selfLine, by rw [linesOf_selfFiles]; exact List.mem_cons_self, statement_selfLine,
    by rw [withoutComment_selfLine]; exact includeName_selfLine _⟩

theorem allCalm_selfFiles (objectFirst : Bytes → Bool) : AllCalm objectFirst selfFiles selfName := by
  have honly :
      ∀ other, Relation.ReflTransGen (Includes selfFiles) selfName other → other = selfName := by
    intro other hpath
    induction hpath with
    | refl => rfl
    | tail _ hstep ih =>
        subst ih
        obtain ⟨line, hline, -, hname⟩ := hstep
        rw [linesOf_selfFiles] at hline
        rw [List.mem_singleton.mp hline, withoutComment_selfLine, includeName_selfLine] at hname
        exact (Option.some.inj hname).symm
  intro other hpath line hline
  rw [honly other hpath, linesOf_selfFiles] at hline
  rw [List.mem_singleton.mp hline, Calm, statement_selfLine]
  trivial

/-- `"/b.sfz"` -/
def otherName : Bytes := [47, 98, 46, 115, 102, 122]

/-- The line is in another file, and the file it names is empty. -/
def emptyIncluded : FileSystem := fun file =>
  if file = otherName then some selfLine else if file = selfName then some [] else none

theorem not_endless_emptyIncluded : ¬ Endless emptyIncluded otherName := by
  rintro ⟨chain, hfirst, hchain⟩
  obtain ⟨line, hline, -, hname⟩ := hchain 0
  have hlines : linesOf emptyIncluded otherName = [selfLine] := by decide +kernel
  rw [hfirst, hlines] at hline
  rw [List.mem_singleton.mp hline, withoutComment_selfLine, includeName_selfLine] at hname
  obtain ⟨line', hline', -⟩ := hchain 1
  have hempty : ¬ line' ∈ linesOf emptyIncluded selfName := by
    rw [show linesOf emptyIncluded selfName = [] by decide +kernel]
    exact List.not_mem_nil
  exact hempty (Option.some.inj hname ▸ hline')

theorem load_ends_emptyIncluded : Ends (fun _ => true) emptyIncluded otherName {} ∧
    ¬ Ends (fun _ => true) selfFiles selfName {} :=
  ⟨(load_ends _ emptyIncluded _).1 not_endless_emptyIncluded {}, fun h =>
    (load_ends _ selfFiles selfName).2 (allCalm_selfFiles _) {} h
      ⟨fun _ => selfName, rfl, fun _ => includes_selfFiles⟩⟩

theorem not_ends : ¬ ∀ (objectFirst : Bytes → Bool) (fs : FileSystem) (file : Bytes) (st : FileState),
    Ends objectFirst fs file st := by
  intro h
  obtain ⟨depth, hends⟩ := h (fun _ => true) selfFiles selfName {}
  obtain ⟨result, hresult⟩ := Option.ne_none_iff_exists'.mp hends
  exact not_rel_of_acc (acc_of_ends (allCalm_selfFiles _) hresult).2 includes_selfFiles

end FileParser

end Sfz

end LinuxSampler
