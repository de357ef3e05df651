import LinuxSampler.SfzLookup
import LinuxSampler.SfzSections
import Mathlib.Data.List.TakeWhile

/-!
# Numbers and macros in sfz files

What `push_opcode()` reads from the text of an opcode: `sscanf()` with a
literal and one number behind it, `ToInt()`, `ToFloat()` and `parseKey()`
on string streams, and macros.

`sscanf()` returns `EOF`, which is taken for a match, if the text ends
before a number begins: somewhere within the literal, or behind it and
maybe some spaces (`sscanf_eq_ended_iff`).
-/

namespace LinuxSampler

namespace Sfz

open Bytes

/-- The bytes of a text of the source. -/
def bytes (s : String) : Bytes := s.toUTF8.toList

def isSpace (c : UInt8) : Bool := c = 32 ∨ 9 ≤ c ∧ c ≤ 13

def isDigit (c : UInt8) : Bool := 48 ≤ c ∧ c ≤ 57

/-- Decimal digits. -/
def digitsValue (digits : Bytes) : Nat := digits.foldl (fun n d => 10 * n + (d.toNat - 48)) 0

/-- Whether there is a minus, and what follows a sign. -/
def sign : Bytes → Bool × Bytes
  | [] => (false, [])
  | c :: s => if c = 45 then (true, s) else if c = 43 then (false, s) else (false, c :: s)

/-- The digits behind a sign, and what follows them. -/
def decimal (s : Bytes) : Option (Int × Bytes) :=
  let (negative, s) := sign s
  let n : Int := digitsValue (s.takeWhile isDigit)
  if s.takeWhile isDigit = [] then none
  else some (if negative then -n else n, s.dropWhile isDigit)

def IsInt (n : Int) : Prop := -2147483648 ≤ n ∧ n ≤ intMax

instance : DecidablePred IsInt := fun _ => inferInstanceAs (Decidable (_ ∧ _))

/-! ## `sscanf()` -/

/-- What `sscanf()` returns: no match, `EOF`, or one number with what follows it. -/
inductive Scanned where
  | mismatch
  | ended
  | number (n : Int) (rest : Bytes)

/-- The text up to a NUL byte. -/
def cStr (s : Bytes) : Bytes := s.takeWhile (· ≠ nul)

/-- A format that is a literal with `%d` behind it. -/
def sscanf : Bytes → Bytes → Scanned
  | [], s =>
      if s.dropWhile isSpace = [] then .ended
      else
        match decimal (s.dropWhile isSpace) with
        | none => .mismatch
        | some (n, rest) => .number n rest
  | _ :: _, [] => .ended
  | l :: literal, c :: s => if l = c then sscanf literal s else .mismatch

/-- What a `%d` stores, if the text has a number there that is an `int`. -/
abbrev Suffix := Option Int

def suffix (n : Int) : Suffix := if IsInt n then some n else none

/-- A text that ends before the number of a pattern: it is the beginning of the literal, or
there are only spaces behind it. -/
def CutShort (literal s : Bytes) : Prop :=
  s <+: literal ∨ ∃ spaces : Bytes, (∀ c ∈ spaces, isSpace c = true) ∧ s = literal ++ spaces

theorem sscanf_eq_ended_iff (literal s : Bytes) :
    sscanf literal s = .ended ↔ CutShort literal s := by
  induction literal generalizing s with
  | nil =>
      unfold sscanf
      by_cases hspaces : s.dropWhile isSpace = []
      · rw [if_pos hspaces]
        refine iff_of_true rfl (.inr ⟨s, ?_, rfl⟩)
        exact List.dropWhile_eq_nil_iff.mp hspaces
      · rw [if_neg hspaces]
        refine iff_of_false ?_ ?_
        · cases decimal (s.dropWhile isSpace) with
          | none => exact Scanned.noConfusion
          | some read => exact Scanned.noConfusion
        · rintro (hnil | ⟨spaces, hall, rfl⟩)
          · rw [List.prefix_nil.mp hnil] at hspaces
            exact hspaces rfl
          · exact hspaces (List.dropWhile_eq_nil_iff.mpr hall)
  | cons l literal ih =>
      cases s with
      | nil => exact iff_of_true rfl (.inl List.nil_prefix)
      | cons c s =>
          unfold sscanf
          by_cases heq : l = c
          · rw [if_pos heq, ih, heq]
            unfold CutShort
            simp only [List.cons_prefix_cons, List.cons_append, List.cons.injEq, true_and]
          · rw [if_neg heq]
            refine iff_of_false Scanned.noConfusion ?_
            rintro (hbegins | ⟨spaces, -, hcons⟩)
            · exact heq (List.cons_prefix_cons.mp hbegins).1.symm
            · exact heq (List.cons.inj hcons).1.symm

/-! ## String streams -/

/-- `>>` to an `int`, and what follows the number. -/
def streamInt (s : Bytes) : Option (Int × Bytes) :=
  (decimal (s.dropWhile isSpace)).filter fun read => IsInt read.1

def toInt (s : Bytes) : Option Int := (streamInt s).map Prod.fst

/-- Whether the digits of a number times a power of ten are a `float`, and not too big. -/
def isFinite (digits : Bytes) (exponent : Int) : Bool :=
  let bound : Nat := 2 ^ 128 - 2 ^ 103
  if 0 ≤ exponent then digitsValue digits * 10 ^ exponent.toNat < bound
  else digitsValue digits < bound * 10 ^ (-exponent).toNat

/-- Whether `ToFloat()` can read the text. -/
def isFloat (s : Bytes) : Bool :=
  let s := (sign (s.dropWhile isSpace)).2
  let whole := s.takeWhile isDigit
  let s := s.dropWhile isDigit
  let fraction := if s.head? = some 46 then s.tail.takeWhile isDigit else []
  let s := if s.head? = some 46 then s.tail.dropWhile isDigit else s
  let digits := whole ++ fraction
  if digits = [] then false
  else if s.head? = some 101 ∨ s.head? = some 69 then
    match decimal s.tail with
    | none => false
    | some (exponent, _) => isFinite digits (exponent - fraction.length)
  else isFinite digits (-fraction.length)

/-- The number of a note without octave. -/
def noteNumber (c : UInt8) : Option Int :=
  let lower := if 65 ≤ c ∧ c ≤ 90 then c + 32 else c
  if lower = 99 then some 0
  else if lower = 100 then some 2
  else if lower = 101 then some 4
  else if lower = 102 then some 5
  else if lower = 103 then some 7
  else if lower = 97 then some 9
  else if lower = 98 then some 11
  else none

/-- What is behind the name of a note: a sharp or a flat. -/
def accidental : Bytes → Int × Bytes
  | [] => (0, [])
  | c :: s =>
      if c = 35 then (1, s)
      else if c = 98 ∨ c = 66 then (-1, s)
      else (0, c :: s)

def parseKey (noteOffset octaveOffset : Int) (s : Bytes) : Int :=
  match s with
  | [] => 0
  | c :: rest =>
      if isDigit c then
        min (digitsValue (s.takeWhile isDigit) : Int) intMax + noteOffset + 12 * octaveOffset
      else
        match noteNumber c with
        | none => if s = bytes "-1" then -1 else 0
        | some note =>
            let (shift, rest) := accidental rest
            match streamInt rest with
            | none => 0
            | some (octave, _) =>
                note + shift + (octave + 1) * 12 + noteOffset + 12 * octaveOffset

/-! ## Macros -/

def isMacroName (c : UInt8) : Bool :=
  97 ≤ c ∧ c ≤ 122 ∨ 65 ≤ c ∧ c ≤ 90 ∨ isDigit c ∨ c = 95

def dollar : UInt8 := 36

/-- The value of an opcode with the macros replaced, if all of them are defined; the argument
after the macros is the name that is being read. -/
def applyMacros (macros : Bytes → Option Bytes) : Option Bytes → Bytes → Option Bytes
  | none, [] => some []
  | some name, [] => macros name
  | none, c :: s =>
      if c = dollar then applyMacros macros (some [dollar]) s
      else (applyMacros macros none s).map (c :: ·)
  | some name, c :: s =>
      if isMacroName c then applyMacros macros (some (name ++ [c])) s
      else do
        let value ← macros name
        let rest ←
          if c = dollar then applyMacros macros (some [dollar]) s
          else (applyMacros macros none s).map (c :: ·)
        return value ++ rest

end Sfz

end LinuxSampler
