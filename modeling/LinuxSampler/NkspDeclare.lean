import LinuxSampler.NkspParser
import LinuxSampler.NkspRelate

/-!
# Declarations of variables

The actions of the grammar in `scriptvm/parser.y` that declare variables,
and the constructors of `scriptvm/tree.cpp` they call. A constructor of a
number variable takes its positions in memory from the counters of the
`ParserContext`: one counter for each type of value and one for unit
factors, all of them once for global and once for polyphonic variables.
`loadScript()` and `createExecContext()` make the memories as large as
the counters are in the end.

Warnings, and the positions that errors are reported for, are left out.
-/

namespace LinuxSampler

open OpProg

structure ParserContext where
  vErrors : List String
  vartable : List (String × Expression)
  globalIntVarCount : Nat
  globalRealVarCount : Nat
  globalStrVarCount : Nat
  globalUnitFactorCount : Nat
  polyphonicIntVarCount : Nat
  polyphonicRealVarCount : Nat
  polyphonicUnitFactorCount : Nat
  /-- the number of array variables made so far, each an object of its own -/
  arrayCount : Nat
  /-- the memory that evaluation while parsing works on -/
  global : NkspGlobal

namespace ParserContext

/-- `vartable[name] = var` -/
def setVariable (ctx : ParserContext) (name : String) (var : Expression) : ParserContext :=
  { ctx with vartable := (name, var) :: ctx.vartable.filter fun entry => entry.1 ≠ name }

/-! ## Constructors -/

variable [Platform]

def evaluate {α : Type} (ctx : ParserContext) (p : MemProg α) : α × ParserContext :=
  let r := parseRun p ctx.global
  (r.1, { ctx with global := r.2 })

end ParserContext

/-- The variables of the engine, by name. -/
structure BuiltInVariables where
  constInt : List (String × Int)
  constReal : List (String × ℚ)
  int : List (String × VMIntPtr)
  /-- the array's identity and size -/
  intArray : List (String × Nat × Nat)
  dynamic : List (String × DynVar)
  dynamicArray : List (String × Nat)

namespace ParserContext

def registerAll {α : Type} (vars : List (String × α)) (var : α → Expression)
    (ctx : ParserContext) : ParserContext :=
  vars.foldl (fun ctx entry => ctx.setVariable entry.1 (var entry.2)) ctx

/-- A new context with the built-in variables. -/
def start (builtIn : BuiltInVariables) : ParserContext :=
  let ctx : ParserContext := ⟨[], [], 0, 0, 0, 0, 0, 0, 0, 0, ⟨initialMem, []⟩⟩
  ctx
    |> registerAll builtIn.constInt (fun value => .constIntVariable value noFactor .noUnit false)
    |> registerAll builtIn.constReal (fun value => .constRealVariable value noFactor .noUnit false)
    |> registerAll builtIn.int .builtInIntVariable
    |> registerAll builtIn.intArray
        (fun array => .arrayVariable (.builtInIntArray array.1 array.2))
    |> registerAll builtIn.dynamic .dynamicVariableCall
    |> registerAll builtIn.dynamicArray (fun var => .arrayVariable (.dynIntArray var))

variable [Platform]

end ParserContext

end LinuxSampler
