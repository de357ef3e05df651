import Mathlib.Algebra.GroupWithZero.Nat

/-!
# MIDI data

Keys, controllers and their values are numbers of seven bits.
-/

namespace LinuxSampler

abbrev Key := Fin 128

instance instNeZeroKey : NeZero 128 := ⟨Nat.succ_ne_zero 127⟩

instance instLawfulBEqKey : LawfulBEq Key := inferInstance

end LinuxSampler
