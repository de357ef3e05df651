import LinuxSampler.SfzText

/-!
# Loading sfz files

`push_header()` and `push_opcode()` of `engines/sfz/sfz.cpp` with the
indices that they use: which pattern a key is compared with first, what
`sscanf()` reads of it, and what is then accessed in arrays of 128 elements
and in the lists of envelope generators, their nodes and low frequency
oscillators. The lists are as long as they have been made; what their
elements hold is left out, but for the limits that lookup tables are made
of.

Whether an element of a list is looked up before the value of an opcode is
read is unspecified. It is a parameter here, for each key.
-/

namespace LinuxSampler

namespace Sfz

open Bytes

/-! ## Opcodes -/

/-- How the value of an opcode is read. -/
inductive ValueKind where
  | int
  | float
  | key
  | text
  | offset

/-- Opcodes with names of their own in front of `amp_velcurve_`. -/
def intOpcodes : List String :=
  ["lochan", "hichan", "lovel", "hivel", "lobend", "hibend", "lochanaft", "hichanaft", "lopolyaft",
    "hipolyaft", "loprog", "hiprog", "seq_length", "seq_position", "group", "off_by", "offby",
    "count", "delay_beats", "stop_beats", "delay_samples", "end", "offset_random", "loop_start",
    "loopstart", "loop_end", "loopend", "offset", "sync_beats", "sync_offset", "xfin_lovel",
    "xfin_hivel", "xfout_lovel", "xfout_hivel", "transpose", "tune", "pitch_keytrack",
    "pitch_veltrack", "pitch_random", "bend_up", "bendup", "bend_down", "benddown", "bend_step",
    "bendstep", "cutoff_chanaft", "cutoff2_chanaft", "cutoff_polyaft", "cutoff2_polyaft",
    "fil_keytrack", "fil2_keytrack", "fil_veltrack", "fil2_veltrack", "fil_random", "fil2_random"]

def floatOpcodes : List String :=
  ["lobpm", "hibpm", "lorand", "hirand", "lotimer", "hitimer", "delay", "delay_random",
    "loop_crossfade", "volume", "amplitude", "pan", "width", "position", "amp_keytrack",
    "amp_veltrack", "amp_random", "rt_decay", "rtdecay", "cutoff", "cutoff2", "resonance",
    "resonance2", "eq1_freq", "eq2_freq", "eq3_freq", "eq1_vel2freq", "eq2_vel2freq",
    "eq3_vel2freq", "eq1_bw", "eq2_bw", "eq3_bw", "eq1_gain", "eq2_gain", "eq3_gain",
    "eq1_vel2gain", "eq2_vel2gain", "eq3_vel2gain"]

def keyOpcodes : List String :=
  ["lokey", "hikey", "key", "sw_lokey", "sw_hikey", "sw_last", "sw_down", "sw_up", "sw_previous",
    "amp_keycenter", "xfin_lokey", "xfin_hikey", "xfout_lokey", "xfout_hikey", "pitch_keycenter",
    "fil_keycenter", "fil2_keycenter"]

def textOpcodes : List String :=
  ["sample", "default_path", "sw_vel", "trigger", "off_mode", "offmode", "loop_mode", "loopmode",
    "xf_keycurve", "xf_velcurve", "xf_cccurve", "fil_type", "filtype", "fil2_type"]

/-- Opcodes that are read in `<control>` only. -/
def offsetOpcodes : List String := ["octave_offset", "note_offset"]

/-- Opcodes of the envelope generators and oscillators of the first version. -/
def v1FloatOpcodes : List String :=
  ["ampeg_delay", "ampeg_start", "ampeg_attack", "ampeg_hold", "ampeg_decay", "ampeg_sustain",
    "ampeg_release", "ampeg_vel2delay", "ampeg_vel2attack", "ampeg_vel2hold", "ampeg_vel2decay",
    "ampeg_vel2sustain", "ampeg_vel2release", "fileg_delay", "fileg_start", "fileg_attack",
    "fileg_hold", "fileg_decay", "fileg_sustain", "fileg_release", "fileg_vel2delay",
    "fileg_vel2attack", "fileg_vel2hold", "fileg_vel2decay", "fileg_vel2sustain",
    "fileg_vel2release", "pitcheg_delay", "pitcheg_start", "pitcheg_attack", "pitcheg_hold",
    "pitcheg_decay", "pitcheg_sustain", "pitcheg_release", "pitcheg_vel2delay",
    "pitcheg_vel2attack", "pitcheg_vel2hold", "pitcheg_vel2decay", "pitcheg_vel2sustain",
    "pitcheg_vel2release", "amplfo_delay", "amplfo_fade", "amplfo_freq", "amplfo_freqchanaft",
    "amplfo_depth", "amplfo_depthchanaft", "fillfo_delay", "fillfo_fade", "fillfo_freq",
    "fillfo_freqchanaft", "fillfo_depth", "pitchlfo_delay", "pitchlfo_fade", "pitchlfo_freq",
    "pitchlfo_freqchanaft"]

def v1IntOpcodes : List String :=
  ["fileg_depth", "pitcheg_depth", "fillfo_depthchanaft", "pitchlfo_depth",
    "pitchlfo_depthchanaft"]

/-- The names in front of `cc` whose opcodes set an element of an array. -/
def intArrays : List String :=
  ["lo", "hi", "start_lo", "start_hi", "stop_lo", "stop_hi", "on_lo", "on_hi", "delay_samples",
    "offset", "xfin_lo", "xfin_hi", "xfout_lo", "xfout_hi", "eq1_freq", "eq2_freq", "eq3_freq",
    "eq1_bw", "eq2_bw", "eq3_bw", "eq1_gain", "eq2_gain", "eq3_gain"]

def floatArrays : List String := ["delay", "gain", "gain_"]

/-- The names in front of `cc` whose opcodes add to a list, or to the map of `set_cc`. -/
def intLists : List String :=
  ["pitch", "pitch_curve", "pitch_step", "cutoff", "cutoff_", "cutoff2", "cutoff_step",
    "cutoff2_step", "cutoff_curve", "cutoff2_curve", "resonance_smooth", "resonance2_smooth",
    "resonance_curve", "resonance2_curve", "fileg_depth", "pitcheg_depth", "pitchlfo_depth",
    "fillfo_depth", "volume_curve", "pan_curve", "set_"]

def floatLists : List String :=
  ["pitch_smooth", "cutoff_smooth", "cutoff2_smooth", "resonance", "resonance2",
    "resonance_step", "resonance2_step", "ampeg_delay", "ampeg_start", "ampeg_attack",
    "ampeg_hold", "ampeg_decay", "ampeg_sustain", "ampeg_release", "fileg_delay", "fileg_start",
    "fileg_attack", "fileg_hold", "fileg_decay", "fileg_sustain", "fileg_release",
    "pitcheg_delay", "pitcheg_start", "pitcheg_attack", "pitcheg_hold", "pitcheg_decay",
    "pitcheg_sustain", "pitcheg_release", "pitchlfo_delay", "pitchlfo_fade", "pitchlfo_freq",
    "fillfo_delay", "fillfo_fade", "fillfo_freq", "amplfo_delay", "amplfo_fade", "amplfo_depth",
    "amplfo_freq", "volume", "volume_smooth", "volume_step", "pan", "pan_smooth", "pan_step"]

def named (names : List String) (key : Bytes) : Bool := names.any fun name => key = bytes name

def opcodeKind (key : Bytes) : Option ValueKind :=
  if named intOpcodes key then some .int
  else if named floatOpcodes key then some .float
  else if named keyOpcodes key then some .key
  else if named textOpcodes key then some .text
  else if named offsetOpcodes key then some .offset
  else none

def v1Kind (key : Bytes) : Option ValueKind :=
  if named v1FloatOpcodes key then some .float
  else if named v1IntOpcodes key then some .int
  else none

/-- What the key of an element is compared with behind its number: `strcmp()`, or `sscanf()`
with one number. -/
inductive Form where
  | exact (name : String)
  | numbered (name : String)

/-- An opcode of an element of a list; `node` tells that it is about one of its nodes. -/
structure SubOpcode where
  form : Form
  kind : ValueKind
  node : Bool

/-- The opcodes of an envelope generator behind `_time` and `_level`. -/
def egSubs : List SubOpcode :=
  [⟨.numbered "_shape", .float, true⟩, ⟨.numbered "_curve", .float, true⟩,
    ⟨.exact "_sustain", .int, false⟩, ⟨.exact "_loop", .int, false⟩,
    ⟨.exact "_loop_count", .int, false⟩, ⟨.exact "_amplitude", .float, false⟩,
    ⟨.numbered "_amplitude_oncc", .float, false⟩, ⟨.exact "_volume", .float, false⟩,
    ⟨.numbered "_volume_oncc", .float, false⟩, ⟨.exact "_cutoff", .float, false⟩,
    ⟨.numbered "_cutoff_oncc", .int, false⟩, ⟨.exact "_pitch", .int, false⟩,
    ⟨.numbered "_pitch_oncc", .int, false⟩, ⟨.exact "_resonance", .float, false⟩,
    ⟨.numbered "_resonance_oncc", .float, false⟩, ⟨.exact "_pan", .float, false⟩,
    ⟨.exact "_pan_curve", .int, false⟩, ⟨.numbered "_pan_oncc", .float, false⟩,
    ⟨.numbered "_pan_curvecc", .int, false⟩, ⟨.exact "_eq1freq", .float, false⟩,
    ⟨.exact "_eq2freq", .float, false⟩, ⟨.exact "_eq3freq", .float, false⟩,
    ⟨.exact "_eq1bw", .float, false⟩, ⟨.exact "_eq2bw", .float, false⟩,
    ⟨.exact "_eq3bw", .float, false⟩, ⟨.exact "_eq1gain", .float, false⟩,
    ⟨.exact "_eq2gain", .float, false⟩, ⟨.exact "_eq3gain", .float, false⟩,
    ⟨.numbered "_eq1freq_oncc", .float, false⟩, ⟨.numbered "_eq2freq_oncc", .float, false⟩,
    ⟨.numbered "_eq3freq_oncc", .float, false⟩, ⟨.numbered "_eq1bw_oncc", .float, false⟩,
    ⟨.numbered "_eq2bw_oncc", .float, false⟩, ⟨.numbered "_eq3bw_oncc", .float, false⟩,
    ⟨.numbered "_eq1gain_oncc", .float, false⟩, ⟨.numbered "_eq2gain_oncc", .float, false⟩,
    ⟨.numbered "_eq3gain_oncc", .float, false⟩]

/-- The opcodes of a member that controllers change, with smoothing and steps. -/
def smoothSubs (name : String) (kind stepKind : ValueKind) : List SubOpcode :=
  [⟨.numbered (name ++ "_oncc"), kind, false⟩, ⟨.numbered (name ++ "_smoothcc"), .int, false⟩,
    ⟨.numbered (name ++ "_stepcc"), stepKind, false⟩]

/-- The opcodes of a low frequency oscillator. -/
def lfoSubs : List SubOpcode :=
  ⟨.exact "_freq", .float, false⟩ :: smoothSubs "_freq" .float .float ++
    [⟨.exact "_wave", .int, false⟩, ⟨.exact "_delay", .float, false⟩,
      ⟨.numbered "_delay_oncc", .float, false⟩, ⟨.exact "_fade", .float, false⟩,
      ⟨.numbered "_fade_oncc", .float, false⟩, ⟨.exact "_phase", .float, false⟩,
      ⟨.numbered "_phase_oncc", .float, false⟩] ++
    ⟨.exact "_volume", .float, false⟩ :: smoothSubs "_volume" .float .float ++
    ⟨.exact "_pitch", .int, false⟩ :: smoothSubs "_pitch" .int .int ++
    ⟨.exact "_cutoff", .int, false⟩ :: smoothSubs "_cutoff" .int .int ++
    ⟨.exact "_resonance", .float, false⟩ :: smoothSubs "_resonance" .float .float ++
    ⟨.exact "_pan", .float, false⟩ :: smoothSubs "_pan" .float .float ++
    [⟨.exact "_eq1freq", .float, false⟩, ⟨.exact "_eq2freq", .float, false⟩,
      ⟨.exact "_eq3freq", .float, false⟩, ⟨.exact "_eq1bw", .float, false⟩,
      ⟨.exact "_eq2bw", .float, false⟩, ⟨.exact "_eq3bw", .float, false⟩,
      ⟨.exact "_eq1gain", .float, false⟩, ⟨.exact "_eq2gain", .float, false⟩,
      ⟨.exact "_eq3gain", .float, false⟩] ++
    ["_eq1freq", "_eq2freq", "_eq3freq", "_eq1bw", "_eq2bw", "_eq3bw", "_eq1gain", "_eq2gain",
      "_eq3gain"].flatMap fun name => smoothSubs name .float .float

/-! ## Dispatch -/

/-- What an opcode sets, with the numbers that stand in its key. -/
inductive Target where
  | member
  | velcurve (x : Suffix)
  | controller (name : Bytes) (x : Int)
  | eg (x : Suffix) (cc : Option Suffix)
  | egnode (x y : Suffix) (cc : Option Suffix)
  | lfo (x : Suffix) (cc : Option Suffix)

/-- What becomes of a key: nothing, an exception, a pointer to nowhere, or a target with the
kind of its values. -/
inductive Dispatched where
  | ignored
  | thrown
  | wild
  | value (target : Target) (kind : ValueKind)

/-- The number that is there after `sscanf()`, if it does not return zero. After `EOF` nothing
has been stored. -/
def Scanned.suffix? : Scanned → Option Suffix
  | mismatch => none
  | ended => some none
  | number n _ => some (Sfz.suffix n)

def Form.test (s : Bytes) : Form → Option (Option Suffix)
  | exact name => if s = bytes name then some none else none
  | numbered name => (sscanf (bytes name) s).suffix?.map some

/-- The first opcode that matches, with its number if it has one. -/
def findSub (s : Bytes) : List SubOpcode → Option (SubOpcode × Option Suffix)
  | [] => none
  | sub :: subs =>
      match sub.form.test s with
      | some cc => some (sub, cc)
      | none => findSub s subs

/-- What follows the number of a node. -/
def dispatchNode (x y : Suffix) (s2 : Bytes) : Dispatched :=
  if s2 = [] then .value (.egnode x y none) .float
  else
    match (sscanf (bytes "_oncc") s2).suffix? with
    | none => .ignored
    | some z => .value (.egnode x y (some z)) .float

/-- What follows the number of an envelope generator. -/
def dispatchEg (x : Suffix) (s : Bytes) : Dispatched :=
  match sscanf (bytes "_time") s with
  | .ended => .wild
  | .number y s2 => dispatchNode x (suffix y) s2
  | .mismatch =>
      match sscanf (bytes "_level") s with
      | .ended => .wild
      | .number y s2 => dispatchNode x (suffix y) s2
      | .mismatch =>
          match findSub s egSubs with
          | none => .ignored
          | some (sub, cc) =>
              .value (if sub.node then .egnode x cc.join none else .eg x cc) sub.kind

def dispatchLfo (x : Suffix) (s : Bytes) : Dispatched :=
  match findSub s lfoSubs with
  | none => .ignored
  | some (sub, cc) => .value (.lfo x cc) sub.kind

/-- What is in front of the first `cc` and behind it. -/
def splitCc : Bytes → Option (Bytes × Bytes)
  | [] => none
  | c :: s =>
      if c = 99 ∧ s.head? = some 99 then some ([], s.tail)
      else (splitCc s).map fun parts => (c :: parts.1, parts.2)

def withoutOn (keyCc : Bytes) : Bytes :=
  if 3 < keyCc.length ∧ keyCc.drop (keyCc.length - 3) = bytes "_on" then
    keyCc.take (keyCc.length - 3)
  else keyCc

/-- A controller that is out of range is reported, and used. -/
def dispatchCc (macros : Bytes → Option Bytes) (key : Bytes) : Dispatched :=
  match splitCc key with
  | none => .ignored
  | some (front, numCcStr) =>
      match if numCcStr.head? = some dollar then macros numCcStr else some numCcStr with
      | none => .ignored
      | some numCcStr =>
          match toInt numCcStr with
          | none => .thrown
          | some numCc =>
              let keyCc := withoutOn front
              if named intArrays keyCc then .value (.controller keyCc numCc) .int
              else if named floatArrays keyCc then .value (.controller keyCc numCc) .float
              else if named intLists keyCc then .value .member .int
              else if named floatLists keyCc then .value .member .float
              else .ignored

/-- The comparisons of `push_opcode()` outside of `<curve>`. -/
def dispatch (macros : Bytes → Option Bytes) (key : Bytes) : Dispatched :=
  match opcodeKind key with
  | some kind => .value .member kind
  | none =>
      match (sscanf (bytes "amp_velcurve_") (cStr key)).suffix? with
      | some x => .value (.velcurve x) .float
      | none =>
          match sscanf (bytes "eg") (cStr key) with
          | .ended => .wild
          | .number x s => dispatchEg (suffix x) s
          | .mismatch =>
              match v1Kind key with
              | some kind => .value .member kind
              | none =>
                  match sscanf (bytes "lfo") (cStr key) with
                  | .ended => .wild
                  | .number x s => dispatchLfo (suffix x) s
                  | .mismatch => dispatchCc macros key

/-! ## Accesses -/

/-- The limits of a definition, the number of nodes of each envelope generator, and the
number of oscillators. -/
structure Extent where
  region : Region := { id := 0 }
  egs : List Nat := []
  lfos : Nat := 0

/-- An index into an array of 128 elements. -/
def arrayIndex (x : Suffix) : Option (Fin 128) :=
  x.bind fun n => if h : 0 ≤ n ∧ n < 128 then some ⟨n.toNat, by omega⟩ else none

def setLimit (r : Region) (key : Bytes) (n : Int) : Region :=
  if key = bytes "lochan" then { r with lochan := n }
  else if key = bytes "hichan" then { r with hichan := n }
  else if key = bytes "lokey" then { r with lokey := n }
  else if key = bytes "hikey" then { r with hikey := n }
  else if key = bytes "key" then { r with lokey := n, hikey := n }
  else if key = bytes "lovel" then { r with lovel := n }
  else if key = bytes "hivel" then { r with hivel := n }
  else if key = bytes "lochanaft" then { r with lochanaft := n }
  else if key = bytes "hichanaft" then { r with hichanaft := n }
  else if key = bytes "lopolyaft" then { r with lopolyaft := n }
  else if key = bytes "hipolyaft" then { r with hipolyaft := n }
  else if key = bytes "loprog" then { r with loprog := n }
  else if key = bytes "hiprog" then { r with hiprog := n }
  else if key = bytes "sw_previous" then { r with swPrevious := n }
  else r

def setController (r : Region) (name : Bytes) (cc : Fin 128) (n : Int) : Region :=
  if name = bytes "lo" then { r with locc := Function.update r.locc cc n }
  else if name = bytes "hi" then { r with hicc := Function.update r.hicc cc n }
  else if name = bytes "on_lo" then { r with onLocc := Function.update r.onLocc cc n }
  else if name = bytes "on_hi" then { r with onHicc := Function.update r.onHicc cc n }
  else r

namespace Extent

/-- `eg()`: the list gets longer up to the element. -/
def eg (e : Extent) (x : Int) : Option Extent :=
  let egs := e.egs ++ List.replicate (x + 1 - e.egs.length).toNat 0
  if 0 ≤ x ∧ x < egs.length then some { e with egs := egs } else none

def egnode (e : Extent) (x y : Int) : Option Extent := do
  let e ← e.eg x
  let nodes := max (e.egs.getD x.toNat 0) (y + 1).toNat
  if 0 ≤ y ∧ y < nodes then some { e with egs := e.egs.set x.toNat nodes } else none

def lfo (e : Extent) (x : Int) : Option Extent :=
  let lfos := max e.lfos (x + 1).toNat
  if 0 ≤ x ∧ x < lfos then some { e with lfos := lfos } else none

end Extent

namespace Target

/-- The elements of lists are looked up before or after the value is read. -/
def inList : Target → Bool
  | eg _ _ | egnode _ _ _ | lfo _ _ => true
  | _ => false

/-- What the target is set to, unless it is out of bounds or a number is used that was not
read. -/
def set (target : Target) (key : Bytes) (n : Int) (e : Extent) : Option Extent :=
  match target with
  | member => some { e with region := setLimit e.region key n }
  | velcurve x => (arrayIndex x).map fun _ => e
  | controller name x =>
      (arrayIndex (some x)).map fun cc => { e with region := setController e.region name cc n }
  | eg x cc => if cc = some none then none else x.bind e.eg
  | egnode x y cc =>
      if cc = some none then none else x.bind fun x => y.bind fun y => e.egnode x y
  | lfo x cc => if cc = some none then none else x.bind e.lfo

end Target

/-! ## Loader -/

/-- What comes of a step: the next state, an exception, or undefined behaviour. -/
inductive Result (α : Type) where
  | done (a : α)
  | thrown
  | undefined

/-- The section as far as `push_opcode()` looks at it. -/
inductive SectionKind where
  | definition
  | control
  | curve
  | unknown
  deriving DecidableEq

/-- The stack of containers is never empty. An opened region is what `pCurDef` points to,
else it is the container on top. -/
structure Loader where
  section_ : SectionKind := .definition
  top : SectionType × Extent := (.global, {})
  below : List (SectionType × Extent) := []
  regions : List Extent := []
  opened : Option Extent := none
  macros : Bytes → Option Bytes := fun _ => none
  noteOffset : Int := 0
  octaveOffset : Int := 0

inductive Item where
  | define (name value : Bytes)
  | header (token : Bytes)
  | opcode (token : Bytes)

namespace Loader

def current (f : Loader) : Extent := f.opened.getD f.top.2

def setCurrent (f : Loader) (e : Extent) : Loader :=
  match f.opened with
  | some _ => { f with opened := some e }
  | none => { f with top := (f.top.1, e) }

/-- All regions in the order of the file. -/
def allRegions (f : Loader) : List Extent := f.regions ++ f.opened.toList

def pushContainer (f : Loader) (type : SectionType) : Loader :=
  let left := (f.top :: f.below).dropWhile fun c => c.1.level ≤ type.level
  { f with
    section_ := .definition
    top := (type, (left.head?.map Prod.snd).getD {})
    below := left
    regions := f.allRegions
    opened := none }

def pushRegion (f : Loader) : Loader :=
  let e := f.top.2
  { f with
    section_ := .definition
    regions := f.allRegions
    opened := some { e with region := { e.region with id := f.allRegions.length } } }

def pushHeader (f : Loader) (token : Bytes) : Loader :=
  if token = bytes "<global>" then f.pushContainer .global
  else if token = bytes "<master>" then f.pushContainer .master
  else if token = bytes "<group>" then f.pushContainer .group
  else if token = bytes "<region>" then f.pushRegion
  else if token = bytes "<control>" then
    { f with section_ := .control, noteOffset := 0, octaveOffset := 0 }
  else if token = bytes "<curve>" then { f with section_ := .curve }
  else { f with section_ := .unknown }

def equals : UInt8 := 61

/-- Without a `=`, the token is both key and value. -/
def keyOf (token : Bytes) : Bytes := token.takeWhile (· ≠ equals)

def valueOf (token : Bytes) : Bytes :=
  if equals ∈ token then (token.dropWhile (· ≠ equals)).tail else token

/-- The value as a number, as far as it can be read. Of floats and texts it does not
matter which. -/
def read (f : Loader) (kind : ValueKind) (value : Bytes) : Option Int :=
  match kind with
  | .int => toInt value
  | .float => if isFloat value then some 0 else none
  | .key => some (parseKey f.noteOffset f.octaveOffset value)
  | .text => some 0
  | .offset => if f.section_ = .control then toInt value else some 0

def setOffset (f : Loader) (key : Bytes) (n : Int) : Loader :=
  if f.section_ ≠ .control then f
  else if key = bytes "octave_offset" then { f with octaveOffset := n }
  else if key = bytes "note_offset" then { f with noteOffset := n }
  else f

/-- `objectFirst` tells whether the target is evaluated before the value. -/
def assign (f : Loader) (objectFirst : Bool) (target : Target) (key : Bytes) (n? : Option Int) :
    Result Loader :=
  match n? with
  | some n =>
      match target.set key n f.current with
      | some e => .done ((f.setCurrent e).setOffset key n)
      | none => .undefined
  | none =>
      if objectFirst ∧ target.inList ∧ target.set key 0 f.current = none then .undefined
      else .thrown

/-- An opcode of a curve, whose index is only reported if it is out of range. -/
def pushCurve (f : Loader) (key value : Bytes) : Result Loader :=
  match (sscanf (bytes "v") (cStr key)).suffix? with
  | none => .done f
  | some x =>
      if isFloat value then
        match arrayIndex x with
        | some _ => .done f
        | none => .undefined
      else .thrown

def pushOpcode (objectFirst : Bytes → Bool) (f : Loader) (token : Bytes) : Result Loader :=
  if f.section_ = .unknown then .done f
  else
    match applyMacros f.macros none (valueOf token) with
    | none => .done f
    | some value =>
        let key := keyOf token
        if f.section_ = .curve then f.pushCurve key value
        else
          match dispatch f.macros key with
          | .ignored => .done f
          | .thrown => .thrown
          | .wild => .undefined
          | .value target kind => f.assign (objectFirst key) target key (f.read kind value)

def push (objectFirst : Bytes → Bool) (f : Loader) : Item → Result Loader
  | .define name value => .done { f with macros := Function.update f.macros name (some value) }
  | .header token => .done (f.pushHeader token)
  | .opcode token => f.pushOpcode objectFirst token

end Loader

end Sfz

end LinuxSampler
