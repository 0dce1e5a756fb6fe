import Osisp.Lib.CInt

/-!
# The options of the two programs

`parse_args` of `stress_test.c` and the loop in `main` of `monitor.c` go through the
arguments in the same way. A value is what `atoi` makes of the argument behind the
option, whatever that is; an option at the end of the line changes nothing, and what
is no option is passed over.
-/

namespace Osisp.Stress

open Lib

/-- What an argument is, when it stands where an option is expected. -/
inductive Setting (σ : Type)
  | help
  /-- It takes the next argument as its value. -/
  | value (set : Bytes → σ → σ)
  | flag (set : σ → σ)
  | unknown

/-- `strcmp (arg, short) == 0 || strcmp (arg, long) == 0`. -/
def isOption (arg : Bytes) (short long : String) : Bool :=
  arg == ascii short || arg == ascii long

/-- The loop over the arguments; it has no result when help is asked for. -/
def parseOptions {σ : Type} (setting : Bytes → Setting σ) : List Bytes → σ → Option σ
  | [], s => some s
  | arg :: args, s =>
      match setting arg with
      | .help => none
      | .value set =>
          match args with
          | [] => some s
          | value :: args => parseOptions setting args (set value s)
      | .flag set => parseOptions setting args (set s)
      | .unknown => parseOptions setting args s

/-! ## `stress_test` -/

inductive LoadType
  | cpu
  | memory
  | mixed
  deriving DecidableEq

/-- `stress_params_t`. -/
structure StressParams where
  initialThreads : CInt
  maxThreads : CInt
  stepThreads : CInt
  delayMs : CInt
  iterationsPerThread : CInt
  loadType : LoadType
  verbose : Bool
  monitor : Bool
  deriving DecidableEq

def StressParams.default : StressParams where
  initialThreads := ⟨2, by decide⟩
  maxThreads := ⟨20, by decide⟩
  stepThreads := ⟨2, by decide⟩
  delayMs := ⟨500, by decide⟩
  iterationsPerThread := ⟨100000, by decide⟩
  loadType := .cpu
  verbose := false
  monitor := true

/-- The value of `-l`. -/
def loadType (value : Bytes) (before : LoadType) : LoadType :=
  if value = ascii "cpu" then .cpu
  else if value = ascii "memory" then .memory
  else if value = ascii "mixed" then .mixed
  else before

def stressSetting (arg : Bytes) : Setting StressParams :=
  if isOption arg "-h" "--help" then .help
  else if isOption arg "-t" "--threads" then
    .value fun v params => { params with initialThreads := atoi v }
  else if isOption arg "-m" "--max" then
    .value fun v params => { params with maxThreads := atoi v }
  else if isOption arg "-s" "--step" then
    .value fun v params => { params with stepThreads := atoi v }
  else if isOption arg "-d" "--delay" then
    .value fun v params => { params with delayMs := atoi v }
  else if isOption arg "-i" "--iter" then
    .value fun v params => { params with iterationsPerThread := atoi v }
  else if isOption arg "-l" "--load" then
    .value fun v params => { params with loadType := loadType v params.loadType }
  else if isOption arg "-v" "--verbose" then .flag fun params => { params with verbose := true }
  else .unknown

/-- `parse_args`, without the name of the program; `none` stands for `-1`. -/
def parseArgs (args : List Bytes) : Option StressParams :=
  parseOptions stressSetting args .default

/-! ## `monitor` -/

/-- The variables that the loop in `main` sets. -/
structure MonitorParams where
  intervalSec : CInt
  durationSec : CInt
  snapshotOnly : Bool
  deriving DecidableEq

def MonitorParams.default : MonitorParams := ⟨⟨2, by decide⟩, ⟨60, by decide⟩, false⟩

def monitorSetting (arg : Bytes) : Setting MonitorParams :=
  if isOption arg "-h" "--help" then .help
  else if isOption arg "-i" "--interval" then
    .value fun v params => { params with intervalSec := atoi v }
  else if isOption arg "-d" "--duration" then
    .value fun v params => { params with durationSec := atoi v }
  else if isOption arg "-s" "--snapshot" then
    .flag fun params => { params with snapshotOnly := true }
  else .unknown

def monitorArgs (args : List Bytes) : Option MonitorParams :=
  parseOptions monitorSetting args .default

example :
    (parseArgs [ascii "-t", ascii "-3", ascii "--load", ascii "mixed", ascii "-t"]).map
      (fun params => (params.initialThreads.1, params.loadType)) = some (-3, .mixed) := by
  decide

end Osisp.Stress
