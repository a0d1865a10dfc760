import PerftestLite.Core.Types

/-!
# Input arguments

The defaults of a build, the command line and what it may set.

* `ArgDefaults`, `inputArgsInit`: the defaults, `configDefaults` those of `perftest_lite_config.h`;
* `strtol`: the C function in base `0`;
* `options`: every option of the command line, `parseArguments` over a whole `argv`.
-/

set_option autoImplicit false

namespace PerftestLite

open Word

/-- What a build makes of the defaults: its role, the `PERFTEST_LITE_DEFAULT_*` values and whether the
middleware has Zero Copy. The default of `-datalen` comes from the type. -/
structure ArgDefaults where
  role : Role
  domainId : ℤ
  nic : String
  peer : String
  hasZerocopy : Bool
  latencyStream : Bool
  execSeconds : ℤ
  pubrate : ℤ
  latencyCount : ℤ
  subSleepUs : ℤ
  reliable : Bool
  latencyTest : Bool
  deriving DecidableEq, Repr

/-- `perftest_lite_input_args_init`. -/
def inputArgsInit (T : TypeInterface) (d : ArgDefaults) : InputArgs where
  role := d.role
  domainId := d.domainId
  nic := d.nic
  peer := d.peer
  transportId := if d.hasZerocopy then "ZeroCopy" else "UDPv4"
  latencyLogFile := none
  latencyStream := d.latencyStream
  datalen := T.defaultSampleSize
  execSeconds := d.execSeconds
  pubrate := d.pubrate
  latencyCount := d.latencyCount
  subSleepUs := d.subSleepUs
  reliable := d.reliable
  latencyTest := d.latencyTest
  printEverySecond := false
  printConfig := true
  printResourceLimits := true

/-- The fallbacks of `perftest_lite_config.h`, for a build without Zero Copy. -/
def configDefaults (role : Role) : ArgDefaults where
  role := role
  domainId := 0
  nic := "lo"
  peer := "127.0.0.1"
  hasZerocopy := false
  latencyStream := false
  execSeconds := 10
  pubrate := -1
  latencyCount := 10000
  subSleepUs := 1000000
  reliable := false
  latencyTest := false

/-- The sequence type as the build configures it by default, its sequences growing to any maximum. -/
def sequenceType : TypeInterface := typeDefault growingCalls 64000 100

/-- A publisher of a build with the fallbacks and without Zero Copy, started without arguments. -/
def publisherDefaults : InputArgs := inputArgsInit sequenceType (configDefaults .publisher)

/-- A subscriber of such a build, started without arguments. -/
def subscriberDefaults : InputArgs := inputArgsInit sequenceType (configDefaults .subscriber)

/-! ## `strtol` in base `0` -/

/-- What `strtol` leaves behind: its value, the unread rest of the text, whether there was anything
to convert and whether the value fits a 64-bit `long`. -/
structure Conversion where
  value : ℤ
  rest : List Char
  converted : Bool
  inRange : Bool
  deriving DecidableEq, Repr

/-- `isspace`. -/
def isSpace (c : Char) : Bool := c = ' ' || (decide (9 ≤ c.toNat) && decide (c.toNat ≤ 13))

/-- The value of a digit or letter. -/
def digitValue (c : Char) : Option ℕ :=
  if '0' ≤ c ∧ c ≤ '9' then some (c.toNat - 48)
  else if 'a' ≤ c ∧ c ≤ 'z' then some (c.toNat - 87)
  else if 'A' ≤ c ∧ c ≤ 'Z' then some (c.toNat - 55)
  else none

def isDigit (base : ℕ) (c : Char) : Bool := (digitValue c).any fun d => decide (d < base)

/-- The optional sign. -/
def signOf : List Char → Bool × List Char
  | '-' :: t => (true, t)
  | '+' :: t => (false, t)
  | t => (false, t)

/-- Base and digits: `0x` before a hexadecimal digit, a leading `0`, or decimal. -/
def baseOf : List Char → ℕ × List Char
  | '0' :: x :: d :: t =>
    if (x = 'x' ∨ x = 'X') ∧ isDigit 16 d = true then (16, d :: t) else (8, '0' :: x :: d :: t)
  | '0' :: t => (8, '0' :: t)
  | t => (10, t)

def magnitude (base : ℕ) (ds : List Char) : ℕ :=
  ds.foldl (fun n c => n * base + (digitValue c).getD 0) 0

/-- `strtol(text, &end, 0)`. -/
def strtol (text : List Char) : Conversion :=
  let (negative, unsigned) := signOf (text.dropWhile isSpace)
  let (base, body) := baseOf unsigned
  let digits := body.takeWhile (isDigit base)
  if digits = [] then ⟨0, text, false, true⟩
  else
    let value : ℤ := if negative then -(magnitude base digits : ℤ) else magnitude base digits
    let rest := body.dropWhile (isDigit base)
    if value > 9223372036854775807 then ⟨9223372036854775807, rest, true, false⟩
    else if value < -9223372036854775808 then ⟨-9223372036854775808, rest, true, false⟩
    else ⟨value, rest, true, true⟩

/-! ## The command line -/

/-- What is printed when the command line is rejected. -/
inductive ParseError
  | missingValue (opt : String)
  | invalidValue (opt text : String) (min max : ℤ)
  | zeroRate (opt : String)
  | unknownOption (opt : String)
  deriving DecidableEq, Repr

/-- `parse_int32_option`. -/
def parseInt32Option (opt text : String) (min max : ℤ) : Except ParseError ℤ :=
  let c := strtol text.toList
  if c.inRange = false ∨ c.converted = false ∨ c.rest ≠ [] ∨ c.value < min ∨ c.value > max then
    .error (.invalidValue opt text min max)
  else .ok c.value

/-- An option of the command line: a flag, or one that reads the next token. -/
inductive OptionSpec
  | flag (set : InputArgs → InputArgs)
  | value (set : String → InputArgs → Except ParseError InputArgs)

/-- An option with a number in a range. -/
def numberOption (opt : String) (min max : ℤ) (set : ℤ → InputArgs → InputArgs) :
    String × OptionSpec :=
  (opt, .value fun text a => (parseInt32Option opt text min max).map fun v => set v a)

/-- An option with a text. -/
def textOption (opt : String) (set : String → InputArgs → InputArgs) : String × OptionSpec :=
  (opt, .value fun text a => .ok (set text a))

/-- `-pubrate`, whose range has a hole at zero. -/
def pubrateOption : String × OptionSpec :=
  ("-pubrate", .value fun text a => (parseInt32Option "-pubrate" text (-1) int32Max).bind fun v =>
    if v = 0 then .error (.zeroRate "-pubrate") else .ok { a with pubrate := v })

/-- The options of `perftest_lite_parse_arguments` in the order they are tried, help apart. -/
def options : List (String × OptionSpec) :=
  [("-pub", .flag fun a => { a with role := .publisher }),
    ("-sub", .flag fun a => { a with role := .subscriber }),
    numberOption "-domain" 0 232 fun v a => { a with domainId := v },
    textOption "-nic" fun v a => { a with nic := v },
    textOption "-peer" fun v a => { a with peer := v },
    textOption "-transport" fun v a => { a with transportId := v },
    textOption "-latencyLog" fun v a => { a with latencyLogFile := some v },
    numberOption "-datalen" 1 int32Max fun v a => { a with datalen := v },
    numberOption "-exec" 1 int32Max fun v a => { a with execSeconds := v },
    pubrateOption,
    numberOption "-latencyCount" 1 int32Max fun v a => { a with latencyCount := v },
    numberOption "-subSleep" 0 int32Max fun v a => { a with subSleepUs := v },
    ("-rel", .flag fun a => { a with reliable := true }),
    ("-latencyTest", .flag fun a => { a with latencyTest := true }),
    ("-printPeriodic", .flag fun a => { a with printEverySecond := true }),
    ("-noPrintConfig", .flag fun a => { a with printConfig := false }),
    ("-latencyStream", .flag fun a => { a with latencyStream := true })]

inductive ParseResult
  | ok (args : InputArgs)
  | help
  | error (e : ParseError)
  deriving DecidableEq, Repr

/-- The loop over the tokens behind the program name. -/
def parseTokens (a : InputArgs) : List String → ParseResult
  | [] => .ok a
  | opt :: rest =>
    if opt = "-h" ∨ opt = "--help" then .help
    else match options.lookup opt with
      | none => .error (.unknownOption opt)
      | some (.flag set) => parseTokens (set a) rest
      | some (.value set) =>
        match rest with
        | [] => .error (.missingValue opt)
        | text :: rest' =>
          match set text a with
          | .ok a' => parseTokens a' rest'
          | .error e => .error e

/-- `perftest_lite_parse_arguments`. -/
def parseArguments (T : TypeInterface) (d : ArgDefaults) (argv : List String) : ParseResult :=
  parseTokens (inputArgsInit T d) argv.tail

end PerftestLite
