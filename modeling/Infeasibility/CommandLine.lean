import Infeasibility.Lecture.Report
import Infeasibility.Parameter.Basic

/-!
# The command line

The arguments choose a lecture and a method, all of them if nothing else is said. They are read
from left to right, and the first fault decides. Two parameters may come from the environment.
-/

namespace Infeasibility.CommandLine

/-! ### Arguments -/

/-- How much is told on the error stream. -/
inductive LogLevel where
  | error
  | warn
  | info
  | debug
  | trace
  deriving Repr, DecidableEq

structure Options where
  /-- A lecture; all if there is none. -/
  lecture : Option Lecture := none
  /-- A method; all if there is none. -/
  method : Option Method := none
  verify : Bool := false
  logLevel : LogLevel := .warn
  deriving Repr, DecidableEq

/-- Why nothing is run. -/
inductive Stop where
  | help
  | misused
  deriving Repr, DecidableEq

/-- The options that take a value. -/
inductive Key where
  | method
  | logLevel
  deriving Repr, DecidableEq

def lecture? : String → Option (Option Lecture)
  | "all" => some none
  | "conflict" => some (some .conflict)
  | "implication" => some (some .implication)
  | "colouring" => some (some .colouring)
  | "bugged" => some (some .bugged)
  | _ => none

def method? : String → Option (Option Method)
  | "all" => some none
  | "mus" => some (some .deletion)
  | "mcs-grow" => some (some .growth)
  | "mcs-reified" => some (some .indicators)
  | "mcs-direct" => some (some .softTerms)
  | _ => none

/-- A level is given by its rank, or by its name in any case of the letters. -/
def logLevel? (text : String) : Option LogLevel :=
  match Numeral.unsigned? text.toList with
  | some 1 => some .error
  | some 2 => some .warn
  | some 3 => some .info
  | some 4 => some .debug
  | some 5 => some .trace
  | _ =>
    match text.map Char.toLower with
    | "error" => some .error
    | "warn" => some .warn
    | "info" => some .info
    | "debug" => some .debug
    | "trace" => some .trace
    | _ => none

/-- The arguments read so far. What was given must not be given again. -/
structure Parsing where
  lecture : Option (Option Lecture) := none
  method : Option (Option Method) := none
  verify : Bool := false
  logLevel : Option LogLevel := none
  /-- An option that waits for its value. -/
  pending : Option Key := none
  /-- Whether all further arguments are names of lectures, whatever they look like. -/
  escaped : Bool := false

namespace Parsing

def setLecture (parsing : Parsing) (text : String) : Except Stop Parsing :=
  match parsing.lecture, lecture? text with
  | none, some lecture => .ok { parsing with lecture := some lecture }
  | _, _ => .error .misused

def setVerify (parsing : Parsing) : Except Stop Parsing :=
  if parsing.verify then .error .misused else .ok { parsing with verify := true }

def setValue (parsing : Parsing) (text : String) : Key → Except Stop Parsing
  | .method =>
    match parsing.method, method? text with
    | none, some method => .ok { parsing with method := some method, pending := none }
    | _, _ => .error .misused
  | .logLevel =>
    match parsing.logLevel, logLevel? text with
    | none, some level => .ok { parsing with logLevel := some level, pending := none }
    | _, _ => .error .misused

/-- An option of several letters, with the value that follows an equals sign, if one does. -/
def readLong (parsing : Parsing) (name : String) (value : Option String) :
    Except Stop Parsing :=
  match name, value with
  | "algorithm", some text => parsing.setValue text .method
  | "algorithm", none => .ok { parsing with pending := some .method }
  | "log-level", some text => parsing.setValue text .logLevel
  | "log-level", none => .ok { parsing with pending := some .logLevel }
  | "verify", none => parsing.setVerify
  | "help", none => .error .help
  | _, _ => .error .misused

/-- An option of one letter, with the letters after it. They are its value, and an equals sign may
separate them. -/
def readShort (parsing : Parsing) (letter : Char) (rest : List Char) : Except Stop Parsing :=
  let valueOf (key : Key) :=
    match rest with
    | [] => .ok { parsing with pending := some key }
    | '=' :: text => parsing.setValue (String.ofList text) key
    | text => parsing.setValue (String.ofList text) key
  match letter with
  | 'a' => valueOf .method
  | 'l' => valueOf .logLevel
  | 'h' => .error .help
  | _ => .error .misused

/-- The parts of a text before and after its first equals sign. -/
def splitValue (text : List Char) : String × Option String :=
  match text.dropWhile (· ≠ '=') with
  | [] => (String.ofList text, none)
  | _ :: value => (String.ofList (text.takeWhile (· ≠ '=')), some (String.ofList value))

/-- The next argument. Nothing that looks like an option is taken for a value. -/
def read (parsing : Parsing) (argument : String) : Except Stop Parsing :=
  if parsing.escaped then
    parsing.setLecture argument
  else
    match parsing.pending, argument.toList with
    | some _, '-' :: _ => .error .misused
    | some key, _ => parsing.setValue argument key
    | none, ['-', '-'] => .ok { parsing with escaped := true }
    | none, '-' :: '-' :: text =>
      let (name, value) := splitValue text
      parsing.readLong name value
    | none, '-' :: letter :: rest => parsing.readShort letter rest
    | none, _ => parsing.setLecture argument

/-- The options, unless one of them still waits for its value. -/
def finish (parsing : Parsing) : Except Stop Options :=
  match parsing.pending with
  | some _ => .error .misused
  | none => .ok {
      lecture := parsing.lecture.join
      method := parsing.method.join
      verify := parsing.verify
      logLevel := parsing.logLevel.getD .warn }

end Parsing

/-- What the arguments ask for. -/
def parse (arguments : List String) : Except Stop Options := do
  (← arguments.foldlM Parsing.read {}).finish

/-! ### Parameters -/

/-- Whether diagnoses are verified. -/
def verifyParameter : Parameter Bool where
  name := "DIAGNOSIS_VERIFY"
  default := "false"

/-- How many assignments the solver may enumerate for a question. -/
def limitParameter : Parameter UInt64 where
  name := "FD_ORACLE_MAX_ASSIGNMENTS"
  default := toString FiniteDomain.Solver.defaultLimit

/-- The settings of the parameters. -/
structure Environment where
  verify : Setting := .unset
  limit : Setting := .unset

/-- Looks the settings up by the names of the parameters. -/
def Environment.gather {m : Type → Type} [Monad m] (lookUp : String → m Setting) :
    m Environment := do
  let verify ← lookUp verifyParameter.name
  let limit ← lookUp limitParameter.name
  return { verify, limit }

/-! ### Runs -/

/-- What a run leaves behind. -/
structure Output where
  text : String := ""
  /-- What is told on the error stream. -/
  log : String := ""
  exitCode : UInt32 := 0

def usage : String :=
  "Usage: diagnose-lectures [OPTIONS] [LECTURE]\n\n" ++
  "LECTURE is all, conflict, implication, colouring or bugged.\n\n" ++
  "  -a, --algorithm ALGORITHM   all, mus, mcs-grow, mcs-reified or mcs-direct\n" ++
  "      --verify                check each diagnosis before it is printed\n" ++
  "  -l, --log-level LEVEL       error, warn, info, debug or trace\n" ++
  "  -h, --help                  print this help\n"

/-- The reports on some lectures, one after another. Each starts with a solver of its own, and the
first error ends the run. -/
def reportAll (limit : UInt64) (verify : Bool) (methods : List Method) :
    List Lecture → Output → Output
  | [], output => output
  | lecture :: lectures, output =>
    let lesson := lecture.lesson
    let solver : FiniteDomain.Solver := { model := lesson.model, limit := limit.toNat }
    let dialogue := (lesson.report verify methods).run.run output.text
    match (dialogue.run FiniteDomain.oracle solver).1 with
    | .ok (.ok (), text) => reportAll limit verify methods lectures { output with text }
    | .ok (.error error, text) =>
      { text, log := output.log ++ "Error: " ++ error.message ++ "\n", exitCode := 1 }
    | .error misuse =>
      { output with
        log := output.log ++ misuse.message?.getD "the program was misused" ++ "\n"
        exitCode := 101 }

/-- The warning of a reading, if any, as it is logged. -/
def logOf {α : Type} (options : Options) (reading : Parameter.Reading α) : String :=
  match options.logLevel, reading.warning? with
  | .error, _ | _, none => ""
  | _, some warning => reading.parameter.describe warning ++ "\n"

/-- Runs what the options ask for. An option takes precedence over the environment. -/
def execute (options : Options) (environment : Environment) : Output :=
  let verify :=
    (if options.verify then verifyParameter.fix true else verifyParameter).get environment.verify
  let limit := limitParameter.get environment.limit
  let log := logOf options limit ++ logOf options verify
  match limit.value, verify.value with
  | .ok limit, .ok verify =>
    reportAll limit verify (options.method.elim Method.all ([·]))
      (options.lecture.elim Lecture.all ([·])) { log }
  | .error misuse, _ | _, .error misuse =>
    { log := log ++ misuse.message?.getD "the program was misused" ++ "\n", exitCode := 101 }

def run (arguments : List String) (environment : Environment) : Output :=
  match parse arguments with
  | .ok options => execute options environment
  | .error .help => { text := usage }
  | .error .misused => { log := usage, exitCode := 2 }

end Infeasibility.CommandLine
