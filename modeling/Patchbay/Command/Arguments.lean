/-
  Patchbay.Command.Arguments — the options of a run, from its arguments.

  An option is a switch or takes a value. Values follow as the next argument or after `=`;
  the one-letter forms of switches may stand together, and a value may follow its letter at
  once. An argument that starts with a dash, other than the lone dash, is never a value.
  After `--` all arguments stand for themselves. No option may be given twice. Arguments
  are looked at from left to right, and help or version ends that.
-/

import Patchbay.Disk.Path
import Patchbay.Text.Numeral

namespace Patchbay.Command

/-! ## Options -/

inductive Stage where
  | document
  | tables
  | graph
  | status
  deriving DecidableEq, Repr

def Stage.ofName? : String → Option Stage
  | "csd" => some .document
  | "tables" => some .tables
  | "graph" => some .graph
  | "status" => some .status
  | _ => none

structure Options where
  /-- A patch file, or a type id for a template check. -/
  argument : Option String := none
  emit : Stage := .document
  print : Bool := false
  check : Bool := false
  output : Option Path := none
  templates : Option Path := none
  catalog : Option Path := none
  sampleRate : Nat := 96000
  ksmps : Nat := 16
  nchnls : Nat := 2
  duration : Nat := 3600
  allowUnimplemented : Bool := false
  strict : Bool := false
  verbose : Bool := false
  deriving DecidableEq, Repr

inductive Switch where
  | print
  | check
  | allowUnimplemented
  | strict
  | verbose
  | help
  | version
  deriving DecidableEq, Repr

inductive Key where
  | emit
  | output
  | templates
  | catalog
  | sampleRate
  | ksmps
  | nchnls
  | duration
  deriving DecidableEq, Repr

/-- An option by either kind of name. -/
inductive Named where
  | switch (s : Switch)
  | key (k : Key)
  deriving DecidableEq, Repr

def longName? : String → Option Named
  | "print" => some (.switch .print)
  | "check-udo" => some (.switch .check)
  | "allow-unimplemented" => some (.switch .allowUnimplemented)
  | "strict" => some (.switch .strict)
  | "verbose" => some (.switch .verbose)
  | "help" => some (.switch .help)
  | "version" => some (.switch .version)
  | "emit" => some (.key .emit)
  | "output" => some (.key .output)
  | "templates" => some (.key .templates)
  | "catalog" => some (.key .catalog)
  | "sr" => some (.key .sampleRate)
  | "ksmps" => some (.key .ksmps)
  | "nchnls" => some (.key .nchnls)
  | "duration" => some (.key .duration)
  | _ => none

def shortName? : Char → Option Named
  | 'p' => some (.switch .print)
  | 'c' => some (.switch .check)
  | 'h' => some (.switch .help)
  | 'V' => some (.switch .version)
  | 'o' => some (.key .output)
  | _ => none

/-! ## Outcomes -/

inductive ArgumentFault where
  | unknownOption (argument : String)
  | unexpectedValue (argument : String)
  | missingValue (argument : String)
  | repeated
  | badValue (value : String)
  | extraArgument (argument : String)
  | printWithCheck
  deriving DecidableEq, Repr

def ArgumentFault.message : ArgumentFault → String
  | .unknownOption argument => s!"unexpected argument '{argument}' found"
  | .unexpectedValue argument => s!"unexpected value in '{argument}'"
  | .missingValue argument => s!"a value is required for '{argument}' but none was supplied"
  | .repeated => "an option cannot be used multiple times"
  | .badValue value => s!"invalid value '{value}'"
  | .extraArgument argument => s!"unexpected argument '{argument}' found"
  | .printWithCheck => "the argument '--print' cannot be used with '--check-udo'"

/-- Why there is no run. -/
inductive Refusal where
  | help
  | version
  | fault (f : ArgumentFault)
  deriving DecidableEq, Repr

/-! ## Reading -/

structure Draft where
  options : Options := {}
  given : List Named := []
  deriving Repr

/-- Numbers in arguments are below this. -/
def numberLimit : Nat := 0x100000000

def numberValue (value : String) : Except Refusal Nat :=
  match Text.integer? value.toList with
  | some (.ofNat n) => if n < numberLimit then .ok n else .error (.fault (.badValue value))
  | _ => .error (.fault (.badValue value))

def pathValue (value : String) : Except Refusal Path :=
  if value = "" then .error (.fault (.badValue value)) else .ok ⟨value⟩

namespace Draft

/-- Note that an option is given, for the first time. -/
def give (d : Draft) (n : Named) : Except Refusal Draft :=
  if n ∈ d.given then .error (.fault .repeated) else .ok { d with given := n :: d.given }

def switch (d : Draft) (s : Switch) : Except Refusal Draft := do
  match s with
  | .help => .error .help
  | .version => .error .version
  | .print => ({ d with options.print := true } : Draft).give (.switch s)
  | .check => ({ d with options.check := true } : Draft).give (.switch s)
  | .allowUnimplemented => ({ d with options.allowUnimplemented := true } : Draft).give (.switch s)
  | .strict => ({ d with options.strict := true } : Draft).give (.switch s)
  | .verbose => ({ d with options.verbose := true } : Draft).give (.switch s)

def set (d : Draft) (k : Key) (value : String) : Except Refusal Draft := do
  let d ← d.give (.key k)
  match k with
  | .emit =>
    match Stage.ofName? value with
    | some stage => return { d with options.emit := stage }
    | none => .error (.fault (.badValue value))
  | .output => return { d with options.output := some (← pathValue value) }
  | .templates => return { d with options.templates := some (← pathValue value) }
  | .catalog => return { d with options.catalog := some (← pathValue value) }
  | .sampleRate => return { d with options.sampleRate := ← numberValue value }
  | .ksmps => return { d with options.ksmps := ← numberValue value }
  | .nchnls => return { d with options.nchnls := ← numberValue value }
  | .duration => return { d with options.duration := ← numberValue value }

def plain (d : Draft) (argument : String) : Except Refusal Draft :=
  if d.options.argument.isSome then .error (.fault (.extraArgument argument))
  else .ok { d with options.argument := some argument }

/-- Options in one-letter form; a key whose value must be the next argument is given back. -/
def letters (d : Draft) : List Char → Except Refusal (Draft × Option Key)
  | [] => .ok (d, none)
  | c :: cs =>
    match shortName? c with
    | none => .error (.fault (.unknownOption (String.ofList ['-', c])))
    | some (.switch s) => do letters (← d.switch s) cs
    | some (.key k) =>
      match cs with
      | [] => .ok (d, some k)
      | '=' :: value => return (← d.set k (String.ofList value), none)
      | value => return (← d.set k (String.ofList value), none)

/-- An option in long form, without its dashes; likewise. -/
def word (d : Draft) (cs : List Char) : Except Refusal (Draft × Option Key) :=
  let name := String.ofList (cs.takeWhile (· ≠ '='))
  match longName? name, cs.dropWhile (· ≠ '=') with
  | none, _ => .error (.fault (.unknownOption ("--" ++ name)))
  | some (.switch s), [] => return (← d.switch s, none)
  | some (.switch _), _ => .error (.fault (.unexpectedValue ("--" ++ name)))
  | some (.key k), [] => .ok (d, some k)
  | some (.key k), _ :: value => return (← d.set k (String.ofList value), none)

/-- Read one argument. -/
def argument (d : Draft) (a : String) : Except Refusal (Draft × Option Key) :=
  match a.toList with
  | '-' :: '-' :: cs => d.word cs
  | '-' :: c :: cs => d.letters (c :: cs)
  | _ => return (← d.plain a, none)

end Draft

/-- Whether an argument can be the value of the option before it. -/
def isValue (a : String) : Bool :=
  match a.toList with
  | '-' :: _ :: _ => false
  | _ => true

def readArguments (d : Draft) : List String → Except Refusal Draft
  | [] => .ok d
  | "--" :: rest => rest.foldlM Draft.plain d
  | [a] => do
    match ← d.argument a with
    | (d, none) => return d
    | (_, some _) => .error (.fault (.missingValue a))
  | a :: b :: rest => do
    match ← d.argument a with
    | (d, none) => readArguments d (b :: rest)
    | (d, some k) => if isValue b then readArguments (← d.set k b) rest else .error (.fault (.missingValue a))

/-- The options of a run. `environment` is the template directory the environment names. -/
def Options.ofArguments (environment : Option String) (arguments : List String) : Except Refusal Options := do
  let d ← readArguments {} arguments
  let d ← match environment with
    | some directory => if d.options.templates.isSome then pure d else d.set .templates directory
    | none => pure d
  if d.options.print && d.options.check then .error (.fault .printWithCheck) else return d.options

/-! ## Help -/

def helpText : String :=
"Converts Nord Modular G2 patches (.pch2) to Csound (.csd)

Usage: g2csd [OPTIONS] [ARG]

Arguments:
  [ARG]  Patch file, or a module type id with --check-udo

Options:
      --emit <EMIT>            Output stage [default: csd] [possible values: csd, tables, graph, status]
  -p, --print                  Print the module and cable tables (same as --emit tables)
  -c, --check-udo              Validate the template of one module type
  -o, --output <OUTPUT>        Output file path (default: input path with .csd appended)
      --templates <TEMPLATES>  Template directory [env: G2CSD_TEMPLATES=]
      --catalog <CATALOG>      Module catalog JSON (default: built-in)
      --sr <SR>                Sample rate [default: 96000]
      --ksmps <KSMPS>          Samples per control period [default: 16]
      --nchnls <NCHNLS>        Number of output channels [default: 2]
      --duration <DURATION>    Score duration in seconds [default: 3600]
      --allow-unimplemented    Convert even if some module types have no template
      --strict                 Refuse to write output when a template fails validation
      --verbose                Debug logging on stderr
  -h, --help                   Print help
  -V, --version                Print version
"

end Patchbay.Command
