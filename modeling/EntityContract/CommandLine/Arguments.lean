import EntityContract.CommandLine.Usage
import EntityContract.Text.Digit

/-!
Reading the arguments of the program. Options may stand before and behind the name of a command,
in any order; arguments behind two hyphens are not options.
-/

namespace EntityContract.CommandLine

inductive Command where
  | convert (input output : Option String)
  | validate (entity : String) (document : Option String) (jobs : Option Nat) (files : List String)
  | entities (document : Option String)
  | endpoints
  deriving DecidableEq, Repr

/-- Why there is nothing to run: the arguments do not fit, or they ask for a text. -/
inductive Stop where
  | misuse (usage : Usage)
  | help (usage : Usage)
  | version

structure Settings where
  values : List (String × String)
  files : List String

namespace Settings

def empty : Settings := ⟨[], []⟩

def value? (name : String) (settings : Settings) : Option String := settings.values.lookup name

/-- A count: an optional plus and digits, below `2 ^ 64`. -/
def count? (text : String) : Option Nat :=
  let digits := match text.toList with
    | '+' :: digits => digits
    | digits => digits
  (Text.ofDigits? 10 digits).filter (· < Nat.pow 2 64)

def fits (operand : Operand) (text : String) : Bool :=
  match operand with
  | .flag => false
  | .path => text != ""
  | .text => true
  | .count => (count? text).isSome

/-- Sets an option; each one is set at most once. -/
def set (option : CommandOption) (text : String) (settings : Settings) : Option Settings :=
  if fits option.operand text ∧ settings.value? option.long = none then
    some { settings with values := (option.long, text) :: settings.values }
  else none

end Settings

def splitAssignment (chars : List Char) : String × Option String :=
  let name := chars.takeWhile (· != '=')
  match chars.drop name.length with
  | [] => (String.ofList name, none)
  | _ :: value => (String.ofList name, some (String.ofList value))

def raise (usage : Usage) (option : CommandOption) : Except Stop Unit :=
  if option.long = helpOption.long then .error (.help usage)
  else if option.long = versionOption.long then .error .version
  else .ok ()

def raiseLetters (usage : Usage) : List Char → Except Stop Unit
  | [] => .ok ()
  | c :: letters => do
    match usage.options.find? (·.short == some c) with
    | some option => raise usage option; raiseLetters usage letters
    | none => throw (.misuse usage)

/-- Reads the arguments up to and with the name of a command, if there are commands: then this name
and the arguments behind it are left. `pending` is an option whose operand comes next. -/
def readArguments (usage : Usage) (settings : Settings) (pending : Option CommandOption)
    (onlyFiles : Bool) : List String → Except Stop (Settings × List String)
  | [] => if pending.isSome then .error (.misuse usage) else .ok (settings, [])
  | argument :: rest =>
    let misuse : Except Stop (Settings × List String) := .error (.misuse usage)
    let plain (_ : Unit) : Except Stop (Settings × List String) :=
      match pending with
      | some option =>
        match settings.set option argument with
        | some settings => readArguments usage settings none onlyFiles rest
        | none => misuse
      | none =>
        if usage.operands ∧ Settings.fits .path argument then
          readArguments usage { settings with files := settings.files ++ [argument] } none onlyFiles
            rest
        else if usage.commands ≠ [] ∧ !onlyFiles then .ok (settings, argument :: rest)
        else misuse
    match argument.toList with
    | '-' :: c :: letters =>
      if onlyFiles then plain ()
      else if pending.isSome then misuse
      else if c ≠ '-' then do
        raiseLetters usage (c :: letters)
        readArguments usage settings none onlyFiles rest
      else if letters = [] then readArguments usage settings none true rest
      else
        let (name, value) := splitAssignment letters
        match usage.options.find? (·.long == name), value with
        | none, _ => misuse
        | some option, none =>
          if option.operand = .flag then do
            raise usage option
            readArguments usage settings none onlyFiles rest
          else readArguments usage settings (some option) onlyFiles rest
        | some option, some value =>
          match settings.set option value with
          | some settings => readArguments usage settings none onlyFiles rest
          | none => misuse
    | _ => plain ()

def command? (name : String) (settings : Settings) : Option Command :=
  match name with
  | "convert" => some (.convert (settings.value? "input") (settings.value? "output"))
  | "validate" =>
    match settings.value? "entity", settings.files with
    | some entity, file :: files =>
      some (.validate entity (settings.value? "document")
        ((settings.value? "jobs").bind Settings.count?) (file :: files))
    | _, _ => none
  | "entities" => some (.entities (settings.value? "document"))
  | "endpoints" => some .endpoints
  | _ => none

/-- The help that is asked for by the names of commands. -/
def helpOn : List String → Stop
  | [] => .help programUsage
  | [name] =>
    match commandUsages.lookup name with
    | some usage => .help usage
    | none => .misuse programUsage
  | _ => .misuse programUsage

/-- Reads all arguments: the file of the configuration, if one is named, and the command. The one
that is named behind the command counts. -/
def parse (arguments : List String) : Except Stop (Option String × Command) := do
  match ← readArguments programUsage .empty none false arguments with
  | (_, []) => throw (.misuse programUsage)
  | (outer, name :: rest) =>
    if name = "help" then throw (helpOn rest)
    match commandUsages.lookup name with
    | none => throw (.misuse programUsage)
    | some usage =>
      let (settings, _) ← readArguments usage .empty none false rest
      match command? name settings with
      | none => throw (.misuse usage)
      | some command => return ((settings.value? "config").or (outer.value? "config"), command)

end EntityContract.CommandLine
