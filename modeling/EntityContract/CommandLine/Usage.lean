/-!
The commands of the program, their options, and the help texts that describe them.
-/

namespace EntityContract.CommandLine

/-- What follows an option: nothing, the name of a file, any text, or a count. -/
inductive Operand where
  | flag
  | path
  | text
  | count
  deriving DecidableEq, Repr

/-- An option; `label` is its long form as the help shows it. -/
structure CommandOption where
  long : String
  short : Option Char
  operand : Operand
  label : String
  about : String

def configOption : CommandOption :=
  ⟨"config", none, .path, "--config <CONFIG>", "Path to a YAML configuration file"⟩

def verboseOption : CommandOption :=
  ⟨"verbose", some 'v', .flag, "--verbose...",
    "Increase log verbosity (-v info, -vv debug). RUST_LOG takes precedence"⟩

def helpOption : CommandOption := ⟨"help", some 'h', .flag, "--help", "Print help"⟩

def versionOption : CommandOption := ⟨"version", some 'V', .flag, "--version", "Print version"⟩

def documentOption : CommandOption :=
  ⟨"document", none, .path, "--document <DOCUMENT>",
    "Schema document to load instead of the configured or bundled one"⟩

/-- What the program, or one of its commands, takes. `operands` tells whether file names follow
the options. -/
structure Usage where
  form : String
  about : String
  commands : List (String × String)
  arguments : List (String × String)
  options : List CommandOption
  operands : Bool

def programName : String := "registry-contract"

def versionText : String := programName ++ " 0.1.0\n"

def anyOptions : String := "[OPTIONS]"

def convertUsage : Usage where
  form := "convert " ++ anyOptions
  about := "Convert the YAML schema document to JSON"
  commands := []
  arguments := []
  options := [
    configOption,
    ⟨"input", none, .path, "--input <INPUT>",
      "YAML document to read (default from configuration)"⟩,
    ⟨"output", none, .path, "--output <OUTPUT>",
      "JSON document to write (default from configuration)"⟩,
    verboseOption, helpOption]
  operands := false

def validateUsage : Usage where
  form := "validate " ++ anyOptions ++ " --entity <ENTITY> <FILES>..."
  about := "Validate JSON or YAML documents against an entity"
  commands := []
  arguments := [("<FILES>...", "Documents to validate")]
  options := [
    configOption,
    ⟨"entity", none, .text, "--entity <ENTITY>",
      "Entity to validate against (e.g. ServerList)"⟩,
    documentOption, verboseOption,
    ⟨"jobs", none, .count, "--jobs <JOBS>", "Number of parallel validation jobs"⟩,
    helpOption]
  operands := true

def entitiesUsage : Usage where
  form := "entities " ++ anyOptions
  about := "List the entities of a schema document"
  commands := []
  arguments := []
  options := [configOption, documentOption, verboseOption, helpOption]
  operands := false

def endpointsUsage : Usage where
  form := "endpoints " ++ anyOptions
  about := "List the API endpoints"
  commands := []
  arguments := []
  options := [configOption, verboseOption, helpOption]
  operands := false

def helpUsage : Usage where
  form := "help [COMMAND]..."
  about := "Print this message or the help of the given subcommand(s)"
  commands := []
  arguments := [("[COMMAND]...", "Print help for the subcommand(s)")]
  options := []
  operands := false

def commandUsages : List (String × Usage) :=
  [("convert", convertUsage), ("validate", validateUsage), ("entities", entitiesUsage),
    ("endpoints", endpointsUsage), ("help", helpUsage)]

def programUsage : Usage where
  form := anyOptions ++ " <COMMAND>"
  about := "Schema document conversion and registry document validation"
  commands := commandUsages.map fun (name, usage) => (name, usage.about)
  arguments := []
  options := [configOption, verboseOption, helpOption, versionOption]
  operands := false

namespace Usage

/-- A titled list of names with what they mean, the meanings under each other. -/
def listing (title : String) (rows : List (String × String)) : String :=
  if rows = [] then ""
  else
    let width := (rows.map fun (name, _) => name.length).foldl max 0
    "\n" ++ title ++ ":\n" ++ String.join (rows.map fun (name, about) =>
      "  " ++ name ++ String.ofList (List.replicate (width + 2 - name.length) ' ') ++ about ++ "\n")

def optionRow (option : CommandOption) : String × String :=
  let short := match option.short with
    | some c => String.ofList ['-', c, ',', ' ']
    | none => "    "
  (short ++ option.label, option.about)

def help (usage : Usage) : String :=
  usage.about ++ "\n\nUsage: " ++ programName ++ " " ++ usage.form ++ "\n" ++
    listing "Commands" usage.commands ++ listing "Arguments" usage.arguments ++
    listing "Options" (usage.options.map optionRow)

end Usage

end EntityContract.CommandLine
