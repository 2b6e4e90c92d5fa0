import Stencil.Json.Reader
import Stencil.Text.Blank
import Stencil.Text.Pieces

/-!
# What can go wrong

A `Problem` is a failure of the catalog itself, with the names that explain it. A `Fault` is any
failure: a problem, a failure of the file system, a text that is not JSON or not a settings file, a sum
that is too large, or one of these with a note on what was being done. `Fault.report` is what the user gets to see.
-/

namespace Stencil

/-- A failure of the catalog. -/
inductive Problem where
  /-- A call received an empty name. -/
  | missingArgument (argument : String)
  /-- No template has this name; `similar` are the names close to it. -/
  | templateNotFound (name : String) (similar : List String)
  /-- A placeholder refers to a fragment that no schema file holds. -/
  | schemaNotFound (template reference : String)
  /-- No set has this name. -/
  | setNotFound (name : String)
  /-- A token is no placeholder. -/
  | invalidPlaceholder (template token reason : String)
  /-- A parameter has no value. -/
  | missingParameter (template parameter : String)
  /-- The filled-in text is no JSON document. -/
  | malformedOutput (template reason view text : String)
  /-- A unit cannot take a key that another member has. -/
  | renameConflict (grouping source target : String)
  /-- A namespace or collection cannot be created. -/
  | backendConflict (resource reason : String)
  /-- A key holds characters that a record name cannot. -/
  | invalidKey (key backend reason : String)
  /-- Stored records do not decode. -/
  | corruptValue (key reason : String)
  /-- A command of the appliance failed. -/
  | commandFailed (command output : String)
  /-- The settings are wrong. -/
  | badSettings (message : String)
  /-- Anything else. -/
  | other (message : String)
deriving DecidableEq, Repr, Inhabited

/-- The name of the kind of a problem. -/
def Problem.kind : Problem → String
  | .missingArgument _ => "MissingArgument"
  | .templateNotFound _ _ => "TemplateNotFound"
  | .schemaNotFound _ _ => "SchemaNotFound"
  | .setNotFound _ => "SetNotFound"
  | .invalidPlaceholder _ _ _ => "InvalidPlaceholder"
  | .missingParameter _ _ => "MissingParameter"
  | .malformedOutput _ _ _ _ => "MalformedOutput"
  | .renameConflict _ _ _ => "RenameConflict"
  | .backendConflict _ _ => "BackendConflict"
  | .invalidKey _ _ _ => "InvalidKey"
  | .corruptValue _ _ => "CodecCorruption"
  | .commandFailed _ _ => "ShellCommandFailed"
  | .badSettings _ => "ConfigError"
  | .other _ => "Other"

/-- The wording of a problem. -/
def Problem.message : Problem → String
  | .missingArgument argument => "Missing required argument: " ++ argument
  | .templateNotFound name _ => "Template '" ++ name ++ "' not found"
  | .schemaNotFound template reference =>
    "Schema reference '" ++ reference ++ "' used by template '" ++ template ++ "' not found"
  | .setNotFound name => "Template set '" ++ name ++ "' not found"
  | .invalidPlaceholder template token reason =>
    "Invalid placeholder '\x7b\x7b" ++ token ++ "\x7d\x7d' in template '" ++ template ++ "': " ++ reason
  | .missingParameter template parameter =>
    "Template '" ++ template ++ "' has no value for parameter '" ++ parameter ++ "'"
  | .malformedOutput template reason view text =>
    "Template '" ++ template ++ "' rendered invalid JSON: " ++ reason ++ "\nview: " ++ view ++
      "\ntext: " ++ text
  | .renameConflict grouping source target =>
    "Cannot rename '" ++ source ++ "' to '" ++ target ++ "' in '" ++ grouping ++
      "': key already exists"
  | .backendConflict resource reason =>
    "Backend provisioning failed for '" ++ resource ++ "': " ++ reason
  | .invalidKey key backend reason =>
    "Invalid key '" ++ key ++ "' for the " ++ backend ++ " store: " ++ reason
  | .corruptValue key reason => "Corrupt stored value '" ++ key ++ "': " ++ reason
  | .commandFailed command _ => "Command failed: " ++ command
  | .badSettings message => "Configuration error: " ++ message
  | .other message => message

/-- A failure of the file system. -/
inductive IoFault where
  | missing | denied | exists | notDirectory | isDirectory | nameTooLong | notEmpty
  /-- A name holds a zero character. -/
  | badName
  /-- The bytes of a file are no text. -/
  | notText
  /-- A failure that is reported as it is. -/
  | other (text : String)
  /-- Something is not there, in the words of another program. -/
  | missingText (text : String)
  /-- Something may not be used, in the words of another program. -/
  | deniedText (text : String)
deriving DecidableEq, Repr, Inhabited

/-- The wording of a failure of the file system. -/
def IoFault.message : IoFault → String
  | .missing => "No such file or directory (os error 2)"
  | .denied => "Permission denied (os error 13)"
  | .exists => "File exists (os error 17)"
  | .notDirectory => "Not a directory (os error 20)"
  | .isDirectory => "Is a directory (os error 21)"
  | .nameTooLong => "File name too long (os error 36)"
  | .notEmpty => "Directory not empty (os error 39)"
  | .badName => "file name contained an unexpected NUL byte"
  | .notText => "stream did not contain valid UTF-8"
  | .other text => text
  | .missingText text => text
  | .deniedText text => text

/-- The thing asked for is not there. -/
def IoFault.isMissing : IoFault → Bool
  | .missing | .missingText _ => true
  | _ => false

/-- The thing asked for may not be used. -/
def IoFault.isDenied : IoFault → Bool
  | .denied | .deniedText _ => true
  | _ => false

/-- Any failure. -/
inductive Fault where
  | problem (p : Problem)
  | io (e : IoFault)
  | json (e : Located)
  /-- The settings file does not read; the text is the whole rendering. -/
  | settings (rendering : String)
  | plain (text : String)
  /-- A sum that is too large for a number; the program ends. -/
  | overflow
  /-- What was being done when the cause arose. -/
  | context (text : String) (cause : Fault)
deriving DecidableEq, Repr, Inhabited

namespace Fault

/-- The wording of the outermost layer. -/
def message : Fault → String
  | .problem p => p.message
  | .io e => e.message
  | .json e => e.message
  | .settings rendering => rendering
  | .plain text => text
  | .overflow => "attempt to add with overflow"
  | .context text _ => text

/-- The failure without its contexts. -/
def root : Fault → Fault
  | .context _ cause => cause.root
  | f => f

/-- The wordings of the causes below the outermost layer. -/
def causes : Fault → List String
  | .context _ cause => cause.message :: cause.causes
  | _ => []

/-- The problem at the root, if it is one. -/
def problem? (f : Fault) : Option Problem :=
  match f.root with
  | .problem p => some p
  | _ => none

end Fault

/-- What the user sees of a failure: what happened, why, and what to do. -/
structure Report where
  problem : Problem
  details : Option String
  suggestion : Option String
deriving DecidableEq, Repr

/-- The details that belong to a problem. -/
def Problem.details : Problem → Option String
  | .schemaNotFound _ _ => some
    "Placeholders like \x7b\x7bname:set:fragment\x7d\x7d resolve against the shared schema files"
  | .malformedOutput _ _ _ _ => some "The rendered template text must be a single valid JSON document"
  | .corruptValue _ _ => some "One or more stored records are missing or damaged"
  | .commandFailed _ output => some (Text.trimmed output)
  | _ => none

/-- The suggestion that belongs to a problem. -/
def Problem.suggestion : Problem → Option String
  | .templateNotFound _ [] => some "Run 'declkit list' to see the available templates"
  | .templateNotFound _ similar => some ("Did you mean: " ++ Text.joinWith ", " similar ++ "?")
  | .setNotFound name => some
    ("Check that '" ++ name ++ "' exists in the templates directory, or upload it with 'declkit upload "
      ++ name ++ "'")
  | .schemaNotFound _ _ => some
    "Add the referenced fragment to a schema file (<set>.json) in the template set"
  | .invalidPlaceholder _ _ _ => some
    ("Placeholders use \x7b\x7bname\x7d\x7d, \x7b\x7bname:type\x7d\x7d, \x7b\x7bname:type:default\x7d\x7d, " ++
      "\x7b\x7bname:set:fragment\x7d\x7d or \x7b\x7b!comment\x7d\x7d")
  | .malformedOutput _ _ _ _ => some
    "Check quoting around placeholders: string parameters are inserted with their JSON quotes"
  | .backendConflict _ _ => some
    "Check that the configured namespace and collection names are valid on the appliance"
  | .invalidKey _ _ _ => some "Rename the template set using letters, digits, '_', '.', '-' or '/'"
  | .corruptValue _ _ => some "Re-upload the affected template set"
  | _ => none

namespace Fault

/-- The wording of all layers: the outermost one, then its causes with their numbers. -/
def chainText (f : Fault) : String :=
  match f.causes with
  | [] => f.message
  | causes => f.message ++ "\n\nCaused by:" ++
    String.join (causes.mapIdx fun i c => "\n  " ++ toString (i + 1) ++ ": " ++ c)

/-- The wording of all layers on one line. -/
def inlineText (f : Fault) : String := Text.joinWith ": " (f.message :: f.causes)

/-- What the user sees: the problem if there is one, else the file or the settings at fault, else
the whole chain of causes. -/
def report (f : Fault) : Report :=
  match f.root with
  | .problem p => ⟨p, p.details, p.suggestion⟩
  | .settings rendering => ⟨.badSettings rendering, none,
      some "Check the TOML syntax of your declkit configuration file"⟩
  | .io e =>
    if e.isDenied then
      ⟨.other ("Permission denied: " ++ e.message), none, some "Check file ownership and permissions"⟩
    else if e.isMissing then
      ⟨.other ("File not found: " ++ e.message), none,
        some "Check that the file or directory exists and the path is correct"⟩
    else ⟨.other f.chainText, none, none⟩
  | _ => ⟨.other f.chainText, none, none⟩

end Fault

/-- The report as plain text. -/
def Report.text (r : Report) : String :=
  r.problem.message ++ (r.details.map ("\nDetails: " ++ ·)).getD "" ++
    (r.suggestion.map ("\nSuggestion: " ++ ·)).getD ""

end Stencil
