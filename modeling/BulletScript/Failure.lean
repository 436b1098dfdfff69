import BulletScript.Number.Arithmetic
import BulletScript.Text.Search
import BulletScript.Text.Quoted

/-! What can go wrong, by cause, and the words for it. -/
namespace BulletScript

/-- Faults of templates, patterns and expressions. -/
inductive PatternFault where
  | missingVariable (name : String)
  | unterminatedPlaceholder (template : String) (position : Nat)
  | notAToken (placeholder : String)
  | invalidRegex (placeholder reason : String)
  | unknownOperator (op : String)
  | unexpectedCharacter (c : Char) (source : String)
  | unexpectedToken (token source : String)
  | expected (token source : String)
  | expectedProperty (source : String)
  | unexpectedEnd (source : String)
  | needsNumbers (op source : String)
  | divisionByZero (source : String)
  | noMatch (reason : String)
  deriving Repr, DecidableEq

def PatternFault.message : PatternFault → String
  | .missingVariable name => "Missing variable '" ++ name ++ "'"
  | .unterminatedPlaceholder template position =>
    "Unterminated placeholder at position " ++ toString position ++ " in template: " ++ template
  | .notAToken placeholder => "Placeholder " ++ placeholder ++ " is not a valid pattern token"
  | .invalidRegex placeholder reason => "Invalid regex in " ++ placeholder ++ ": " ++ reason
  | .unknownOperator op => "Unknown comparison operator '" ++ op ++ "'"
  | .unexpectedCharacter c source =>
    "Unexpected character " ++ Text.shown c.toString ++ " in expression: " ++ source
  | .unexpectedToken token source => "Unexpected '" ++ token ++ "' in expression: " ++ source
  | .expected token source => "Expected '" ++ token ++ "' in expression: " ++ source
  | .expectedProperty source => "Expected a property name after '.' in expression: " ++ source
  | .unexpectedEnd source => "Unexpected end of expression: " ++ source
  | .needsNumbers op source => "Operator '" ++ op ++ "' needs numbers in expression: " ++ source
  | .divisionByZero source => "Division by zero in expression: " ++ source
  | .noMatch reason => reason

/-- Faults of an authored action or configuration. -/
inductive ParseFault where
  | notBool (option : String)
  | notInt (option : String)
  | notOneOf (option : String) (choices : List String)
  | lacks (action what : String)
  | noTriggers (tag : String)
  | reported (message : String)
  deriving Repr, DecidableEq

def ParseFault.message : ParseFault → String
  | .notBool option => "'" ++ option ++ "' must be true or false"
  | .notInt option => "'" ++ option ++ "' must be an integer"
  | .notOneOf option choices => "'" ++ option ++ "' must be one of " ++ ", ".intercalate choices
  | .lacks action what => "'" ++ action ++ "' needs " ++ what
  | .noTriggers tag => "No valid triggers found in config for " ++ tag
  | .reported message => message

/-- Faults of an action while it runs. -/
inductive ActionFault where
  | unavailable (service : String)
  | notAnArray (name : String)
  | needsTarget (action : String)
  | needsItem
  | clearsHumanLines
  | unknownStatus (status : String)
  | statusNotOneOf (status : String) (choices : List String)
  | notGenerated (bullet allowed : String)
  | itemNotFound (path text : String)
  | notATask (line : Nat) (path : String)
  | outsideRoot (path : String)
  | documentNotFound (path : String)
  | fileNotFound (path : String)
  | unresolved (reference : String)
  | noReference (source line : String)
  | noDocument
  | invalidFrontmatter (reason : String)
  | emptyIdentifier
  | invalidRegex (source reason : String)
  | emptyDate
  | unreadableDate (text : String)
  | shellDisabled
  | http (message : String)
  | shell (message : String)
  | sandbox (message : String)
  | validation (message : String)
  | duration (message : String)
  | reported (message : String)
  deriving Repr, DecidableEq

def ActionFault.message : ActionFault → String
  | .unavailable service => "No " ++ service ++ " available"
  | .notAnArray name => "Variable '" ++ name ++ "' is not an array"
  | .needsTarget action => action ++ " needs a work item or a text buffer"
  | .needsItem => "task needs a work item"
  | .clearsHumanLines => "task clear never removes '-' bullets"
  | .unknownStatus status => "Unknown status marker '" ++ status ++ "'"
  | .statusNotOneOf status choices =>
    "Unknown status marker '" ++ status ++ "'; expected one of " ++
      ", ".intercalate (choices.map Text.shown)
  | .notGenerated bullet allowed =>
    "task append only writes generated bullets (" ++ allowed ++ "), got '" ++ bullet ++ "'"
  | .itemNotFound path text => "Work item not found in " ++ path ++ ": " ++ text
  | .notATask line path => "Line " ++ toString line ++ " of " ++ path ++ " is not a task"
  | .outsideRoot path => "Path '" ++ path ++ "' is outside the document root"
  | .documentNotFound path => "Document not found: " ++ path
  | .fileNotFound path => "File not found: " ++ path
  | .unresolved reference => "Could not resolve '" ++ reference ++ "'"
  | .noReference source line => "No " ++ source ++ " reference found in line: " ++ line
  | .noDocument => "No document available in context"
  | .invalidFrontmatter reason => "Invalid frontmatter: " ++ reason
  | .emptyIdentifier => "Query identifier must not be empty"
  | .invalidRegex source reason => "Invalid regular expression '" ++ source ++ "': " ++ reason
  | .emptyDate => "Cannot parse an empty date"
  | .unreadableDate text => "Could not parse date '" ++ text ++ "'"
  | .shellDisabled => "Shell actions are disabled"
  | .http message => message
  | .shell message => message
  | .sandbox message => message
  | .validation message => message
  | .duration message => message
  | .reported message => message

/-- A command that refers to something outside the document root. -/
def ActionFault.mayNotReference (what command : String) : ActionFault :=
  .sandbox ("Shell command may not reference " ++ what ++ ": " ++ command)

def ActionFault.invalidDuration (text : String) : ActionFault :=
  .duration ("Invalid duration '" ++ text ++ "'; use a number with an optional ms, s or m suffix")

/-- Faults of the file system. -/
inductive FileFault where
  | notFound (path : String)
  | isDirectory (path : String)
  | notDirectory (path : String)
  | exists (path : String)
  deriving Repr, DecidableEq

def FileFault.message : FileFault → String
  | .notFound path => "[Errno 2] No such file or directory: " ++ Text.shown path
  | .isDirectory path => "[Errno 21] Is a directory: " ++ Text.shown path
  | .notDirectory path => "[Errno 20] Not a directory: " ++ Text.shown path
  | .exists path => "[Errno 17] File exists: " ++ Text.shown path

/-- What a YAML text breaks the rules of. -/
inductive YamlLevel where
  | characters | tokens | nodes | anchors | values
  deriving Repr, DecidableEq

def YamlLevel.name : YamlLevel → String
  | .characters => "ReaderError"
  | .tokens => "ScannerError"
  | .nodes => "ParserError"
  | .anchors => "ComposerError"
  | .values => "ConstructorError"

/-- Faults that no rule of the script language names. -/
inductive InternalFault where
  | yaml (level : YamlLevel) (message : String)
  | number (fault : NumberFault)
  | notInt (text : String)
  | tooManyDigits (count : Nat)
  | tooLongToWrite
  | badValue (message : String)
  | outOfRange (message : String)
  | overflow (message : String)
  | badType (message : String)
  | undecodable (message : String)
  | noAttribute (typeName member : String)
  | noEntry (key : String)
  | system (message : String)
  | file (fault : FileFault)
  | crashed (message : String)
  deriving Repr, DecidableEq

def InternalFault.message : InternalFault → String
  | .number fault => fault.message
  | .notInt text => "invalid literal for int() with base 10: " ++ Text.shown text
  | .tooManyDigits count =>
    "Exceeds the limit (4300 digits) for integer string conversion: value has " ++
      toString count ++ " digits; use sys.set_int_max_str_digits() to increase the limit"
  | .tooLongToWrite =>
    "Exceeds the limit (4300 digits) for integer string conversion; " ++
      "use sys.set_int_max_str_digits() to increase the limit"
  | .yaml _ message | .badValue message | .outOfRange message | .overflow message | .badType message
  | .undecodable message | .system message | .crashed message => message
  | .noAttribute typeName member =>
    "'" ++ typeName ++ "' object has no attribute '" ++ member ++ "'"
  | .noEntry key => Text.shown key
  | .file fault => fault.message

inductive Failure where
  | pattern (fault : PatternFault)
  | parse (fault : ParseFault)
  | action (fault : ActionFault)
  | script (message : String)
  | internal (fault : InternalFault)
  deriving Repr, DecidableEq

namespace Failure

def message : Failure → String
  | .pattern fault => fault.message
  | .parse fault => fault.message
  | .action fault => fault.message
  | .script message => message
  | .internal fault => fault.message

/-- The name under which scripts see a failure. -/
def name : Failure → String
  | .pattern (.missingVariable _) => "MissingVariableError"
  | .pattern (.unterminatedPlaceholder ..) => "UnterminatedPlaceholderError"
  | .pattern _ => "PatternError"
  | .parse _ => "ParseError"
  | .action (.http _) => "HttpActionError"
  | .action (.shell _) => "ShellActionError"
  | .action (.sandbox _) => "SandboxViolationError"
  | .action (.validation _) => "ValidationFailedError"
  | .action (.duration _) => "DurationError"
  | .action _ => "ActionError"
  | .script _ => "TagScriptError"
  | .internal (.yaml level _) => level.name
  | .internal (.number .infinityToInt) | .internal (.number .intTooLarge)
  | .internal (.number .quotientTooLarge) | .internal (.overflow _) => "OverflowError"
  | .internal (.number .nanToInt) | .internal (.notInt _) | .internal (.tooManyDigits _)
  | .internal .tooLongToWrite | .internal (.badValue _) => "ValueError"
  | .internal (.outOfRange _) => "IndexError"
  | .internal (.badType _) => "TypeError"
  | .internal (.undecodable _) => "UnicodeDecodeError"
  | .internal (.noAttribute ..) => "AttributeError"
  | .internal (.noEntry _) => "KeyError"
  | .internal (.system _) => "OSError"
  | .internal (.file (.notFound _)) => "FileNotFoundError"
  | .internal (.file (.isDirectory _)) => "IsADirectoryError"
  | .internal (.file (.notDirectory _)) => "NotADirectoryError"
  | .internal (.file (.exists _)) => "FileExistsError"
  | .internal (.crashed _) => "RuntimeError"

/-- The family of a failure as scripts see it. -/
def kind : Failure → String
  | .pattern _ => "pattern"
  | .parse _ => "parse"
  | .action _ => "action"
  | .script _ | .internal _ => "internal"

end Failure

/-- A computation that may fail. -/
abbrev Result (α : Type) := Except Failure α

def Result.ofNumber {α : Type} : Except NumberFault α → Result α
  | .ok a => .ok a
  | .error fault => .error (.internal (.number fault))

end BulletScript
