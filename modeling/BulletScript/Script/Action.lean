import BulletScript.Value.Basic

/-! Scripts: actions nested in branches, loops and error handlers, one sequence for each trigger. -/
namespace BulletScript.Script

/-- The events of an item's life that a script can answer. -/
inductive TriggerKind where
  | onTrigger | onDone | onError | onInProgress | onCancelled | onReset | onEnter | onData
  deriving Repr, DecidableEq

namespace TriggerKind

def text : TriggerKind → String
  | .onTrigger => "onTrigger"
  | .onDone => "onDone"
  | .onError => "onError"
  | .onInProgress => "onInProgress"
  | .onCancelled => "onCancelled"
  | .onReset => "onReset"
  | .onEnter => "onEnter"
  | .onData => "onData"

def all : List TriggerKind :=
  [.onTrigger, .onDone, .onError, .onInProgress, .onCancelled, .onReset, .onEnter, .onData]

def ofText? (s : String) : Option TriggerKind := all.find? (·.text = s)

end TriggerKind

inductive ReadSource where
  | line | document | file | selection | children | wikilink | image
  deriving Repr, DecidableEq

def ReadSource.text : ReadSource → String
  | .line => "line"
  | .document => "document"
  | .file => "file"
  | .selection => "selection"
  | .children => "children"
  | .wikilink => "wikilink"
  | .image => "image"

def ReadSource.all : List ReadSource :=
  [.line, .document, .file, .selection, .children, .wikilink, .image]

inductive ImageFormat where
  | base64 | dataUri | url
  deriving Repr, DecidableEq

def ImageFormat.text : ImageFormat → String
  | .base64 => "base64"
  | .dataUri => "dataUri"
  | .url => "url"

def ImageFormat.all : List ImageFormat := [.base64, .dataUri, .url]

inductive TransformMode where
  | replace | append | prepend
  deriving Repr, DecidableEq

def TransformMode.text : TransformMode → String
  | .replace => "replace"
  | .append => "append"
  | .prepend => "prepend"

def TransformMode.all : List TransformMode := [.replace, .append, .prepend]

inductive TaskOp where
  | clear | status | append
  deriving Repr, DecidableEq

def TaskOp.text : TaskOp → String
  | .clear => "clear"
  | .status => "status"
  | .append => "append"

def TaskOp.all : List TaskOp := [.clear, .status, .append]

inductive DateMode where
  | now | parse
  deriving Repr, DecidableEq

def DateMode.text : DateMode → String
  | .now => "now"
  | .parse => "parse"

def DateMode.all : List DateMode := [.now, .parse]

inductive DateFormat where
  | epoch | unix | iso | date
  deriving Repr, DecidableEq

def DateFormat.text : DateFormat → String
  | .epoch => "epoch"
  | .unix => "unix"
  | .iso => "iso"
  | .date => "date"

def DateFormat.all : List DateFormat := [.epoch, .unix, .iso, .date]

inductive AuthKind where
  | basic | bearer | apiKey
  deriving Repr, DecidableEq

def AuthKind.text : AuthKind → String
  | .basic => "basic"
  | .bearer => "bearer"
  | .apiKey => "apiKey"

def AuthKind.all : List AuthKind := [.basic, .bearer, .apiKey]

inductive LogLevel where
  | debug | info | warning | error
  deriving Repr, DecidableEq

def LogLevel.text : LogLevel → String
  | .debug => "debug"
  | .info => "info"
  | .warning => "warning"
  | .error => "error"

def LogLevel.all : List LogLevel := [.debug, .info, .warning, .error]

/-- Credentials of a request; an authored value is a text, or a record where a block was
written. -/
structure Auth where
  kind : AuthKind
  username : Option Value
  password : Option Value
  token : Option Value
  apiKey : Option Value
  headerName : Value

structure ReadStep where
  pattern : String
  source : ReadSource := .line
  reference : Option Value := none
  storeAs : Option Value := none
  fileAs : Value := .str "fromFile"
  strip : Bool := true
  stripFrontmatter : Bool := false
  includeFrontmatter : Bool := false
  frontmatterAs : Value := .str "frontmatter"
  childrenAs : Value := .str "children"
  childrenLinesAs : Value := .str "childrenLines"
  format : ImageFormat := .dataUri

structure FetchStep where
  url : String
  method : String
  headers : List (String × String)
  body : Option Value
  auth : Option Auth
  storeAs : Option Value
  timeoutMs : Option Int

/-- A line that a transform writes below another, with the lines below it. -/
structure ChildTemplate where
  template : String
  indent : Nat
  children : List ChildTemplate

structure TaskStep where
  op : TaskOp
  bullets : Value := .str "*"
  toStatus : Option Value := none
  template : Option Value := none
  indent : Int := 1
  bullet : Value := .str "+"

/-- The text of the line an action works on. -/
def lineTemplate : String := "\x7b\x7bline\x7d\x7d"

/-- An action that holds no other actions. -/
inductive Step where
  | read (step : ReadStep)
  | file (reference storeAs : Value)
  | fetch (step : FetchStep)
  | shell (command : String) (storeAs : Option Value) (timeoutMs : Option Int)
  | transform (template : Option String) (mode : TransformMode) (children : List ChildTemplate)
  | build (name : String) (properties : Record)
  | query (identifier : String) (storeAs : Value) (options : Record)
  | set (name value : String) (pattern : Option Value) (source : Value)
  | match (pattern : String) (source : Value)
  | extract (pattern : String) (source storeAs : Value)
  | return (value : Option String)
  | append (template : String) (indent : Int)
  | task (step : TaskStep)
  | validate (condition : String) (message : Option Value)
  | delay (duration : String)
  | filter (items : String) (condition storeAs itemName : Value)
  | map (items : String) (template storeAs itemName : Value)
  | date (mode : DateMode) (source : Option Value) (storeAs : Value) (format : DateFormat)
  | log (message : String) (level : LogLevel)
  | notify (message : String) (durationMs : Int)

/-- An action with the sequence that runs when it fails and the line it was written on. -/
inductive Action where
  | step (leaf : Step) (onError : List Action) (line : Option Nat)
  | branch (condition : String) (yes no onError : List Action) (line : Option Nat)
  | loop (items : String) (itemName : Value) (indexName : Option Value) (body onError : List Action)
    (line : Option Nat)

/-- The words that begin an action. -/
inductive Keyword where
  | read | file | fetch | shell | transform | build | query | set | match | extract | if | foreach
  | return | append | task | validate | delay | filter | map | date | log | notify
  deriving Repr, DecidableEq

namespace Keyword

def text : Keyword → String
  | .read => "read"
  | .file => "file"
  | .fetch => "fetch"
  | .shell => "shell"
  | .transform => "transform"
  | .build => "build"
  | .query => "query"
  | .set => "set"
  | .match => "match"
  | .extract => "extract"
  | .if => "if"
  | .foreach => "foreach"
  | .return => "return"
  | .append => "append"
  | .task => "task"
  | .validate => "validate"
  | .delay => "delay"
  | .filter => "filter"
  | .map => "map"
  | .date => "date"
  | .log => "log"
  | .notify => "notify"

def all : List Keyword :=
  [.read, .file, .fetch, .shell, .transform, .build, .query, .set, .match, .extract, .if, .foreach,
    .return, .append, .task, .validate, .delay, .filter, .map, .date, .log, .notify]

def ofText? (s : String) : Option Keyword := all.find? (·.text = s)

end Keyword

def Step.keyword : Step → Keyword
  | .read .. => .read
  | .file .. => .file
  | .fetch .. => .fetch
  | .shell .. => .shell
  | .transform .. => .transform
  | .build .. => .build
  | .query .. => .query
  | .set .. => .set
  | .match .. => .match
  | .extract .. => .extract
  | .return .. => .return
  | .append .. => .append
  | .task .. => .task
  | .validate .. => .validate
  | .delay .. => .delay
  | .filter .. => .filter
  | .map .. => .map
  | .date .. => .date
  | .log .. => .log
  | .notify .. => .notify

namespace Action

def keyword : Action → Keyword
  | .step leaf .. => leaf.keyword
  | .branch .. => .if
  | .loop .. => .foreach

def onError : Action → List Action
  | .step _ onError _ | .branch _ _ _ onError _ | .loop _ _ _ _ onError _ => onError

def line : Action → Option Nat
  | .step _ _ line | .branch _ _ _ _ line | .loop _ _ _ _ _ line => line

mutual

/-- An action and the actions in it, those that handle its failure last. -/
def flatten : Action → List Action
  | .step leaf onError line => .step leaf onError line :: flattenAll onError
  | .branch condition yes no onError line =>
    .branch condition yes no onError line ::
      (flattenAll yes ++ flattenAll no ++ flattenAll onError)
  | .loop items itemName indexName body onError line =>
    .loop items itemName indexName body onError line :: (flattenAll body ++ flattenAll onError)

/-- All actions of a sequence, each before those in it. -/
def flattenAll : List Action → List Action
  | [] => []
  | action :: rest => flatten action ++ flattenAll rest

end

end Action

/-- What runs at one trigger. -/
structure Trigger where
  kind : TriggerKind
  actions : List Action

/-- The script of a tag, with the other keys of its configuration. -/
structure Config where
  triggers : List Trigger
  tag : String
  settings : Record

namespace Config

def trigger? (config : Config) (kind : String) : Option Trigger :=
  config.triggers.find? (·.kind.text = kind)

def hasTrigger (config : Config) (kind : String) : Bool := (config.trigger? kind).isSome

end Config

end BulletScript.Script
