import BulletScript.Engine.Reading
import BulletScript.Json.Reader
import BulletScript.Json.Writer

/-! Steps that ask others: requests to web addresses, and queries of the documents. -/
namespace BulletScript.Engine

open Script

/-- Headers by name; a known name keeps its place. -/
def setHeader (headers : List (String × String)) (name value : String) : List (String × String) :=
  if headers.any (·.1 = name) then
    headers.map fun header => if header.1 = name then (name, value) else header
  else headers ++ [(name, value)]

namespace Response

def ok (r : Response) : Bool := 200 ≤ r.status && r.status < 300

def contentType (r : Response) : String :=
  ((r.headers.find? fun (name, _) => Text.lower name = "content-type").map (·.2)).getD ""

/-- Whether a text begins like a list or a mapping of JSON. -/
def startsJson (s : String) : Bool :=
  match Text.trimLeftChars s.toList with
  | '\x7b' :: _ | '[' :: _ => true
  | _ => false

/-- The value of an answer: read as JSON if it says or looks so, else its text. -/
def data (r : Response) : Value :=
  if Text.contains "json" (Text.lower r.contentType) || startsJson r.text then
    (Json.read? r.text).getD (.str r.text)
  else .str r.text

/-- How much of a refusal is told. -/
def refusalLimit : Nat := 500

def refusal (r : Response) : ActionFault :=
  .http ("HTTP " ++ toString r.status ++ ": " ++
    (if r.text = "" then "Request failed" else Text.take refusalLimit r.text))

end Response

namespace Act

def renderMaybe (template : Option Value) : Act String := do
  match template with
  | some template => renderOption template
  | none => return ""

/-- The headers with the credentials of a request. -/
def addAuth (auth : Auth) (headers : List (String × String)) : Act (List (String × String)) := do
  match auth.kind with
  | .basic =>
    let user ← renderMaybe auth.username
    let password ← renderMaybe auth.password
    let credentials := Bytes.base64 (Bytes.ofText (user ++ ":" ++ password))
    return setHeader headers "Authorization" ("Basic " ++ credentials)
  | .bearer =>
    return setHeader headers "Authorization" ("Bearer " ++ (← renderMaybe auth.token))
  | .apiKey =>
    let key ← renderMaybe auth.apiKey
    let name ← ofResult (variableName
      (if auth.headerName.isSome then auth.headerName else .str "X-API-Key"))
    return setHeader headers name key

/-- The body of a request. A body that only names a variable with a list or a mapping is its
JSON form. -/
def requestBody (step : FetchStep) : Act (Option String) := do
  match step.body.filter Value.isSome with
  | none => return none
  | some body =>
    if Text.upper step.method = "GET" then return none
    let template ← ofResult (templateOf body)
    let text ← render template
    if Response.startsJson text then return some text
    let named := (← context).vars.get? (.str (Text.trim template))
    match named.filter fun v => v.isMap || v.isList with
    | none => return some text
    | some v =>
      match Json.write Json.spaced Json.refuse v with
      | .ok json => return some json
      | .error fault => throw (.internal (.badType fault.message))

/-- Seconds that a step may take: its own milliseconds, if it states any. -/
def timeoutOf (timeoutMs : Option Int) (usual : Float) : Act Float := do
  match timeoutMs.filter (· ≠ 0) with
  | none => return usual
  | some ms => ofResult (.ofNumber (Number.intQuotient ms 1000))

/-- The request that a step describes. -/
def requestOf (engine : Runner) (step : FetchStep) : Act Request := do
  let url ← render step.url
  let headers ← step.headers.foldlM
    (fun headers (name, value) => return setHeader headers name (← render value))
    [("Content-Type", "application/json"), ("User-Agent", engine.settings.http.userAgent)]
  let headers ← match step.auth with
    | some auth => addAuth auth headers
    | none => pure headers
  let body ← requestBody step
  let timeout ← timeoutOf step.timeoutMs engine.settings.http.timeout
  return ⟨Text.upper step.method, url, headers, body, timeout⟩

/-- Makes an answer the response of the run, unless it is a refusal. -/
def takeResponse (step : FetchStep) (response : Response) : Act Unit := do
  if !response.ok then fail response.refusal
  let data := response.data
  modifyContext fun c => { c with response := data }
  set "response" data
  storeIn step.storeAs data

/-- Sends a request and takes its answer. -/
def fetch (engine : Runner) (step : FetchStep) : Act Unit := do
  if !engine.http then fail (.unavailable "HTTP client")
  let request ← requestOf engine step
  match ← modifyGet fun s => let (r, world) := s.world.request request; (r, { s with world }) with
  | .failed failure => throw failure
  | .response response => takeResponse step response

/-- Lists the items of all documents that carry a tag. -/
def query (engine : Runner) (identifier : String) (storeAs : Value) (options : Record) :
    Act Unit := do
  let store ← require engine.query "query service"
  let identifier ← render identifier
  let options ← options.mapM fun (key, v) => do
    match v with
    | .str template => return (key, .str (← render template))
    | v => return (key, v)
  let q ← ofResult (Tasks.Query.ofOptions identifier options)
  setNamed storeAs (.list (← withTree (q.run store)))

end Act

end BulletScript.Engine
