import ChartLint.Modernize
import ChartLint.Report
import ChartLint.Service.Request
import ChartLint.Service.Settings
import ChartLint.Service.Target
import ChartLint.Text.Upper

/-!
# Routes

The service answers four paths, each for one method, and shows some pages about itself. A script is
turned away before any work if it is empty or larger than the settings allow.
-/

namespace ChartLint.Service

/-- The version of the service. -/
def version : String := "0.1.0"

/-- What can be asked of the service. -/
inductive Endpoint where
  | health
  | audit
  | dryRun
  | modernize
deriving DecidableEq, Repr

namespace Endpoint

/-- The endpoints of the service. -/
def all : List Endpoint :=
  [.health, .audit, .dryRun, .modernize]

/-- The path of an endpoint. -/
def path : Endpoint → String
  | .health => "/health"
  | .audit => "/audit"
  | .dryRun => "/test"
  | .modernize => "/update"

/-- The method that an endpoint answers. -/
def method : Endpoint → String
  | .health => "GET"
  | _ => "POST"

end Endpoint

/-- What a path leads to. -/
inductive Place where
  | endpoint (e : Endpoint)
  /-- A page about the service, for people to read. -/
  | page
deriving DecidableEq, Repr

namespace Place

/-- The paths of the pages about the service. -/
def pages : List String :=
  ["/openapi.json", "/docs", "/docs/oauth2-redirect", "/redoc"]

/-- The places of the service and their paths. -/
def all : List (String × Place) :=
  pages.map (fun path => (path, .page)) ++ Endpoint.all.map (fun e => (e.path, .endpoint e))

/-- The place at exactly this path; one line feed at the end is not seen. -/
def at? (path : Text) : Option Place :=
  (all.find? (fun (known, _) => path = known.toList || path = known.toList ++ ['\n'])).map (·.2)

/-- The place at a path. A path with slashes at the end leads where it leads without them. -/
def ofPath? (path : Text) : Option Place :=
  match at? path with
  | some place => some place
  | none =>
    if path.getLast? = some '/' then at? (Text.trimEndBy (· == '/') path) else none

/-- The methods that a place answers. -/
def methods : Place → List String
  | .endpoint e => [e.method]
  | .page => ["GET", "HEAD"]

end Place

/-- A request; its method may be written in any case. -/
structure Request where
  method : String
  target : String
  body : Option Payload

/-- An answer. -/
inductive Reply where
  | health (version platform : String)
  | audit (result : Audit)
  | dryRun (result : DryRun)
  | modernize (result : Modernized)
  /-- A page about the service; what it shows is up to whoever runs the service. -/
  | page
  /-- The request carries no code but blanks. -/
  | codeRequired
  | codeTooLarge (limit : Int)
  | notFound
  | methodNotAllowed
  | rejected (rejections : List Rejection)

namespace Reply

/-- The status code of an answer. -/
def status : Reply → Nat
  | .health .. | .audit _ | .dryRun _ | .modernize _ | .page => 200
  | .codeRequired => 400
  | .notFound => 404
  | .methodNotAllowed => 405
  | .codeTooLarge _ => 413
  | .rejected _ => 422

/-- The explanation that goes with a refusal. -/
def detail? : Reply → Option String
  | .codeRequired => some "code is required"
  | .codeTooLarge limit => some s!"code exceeds {limit} bytes"
  | .notFound => some "Not Found"
  | .methodNotAllowed => some "Method Not Allowed"
  | _ => none

end Reply

/-- Works on a script unless it is blank or too large. -/
def withCode (s : Settings) (code : String) (work : Text → Reply) : Reply :=
  if (Text.trim code.toList).isEmpty then .codeRequired
  else if s.maxCodeBytes < code.utf8ByteSize then .codeTooLarge s.maxCodeBytes
  else work code.toList

/-- Works on a request that could be read. -/
def withRequest {α : Type} (request : Read α) (work : α → Reply) : Reply :=
  match request with
  | .ok a => work a
  | .error rejections => .rejected rejections

/-- The answer of an endpoint. -/
def Endpoint.reply (p : Platform) (s : Settings) (body : Option Payload) : Endpoint → Reply
  | .health => .health version p.version
  | .audit =>
    withRequest (AuditRequest.read body) (fun r =>
      withCode s r.code (fun code =>
        .audit (Audit.run (Rule.suite p) (r.strict.getD s.strictDefault) r.autoFix code)))
  | .dryRun =>
    withRequest (DryRunRequest.read body) (fun r =>
      withCode s r.code (fun code => .dryRun (DryRun.run p code)))
  | .modernize =>
    withRequest (ModernizeRequest.read body) (fun r =>
      withCode s r.code (fun code => .modernize (Modernize.run r.kind code)))

/-- The answer of a place to a request for it. -/
def Place.reply (p : Platform) (s : Settings) (body : Option Payload) : Place → Reply
  | .endpoint e => e.reply p s body
  | .page => .page

/-- The answer to a request, unless its target cannot be read. -/
def serve (p : Platform) (s : Settings) (r : Request) : Except Fault Reply := do
  let target ← Target.read r.target
  match Place.ofPath? target.destination with
  | none => return .notFound
  | some place =>
    if String.ofList (Text.upper r.method.toList) ∈ place.methods then
      return place.reply p s r.body
    else
      return .methodNotAllowed

end ChartLint.Service
