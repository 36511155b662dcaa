import Wordstack.Bridge.Call
import Wordstack.Bridge.ContentType
import Wordstack.Bridge.Target
import Wordstack.Text.Charset

/-!
# The service over HTTP

- **Requests and responses** (`Http.Request`, `Http.Response`).
- **Bodies** (`Http.Request.receive`): a JSON body is an object or an array. No body, an empty one
  and one of another type count as the empty object.
- **Routes** (`Http.answer`): `GET /health` and `POST /rpc/` with the name of a method. The status
  of a failed call says whether the request, the module or the time was at fault.
-/

namespace Wordstack

namespace Http

/-- What is asked of a server. -/
structure Request where
  verb : String
  /-- The path with its query, or a whole address. -/
  target : String
  contentType : Option String := none
  body : Option String := none

/-- The body of a response. -/
inductive Content where
  | json (x : Json)
  | text (s : String)

/-- What a server answers. -/
structure Response where
  status : Nat
  /-- The value of the header that names the origin allowed to read the response. -/
  allowOrigin : Option String
  content : Content

/-! ## Bodies -/

/-- What has arrived as the body of a request. -/
inductive Received where
  | body (x : Json)
  | malformed
  | unsupported (charset : String)

/-- The type of the body of a request, if there is a body and it is JSON. -/
def Request.json? (r : Request) : Option (ContentType × String) := do
  let body ← r.body
  let type ← r.contentType.bind ContentType.read?
  if type.isJson then some (type, body) else none

/-- Whether a request has a body of JSON, which is received only when nobody has anything to do. -/
def Request.hasJson (r : Request) : Bool := r.json?.isSome

/-- The encoding of a character set that bodies may have. -/
def supported? (charset : String) : Option Charset :=
  if Text.startsWith charset "utf-" then Charset.ofName? charset else none

/-- A body of JSON. -/
def receiveText (text : String) : Received :=
  if text.isEmpty then .body (.obj [])
  else
    match Json.ofText? text with
    | some (.obj fields) => .body (.obj fields)
    | some (.arr xs) => .body (.arr xs)
    | _ => .malformed

/-- The body of a request. -/
def Request.receive (r : Request) : Received :=
  match r.json? with
  | none => .body (.obj [])
  | some (type, body) =>
    match supported? type.charset with
    | some set => receiveText (set.decode body)
    | none => .unsupported type.charset

/-! ## Routes -/

/-- A note as HTML: characters with a meaning of their own as references, and line ends and gaps
that stay visible. -/
def escape : List Char → String
  | [] => ""
  | '&' :: cs => "&amp;" ++ escape cs
  | '<' :: cs => "&lt;" ++ escape cs
  | '>' :: cs => "&gt;" ++ escape cs
  | '"' :: cs => "&quot;" ++ escape cs
  | '\'' :: cs => "&#39;" ++ escape cs
  | '\n' :: cs => "<br>" ++ escape cs
  | ' ' :: ' ' :: cs => " &nbsp;" ++ escape cs
  | c :: cs => String.singleton c ++ escape cs

/-- The page about an error. -/
def errorPage (note : String) : Content :=
  .text (Text.join "\n" ["<!DOCTYPE html>", "<html lang=\"en\">", "<head>",
    "<meta charset=\"utf-8\">", "<title>Error</title>", "</head>", "<body>",
    "<pre>" ++ escape note.toList ++ "</pre>", "</body>", "</html>", ""])

/-- The page about a request that nothing answers. -/
def missingPage (verb place : String) : Content :=
  errorPage ("Cannot " ++ verb ++ " " ++ Text.percentEncode place)

/-- The characters of a letter up to `U+00FF` in upper case. -/
def upperLatin (c : Char) : List Char :=
  let n := c.toNat
  if n == 0xDF then ['S', 'S']
  else if n == 0xB5 then ['\u039C']
  else if n == 0xFF then ['\u0178']
  else if 0xE0 ≤ n && n ≤ 0xFE && n != 0xF7 then [Char.ofNat (n - 32)]
  else [c.toUpper]

/-- The page about a body in a character set that is not supported. -/
def charsetPage (charset : String) : Content :=
  errorPage ("UnsupportedMediaTypeError: unsupported charset \"" ++
    String.ofList (charset.toList.flatMap upperLatin) ++ "\"")

/-- The parts of a path between slashes; a slash at the end makes no part. -/
def parts (path : String) : List String :=
  match (Text.splitAt '/' path).reverse with
  | last :: rest => if last.isEmpty then rest.reverse else (last :: rest).reverse
  | [] => []

/-- What a request is for. -/
inductive Route where
  | health
  | call (method : String)
  /-- The name of a method that is no well formed text. -/
  | malformed (method : String)
  | unknown

/-- The route of a request. The verb counts in any case, and a broken name of a method is noticed
whatever the verb is. -/
def routeOf (verb path : String) : Route :=
  let verb := Text.lower verb
  match parts path with
  | ["", name] =>
    if Text.lower name == "health" && (verb == "get" || verb == "head") then .health else .unknown
  | ["", name, method] =>
    if Text.lower name == "rpc" && !method.isEmpty then
      match Text.percentDecode? method with
      | some method => if verb == "post" then .call method else .unknown
      | none => .malformed method
    else .unknown
  | _ => .unknown

/-- The status of a failed call. -/
def statusOf : Fault → Nat
  | .wireFormat .. => 400
  | .unknownModule .. => 404
  | .requestTimeout .. => 504
  | _ => 500

/-- A JSON object with the report of a fault. -/
def errorBody (f : Fault) (context : List (String × String)) : Json :=
  .obj [("error", Endpoint.errorOf f context)]

/-- Status and body of the answer to a call. -/
def answerCall (e : Nested) (p : Endpoint) (name : String) (body : Json) : Task (Nat × Json) := do
  match Method.ofName? name with
  | none => return (404, errorBody (Endpoint.unknownMethod name) [])
  | some method =>
    match ← Task.attempt (p.invoke e method (some body)) with
    | .ok x => return (200, x.sent)
    | .error f => return (statusOf f, errorBody f [("method", name)])

/-- The answer to a request for a path, once its body has arrived. -/
def answerPath (e : Nested) (p : Endpoint) (verb path : String) (body : Json) : Task Response := do
  let origin := some p.allowOrigin
  if verb = "OPTIONS" then return ⟨200, origin, .text "OK"⟩
  else
    match routeOf verb path with
    | .health =>
      let modules ← Task.view fun _ s => p.runtime.listModules s
      return ⟨200, origin, .json (.obj [("status", .str "ok"), ("runtime", .str Fault.runtimeName),
        ("modules", Json.int modules.length)])⟩
    | .call name =>
      let (status, x) ← answerCall e p name body
      return ⟨status, origin, .json x⟩
    | .malformed name =>
      return ⟨400, origin, errorPage ("URIError: Failed to decode param '" ++ name ++ "'")⟩
    | .unknown => return ⟨404, origin, missingPage verb path⟩

/-- The answer to a request, with what is not sent to those who ask for the head only. -/
def answerInFull (e : Nested) (p : Endpoint) (r : Request) : Task Response := do
  match Target.read r.target with
  | .nowhere => return ⟨404, none, missingPage r.verb "null"⟩
  | .malformed => return ⟨404, none, missingPage r.verb "resource"⟩
  | .path path =>
    if r.hasJson then
      let _ ← Task.wait .idle
    match r.receive with
    | .malformed => return ⟨400, none, .json (errorBody (.wireFormat "Invalid JSON body: ") [])⟩
    | .unsupported charset => return ⟨415, none, charsetPage charset⟩
    | .body x => answerPath e p r.verb path x

/-- The answer to a request. -/
def answer (e : Nested) (p : Endpoint) (r : Request) : Task Response := do
  let response ← answerInFull e p r
  return if r.verb = "HEAD" then { response with content := .text "" } else response

end Http

end Wordstack
