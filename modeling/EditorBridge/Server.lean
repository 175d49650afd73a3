/-
The server: one message after another is taken, served in full and answered.  A
request gets exactly one response, a notification none; a fault that ends the
work on one message is reported and the next message is served.
-/
import EditorBridge.Documents
import EditorBridge.Message.Frame
import EditorBridge.Message.Params

namespace EditorBridge

def serverName : String := "Nelua LSP"

def serverVersion : String := "0.2.0"

/-- The requests that are served. -/
inductive Request where
  | start
  | shutdown
  | hover
  | definition
  | outline
  | completion
deriving DecidableEq, Repr

/-- The notifications that are taken. -/
inductive Notification where
  | started
  | exit
  | opened
  | changed
  | closed
deriving DecidableEq, Repr

def Request.methods : List (Text × Request) :=
  [("initialize", .start), ("shutdown", .shutdown), ("textDocument/hover", .hover),
    ("textDocument/definition", .definition), ("textDocument/documentSymbol", .outline),
    ("textDocument/completion", .completion)]

def Notification.methods : List (Text × Notification) :=
  [("initialized", .started), ("exit", .exit), ("textDocument/didOpen", .opened),
    ("textDocument/didChange", .changed), ("textDocument/didClose", .closed)]

/-- What a method stands for.  An array or an object cannot be looked up. -/
def lookUp {α : Type} (methods : List (Text × α)) : Json → Except Fault (Option α)
  | .str method => .ok (methods.lookup method)
  | .arr items => .error (.unusableMethod (.arr items))
  | .obj fields => .error (.unusableMethod (.obj fields))
  | _ => .ok none

namespace Config

open Serving

/-- The parameters of a message, or the fault that they cannot be read. -/
def ofParams {α : Type} (shape : Params.Shape) (read : Except Text α) : Serving α :=
  lift (read.mapError (Params.fault shape))

/-- The root that the parameters of a first request name. -/
def namedRoot (params : Json) : Except Fault (Option Text) :=
  match params with
  | .obj fields =>
      let first := (Json.Fields.get? fields "rootUri").getD .null
      let root :=
        if first.isTruthy then first else (Json.Fields.get? fields "rootPath").getD .null
      if root.isTruthy then
        match root with
        | .str uri => .ok (some uri)
        | value => .error (.missingMethod value "startswith")
      else .ok none
  | value => .error (.missingMethod value "get")

/-- Take the root that the editor names, unless one is fixed. -/
def takeRoot (cfg : Config) (params : Json) : Serving Unit :=
  if cfg.rootOverride.isSome then pure ()
  else do
    match ← lift (namedRoot params) with
    | none => pure ()
    | some uri =>
        let root ← lift ((Uri.toPath uri).mapError Fault.uri)
        modify fun s => { s with root := some root }
        note .info ("Module search root: " ++ root.text)

/-- What the server says about itself. -/
def introduction : Json :=
  .obj [("capabilities", capabilities),
    ("serverInfo", .obj [("name", .str serverName), ("version", .str serverVersion)])]

/-- The document and what sits at a position of it.  A position outside the
document finds nothing. -/
def find (cfg : Config) (params : Params.PositionParams) :
    Serving (Option (Document × Tree × Location)) := do
  let document ← cfg.document params.uri
  match document.tree with
  | none => return none
  | some tree =>
      match Position.toOffset document.text.points params.position.line
          params.position.character with
      | .error cause =>
          note .debug (params.uri ++ ": " ++ cause.message)
          return none
      | .ok offset => return (tree.locationAt offset).map fun location => (document, tree, location)

def hover (cfg : Config) (params : Params.PositionParams) : Serving (Option Hover) := do
  match ← cfg.find params with
  | none => return none
  | some (document, tree, location) =>
      lift ((tree.hover location document.text.points).mapError Fault.ofRange)

/-- The links of what was located.  The text of another file is asked of the host. -/
def links (cfg : Config) (document : Document) (tree : Tree) (location : Location) :
    Serving (List LocationLink) := do
  let tag := (tree.graph.node location.node).tag
  if !Graph.hasDefinition tag then note .debug ("No definition lookup for " ++ tag ++ " nodes")
  let s ← get
  match tree.destination location document.uri with
  | .ok (.elsewhere other _) => set { s with calls := s.calls ++ [Call.read other] }
  | _ => pure ()
  lift (tree.definition location document.text.points document.uri (cfg.host.read s.calls))

def definition (cfg : Config) (params : Params.PositionParams) :
    Serving (List LocationLink) := do
  match ← cfg.find params with
  | none => return []
  | some (document, tree, location) => cfg.links document tree location

def outline (cfg : Config) (uri : Text) : Serving (List DocumentSymbol) := do
  let document ← cfg.document uri
  match document.tree with
  | none => return []
  | some tree => lift (tree.outline document.text.points)

/-- Serve a completion.  When a position turns out to be outside the document,
there are no choices. -/
def completion (cfg : Config) (params : Params.PositionParams) :
    Serving (List CompletionItem) := do
  match ← attempt (cfg.complete params.uri params.position.line params.position.character) with
  | .ok items => return items
  | .error (.position cause) =>
      note .debug (params.uri ++ ": " ++ cause.message)
      return []
  | .error fault => throw fault

def answer (cfg : Config) (request : Request) (params : Json) : Serving Json :=
  match request with
  | .start => do
      cfg.takeRoot params
      return introduction
  | .shutdown => do
      modify fun s => { s with shutdownRequested := true }
      return .null
  | .hover => do
      let place ← ofParams Params.hoverShape (cfg.readers.place Params.hoverShape params)
      let shown ← cfg.hover place
      return (shown.map Hover.toJson).getD .null
  | .definition => do
      let place ← ofParams Params.definitionShape
        (cfg.readers.place Params.definitionShape params)
      let links ← cfg.definition place
      return .arr (links.map LocationLink.toJson)
  | .outline => do
      let uri ← ofParams Params.symbolShape (cfg.readers.document Params.symbolShape params)
      let entries ← cfg.outline uri
      return .arr (DocumentSymbol.listToJson entries)
  | .completion => do
      let place ← ofParams Params.completionShape
        (cfg.readers.place Params.completionShape params)
      let items ← cfg.completion place
      return .arr (items.map CompletionItem.toJson)

def take (cfg : Config) (notification : Notification) (params : Json) : Serving Unit :=
  match notification with
  | .started => pure ()
  | .exit => modify fun s => { s with exitRequested := true }
  | .opened => do
      let item ← ofParams Params.openShape (cfg.readers.opened params)
      let document ← cfg.refresh item.uri item.text
      if document.tree.isNone then
        note .warning ("Failed to analyze " ++ item.uri)
        send (.alert (serverName ++ ": failed to load document " ++ item.uri))
  | .changed => do
      let change ← ofParams Params.changeShape (cfg.readers.changed params)
      match change.texts.getLast? with
      | none => pure ()
      | some text =>
          let _ ← cfg.refresh change.uri text
  | .closed => do
      let uri ← ofParams Params.closeShape (cfg.readers.document Params.closeShape params)
      let _ ← close uri
      cfg.publish uri []

def methodNotFound : Int := -32601

def internalError : Int := -32603

def serveRequest (cfg : Config) (id method params : Json) : Serving Unit := do
  noteShowing [id, method] .debug ("<- request id=" ++ id.display ++ " method=" ++ method.display)
  match ← lift (lookUp Request.methods method) with
  | none =>
      match method.display? with
      | none => throw .unwritable
      | some shown => send (.failure id methodNotFound ("Unhandled method: " ++ shown) .null)
  | some request =>
      match ← attempt (cfg.answer request params) with
      | .ok result => send (.response id result)
      | .error (.rpc code message data) => send (.failure id code message data)
      | .error fault =>
          if fault.isOrdinary then
            note .error ("Internal error handling " ++ method.display)
            send (.failure id internalError (fault.kind ++ ": " ++ fault.message) .null)
          else throw fault

/-- Take a notification; what goes wrong is shown to the user. -/
def serveNotification (cfg : Config) (method params : Json) : Serving Unit := do
  noteShowing [method] .debug ("<- notification method=" ++ method.display)
  match ← lift (lookUp Notification.methods method) with
  | none => noteShowing [method] .debug ("Unhandled notification: " ++ method.display)
  | some notification =>
      match ← attempt (cfg.take notification params) with
      | .ok () => pure ()
      | .error fault =>
          if fault.isOrdinary then
            note .error ("Error handling " ++ method.display)
            send (.alert (serverName ++ ": " ++ method.display ++ " failed: " ++ fault.message))
          else throw fault

/-- The parameters of a message; what says nothing counts as no parameters. -/
def paramsOf (message : Json.Fields) : Json :=
  let params := (Json.Fields.get? message "params").getD .null
  if params.isTruthy then params else .obj []

/-- Serve one message.  It is a request when it has an identifier. -/
def handle (cfg : Config) (message : Json.Fields) : Serving Unit :=
  let method := (Json.Fields.get? message "method").getD .null
  let id := (Json.Fields.get? message "id").getD .null
  if method.isNull then
    noteShowing [.obj message] .debug
      ("Ignoring message without method: " ++ (Json.obj message).display)
  else if id.isNull then cfg.serveNotification method (paramsOf message)
  else cfg.serveRequest id method (paramsOf message)

end Config

def Session.exitCode (s : Session) : Nat := if s.shutdownRequested then 0 else 1

/-- How a run ended: with a code or with a fault, with what was left unread. -/
structure Run where
  outcome : Except Fault Nat
  rest : List UInt8
  session : Session

def Session.logged (s : Session) (entries : List Log.Entry) : Session :=
  { s with log := s.log ++ entries }

namespace Config

/-- Serve the messages of a stream up to its end or up to a request to exit. -/
def serve (cfg : Config) (input : List UInt8) (s : Session) : Run :=
  if s.exitRequested then ⟨.ok s.exitCode, input, s⟩
  else
    let reading := Frame.read input
    let s := s.logged reading.log
    match _h : (Frame.read input).outcome with
    | .error fault => ⟨.error fault, reading.rest, s⟩
    | .ok none =>
        ⟨.ok s.exitCode, reading.rest, s.logged [⟨.info, "Input stream closed; exiting server"⟩]⟩
    | .ok (some message) =>
        if message.isEmpty then cfg.serve (Frame.read input).rest s
        else
          match (cfg.handle message).run s with
          | (.error fault, s) => ⟨.error fault, reading.rest, s⟩
          | (.ok (), s) => cfg.serve (Frame.read input).rest s
termination_by input.length
decreasing_by all_goals exact Frame.length_rest_read _h

/-- Serve a stream from the beginning. -/
def run (cfg : Config) (input : List UInt8) : Run :=
  cfg.serve input
    (cfg.start.logged [⟨.info, serverName ++ " " ++ serverVersion ++ " started"⟩])

end Config

end EditorBridge
