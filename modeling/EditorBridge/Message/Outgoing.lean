/-
Messages to the editor.  A message is an envelope around what it says; a field
that would be `null` is left out of an error and of a notification, while an
identifier and a result are always there.  A message is written as a whole or, when
it cannot be encoded, not at all.
-/
import EditorBridge.Fault
import EditorBridge.Json.Display
import EditorBridge.Json.Printer
import EditorBridge.Log
import EditorBridge.Message.Encoding
import EditorBridge.Text.Encoding
import EditorBridge.Text.Utf8

namespace EditorBridge

/-- A message to the editor. -/
inductive Outgoing where
  | response (id result : Json)
  | failure (id : Json) (code : Int) (message : Text) (data : Json)
  | notification (method : Text) (params : Json)
  | diagnostics (uri : Text) (list : List Diagnostic)
  | alert (message : Text)

namespace Outgoing

/-- The mark that every message carries. -/
def version : Text × Json := ("jsonrpc", .str "2.0")

def optionalField (key : Text) (value : Json) : Json.Fields :=
  if value.isNull then [] else [(key, value)]

def errorFields (code : Int) (message : Text) (data : Json) : Json.Fields :=
  ("code", .int code) :: ("message", .str message) :: optionalField "data" data

def notificationFields (method : Text) (params : Json) : Json.Fields :=
  [version, ("method", .str method)] ++ optionalField "params" params

/-- What a list of diagnostics says about a document. -/
def diagnosticsParams (uri : Text) (list : List Diagnostic) : Json :=
  .obj [("uri", .str uri), ("diagnostics", .arr (list.map Diagnostic.toJson))]

/-- What an alert says: an error for the user to read. -/
def alertParams (message : Text) : Json := .obj [("type", .int 1), ("message", .str message)]

def fields : Outgoing → Json.Fields
  | .response id result => [version, ("id", id), ("result", result)]
  | .failure id code message data =>
      [version, ("id", id), ("error", .obj (errorFields code message data))]
  | .notification method params => notificationFields method params
  | .diagnostics uri list =>
      notificationFields "textDocument/publishDiagnostics" (diagnosticsParams uri list)
  | .alert message => notificationFields "window/showMessage" (alertParams message)

def body (message : Outgoing) : List CodePoint := (Json.print (.obj message.fields)).points

/-- Why a message cannot be written: an integer in it is too long, or a text in it has lone
surrogates. -/
inductive WriteError where
  | unwritable
  | encoding (cause : Text.EncodeError)
deriving DecidableEq, Repr

def bodyOctets (message : Outgoing) : Except WriteError (List UInt8) :=
  if !(Json.obj message.fields).isWritable then .error .unwritable
  else match Text.refusal? .utf8 message.body with
    | some cause => .error (.encoding cause)
    | none => .ok (Text.Utf8.encode (Text.chars message.body))

/-- The header in front of a body, which tells its length in octets. -/
def header (length : Nat) : List Char :=
  "Content-Length: ".toList ++ Text.decimal length ++ "\r\n\r\n".toList

/-- A body behind its header. -/
def framed (body : List UInt8) : List UInt8 := Text.Utf8.encode (header body.length) ++ body

def octets (message : Outgoing) : Except WriteError (List UInt8) := message.bodyOctets.map framed

/-- What the log says about a message that was sent. -/
def entry : Outgoing → Log.Entry
  | .response id _ => ⟨.debug, "-> response id=" ++ id.display⟩
  | .failure id code _ _ =>
      ⟨.debug, "-> error id=" ++ id.display ++ " code=" ++ Text.signedText code⟩
  | .notification method _ => ⟨.debug, "-> notification method=" ++ method⟩
  | .diagnostics _ _ => ⟨.debug, "-> notification method=textDocument/publishDiagnostics"⟩
  | .alert _ => ⟨.debug, "-> notification method=window/showMessage"⟩

end Outgoing

/-- The fault of a message that cannot be written. -/
def Fault.ofWrite : Outgoing.WriteError → Fault
  | .unwritable => .unwritable
  | .encoding cause => .encoding cause

end EditorBridge
