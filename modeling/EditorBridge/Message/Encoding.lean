/-
The answers of the server as JSON.  Fields that say nothing are left out.
-/
import EditorBridge.Completion
import EditorBridge.Diagnostic
import EditorBridge.Hover
import EditorBridge.Json.Value
import EditorBridge.Outline

namespace EditorBridge

def Position.toJson (p : Position) : Json :=
  .obj [("line", .int p.line), ("character", .int p.character)]

def Range.toJson (range : Range) : Json :=
  .obj [("start", range.start.toJson), ("end", range.stop.toJson)]

def Diagnostic.toJson (diagnostic : Diagnostic) : Json :=
  .obj [("range", diagnostic.range.toJson), ("message", .str diagnostic.message),
    ("severity", .int diagnostic.severity.code), ("source", .str Diagnostic.source)]

def Hover.toJson (hover : Hover) : Json :=
  let contents := Json.obj [("kind", .str "markdown"), ("value", .str hover.value)]
  let range : Option (Text × Json) := hover.range.map fun range => ("range", range.toJson)
  .obj (("contents", contents) :: range.toList)

def LocationLink.toJson (link : LocationLink) : Json :=
  .obj [("targetUri", .str link.targetUri), ("targetRange", link.targetRange.toJson),
    ("targetSelectionRange", link.targetSelectionRange.toJson),
    ("originSelectionRange", link.originSelectionRange.toJson)]

def CompletionItem.toJson (item : CompletionItem) : Json :=
  .obj [("label", .str item.label), ("detail", .str item.detail)]

mutual

def DocumentSymbol.toJson : DocumentSymbol → Json
  | .mk name detail kind range selectionRange none =>
      .obj [("name", .str name), ("kind", .int kind.code), ("range", range.toJson),
        ("selectionRange", selectionRange.toJson), ("detail", .str detail)]
  | .mk name detail kind range selectionRange (some children) =>
      .obj [("name", .str name), ("kind", .int kind.code), ("range", range.toJson),
        ("selectionRange", selectionRange.toJson), ("detail", .str detail),
        ("children", .arr (DocumentSymbol.listToJson children))]

def DocumentSymbol.listToJson : List DocumentSymbol → List Json
  | [] => []
  | entry :: rest => entry.toJson :: DocumentSymbol.listToJson rest

end

/-- What the server offers. -/
def capabilities : Json :=
  .obj [("textDocumentSync", .obj [("openClose", .bool true), ("change", .int 1)]),
    ("completionProvider", .obj [("triggerCharacters", .arr [.str ".", .str ":"])]),
    ("hoverProvider", .bool true), ("definitionProvider", .bool true),
    ("documentSymbolProvider", .bool true)]

end EditorBridge
