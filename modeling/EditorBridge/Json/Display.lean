/-
A value as it stands in a report: names with capitals, strings between quotes,
blanks behind commas and colons.
-/
import EditorBridge.Json.Value
import EditorBridge.Text.Quoted

namespace EditorBridge.Json

/-- The words that a report uses for a truth value. -/
def displayBool (b : Bool) : String := if b then "True" else "False"

mutual

/-- A value as a report shows it inside another value. -/
def literal : Json → String
  | .null => "None"
  | .bool b => displayBool b
  | .int n => Text.signedText n
  | .float x => x.text
  | .str s => Text.quoted s
  | .arr items => "[" ++ ", ".intercalate (literals items) ++ "]"
  | .obj fields => "\x7b" ++ ", ".intercalate (literalFields fields) ++ "\x7d"

/-- The items of an array as a report shows them. -/
def literals : List Json → List String
  | [] => []
  | item :: rest => literal item :: literals rest

/-- The fields of an object as a report shows them. -/
def literalFields : Fields → List String
  | [] => []
  | (key, value) :: rest => (Text.quoted key ++ ": " ++ literal value) :: literalFields rest

end

/-- A value as a report shows it: a string stands for itself. -/
def display : Json → Text
  | .str s => s
  | value => literal value

/-- A value as a report shows it, unless it holds an integer too long to be written. -/
def display? (value : Json) : Option Text := if value.isWritable then some value.display else none

/-- The word for the kind of a value in a report. -/
def kindName : Json → String
  | .null => "NoneType"
  | .bool _ => "bool"
  | .int _ => "int"
  | .float _ => "float"
  | .str _ => "str"
  | .arr _ => "list"
  | .obj _ => "dict"

end EditorBridge.Json
