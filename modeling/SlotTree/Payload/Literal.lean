import SlotTree.Payload.Basic
import SlotTree.Text.Quoted

/-!
The written form of payloads. A literal quotes text at every level; the plain text of a payload is
its literal, except that a string is written as it stands.
-/

namespace SlotTree
namespace Value

def typeName : Value → String
  | null => "NoneType"
  | bool _ => "bool"
  | int _ => "int"
  | str _ => "str"
  | array _ => "list"
  | object _ => "dict"

mutual

def literal : Value → String
  | null => "None"
  | bool b => if b then "True" else "False"
  | int n => toString n
  | str s => Text.quoted s
  | array items => "[" ++ ", ".intercalate (itemLiterals items) ++ "]"
  | object entries => "\x7b" ++ ", ".intercalate (entryLiterals entries) ++ "\x7d"

def itemLiterals : List Value → List String
  | [] => []
  | item :: items => literal item :: itemLiterals items

def entryLiterals : List (String × Value) → List String
  | [] => []
  | (key, value) :: entries =>
    (Text.quoted key ++ ": " ++ literal value) :: entryLiterals entries

end

end Value

namespace Payload

def typeName : Payload → String
  | value v => v.typeName
  | nan => "float"

def literal : Payload → String
  | value v => v.literal
  | nan => "nan"

def text : Payload → String
  | value (.str s) => s
  | p => p.literal

end Payload
end SlotTree
