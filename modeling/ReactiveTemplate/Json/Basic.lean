import ReactiveTemplate.Number.Layout

/-!
# JSON

Values of JSON with their fields in order, and their text: on one line, or on many lines with an
indentation of two spaces.
-/

namespace ReactiveTemplate

/-- A value of JSON. -/
inductive Json where
  | null
  | boolean (b : Bool)
  | integer (n : Nat)
  /-- A number; one that is not finite is written as null. -/
  | real (x : Binary64)
  | string (s : String)
  | array (items : List Json)
  | object (fields : List (String × Json))
deriving Inhabited

namespace Json

/-- The value of an option, null for none. -/
def ofOption {α : Type} (toJson : α → Json) : Option α → Json
  | some a => toJson a
  | none => null

/-- An array of strings. -/
def strings (items : List String) : Json :=
  array (items.map string)

/-! ## Strings -/

/-- How a character of a string is written. -/
def stringChar (c : Char) : String :=
  if c = '"' then "\\\""
  else if c = '\\' then "\\\\"
  else if c = '\x08' then "\\b"
  else if c = '\x0c' then "\\f"
  else if c = '\n' then "\\n"
  else if c = '\r' then "\\r"
  else if c = '\t' then "\\t"
  else if c.toNat < 0x20 then
    "\\u00" ++ (if c.toNat < 0x10 then "0" else "") ++ String.ofList (Nat.toDigits 16 c.toNat)
  else c.toString

/-- A string in quotes. -/
def quote (s : String) : String :=
  s.foldl (fun out c => out ++ stringChar c) "\"" ++ "\""

/-! ## Texts of values -/

/-- The break in front of an item at the given depth of indentation; on one line there is none. -/
def lineBreak : Option Nat → String
  | none => ""
  | some depth => "\n" ++ String.ofList (List.replicate (2 * depth) ' ')

/-- What stands between the name of a field and its value. -/
def colon : Option Nat → String
  | none => ":"
  | some _ => ": "

mutual

/-- A value behind the text `out`. The depth of indentation is none for a text on one line. -/
def writeTo (depth : Option Nat) (out : String) : Json → String
  | null => out ++ "null"
  | boolean b => out ++ if b then "true" else "false"
  | integer n => out ++ toString n
  | real x => out ++ x.json?.getD "null"
  | string s => out ++ quote s
  | array items =>
      match items with
      | [] => out ++ "[]"
      | item :: items =>
          let inner := depth.map (· + 1)
          let out := item.writeTo inner (out ++ "[" ++ lineBreak inner)
          writeItems inner out items ++ lineBreak depth ++ "]"
  | object fields =>
      match fields with
      | [] => out ++ "{}"
      | (name, value) :: fields =>
          let inner := depth.map (· + 1)
          let out := value.writeTo inner
            (out ++ r"{" ++ lineBreak inner ++ quote name ++ colon inner)
          writeFields inner out fields ++ lineBreak depth ++ r"}"

/-- Further items of an array. -/
def writeItems (depth : Option Nat) (out : String) : List Json → String
  | [] => out
  | item :: items => writeItems depth (item.writeTo depth (out ++ "," ++ lineBreak depth)) items

/-- Further fields of an object. -/
def writeFields (depth : Option Nat) (out : String) : List (String × Json) → String
  | [] => out
  | (name, value) :: fields =>
      writeFields depth
        (value.writeTo depth (out ++ "," ++ lineBreak depth ++ quote name ++ colon depth)) fields

end

/-- A value on one line. -/
def compact (json : Json) : String :=
  json.writeTo none ""

/-- A value on many lines. -/
def pretty (json : Json) : String :=
  json.writeTo (some 0) ""

end Json

end ReactiveTemplate
