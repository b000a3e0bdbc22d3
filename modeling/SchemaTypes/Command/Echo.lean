import SchemaTypes.Command.Basic
import SchemaTypes.Text.Quoted

namespace SchemaTypes

/-- A nested value that is shown on several lines. -/
inductive Outline where
  | leaf (text : String)
  | list (items : List Outline)
  | tagged (tag : String) (value : Outline)
  | record (name : String) (fields : List (String × Outline))

namespace Outline

def indent (lines : List String) : List String := lines.map ("    " ++ ·)

/-- Ends the last line with a comma. -/
def endWithComma : List String → List String
  | [] => []
  | [line] => [line ++ ","]
  | line :: lines => line :: endWithComma lines

/-- Puts text in front of the first line. -/
def label (text : String) : List String → List String
  | [] => [text]
  | line :: lines => (text ++ line) :: lines

mutual

/-- The lines of a value. Whatever is inside a value is set in by four columns. -/
def lines : Outline → List String
  | .leaf text => [text]
  | .list [] => ["[]"]
  | .list (item :: items) => ["["] ++ indent (itemLines (item :: items)) ++ ["]"]
  | .tagged tag value => [tag ++ "("] ++ indent (endWithComma value.lines) ++ [")"]
  | .record name fields => [name ++ " \x7b"] ++ indent (fieldLines fields) ++ ["\x7d"]

def itemLines : List Outline → List String
  | [] => []
  | item :: items => endWithComma item.lines ++ itemLines items

def fieldLines : List (String × Outline) → List String
  | [] => []
  | (name, value) :: fields => endWithComma (label (name ++ ": ") value.lines) ++ fieldLines fields

end

def text (outline : Outline) : String := "\n".intercalate outline.lines

def ofNat (n : Nat) : Outline := .leaf (toString n)

def ofBool (b : Bool) : Outline := .leaf (toString b)

def ofText (s : String) : Outline := .leaf (visibleQuoted s)

def ofOption {α : Type} (outline : α → Outline) : Option α → Outline
  | none => .leaf "None"
  | some value => .tagged "Some" (outline value)

end Outline

def InputSettings.outline (settings : InputSettings) : Outline :=
  .record "InputSettings" [
    ("json_pointer", .ofOption .ofText settings.pointer),
    ("jq_expr", .ofOption .ofText settings.query),
    ("input", .list (settings.paths.map .ofText))]

def DeriveSettings.outline (settings : DeriveSettings) : Outline :=
  .record "DeriveSettings" [
    ("config", .ofOption .ofText settings.config),
    ("max_depth", .ofOption .ofNat settings.maxDepth),
    ("no_memoize", .ofBool settings.noMemoize)]

/-- How a command was understood. -/
def Command.outline (command : Command) : Outline :=
  let settings := [
    ("input_settings", command.input.outline),
    ("derive_settings", command.derivation.outline)]
  let output := [
    ("out", Outline.ofOption .ofText command.out),
    ("no_op", .ofBool command.noOp)]
  let subcommand := match command.target with
    | .typeScript name =>
      .tagged "Ts" (.record "TsOut" (settings ++ ("type_name", .ofText name) :: output))
    | .json => .tagged "Json" (.record "JsonOut" (settings ++ output))
  .record "CommandLineInterface" [("verbose", .ofNat command.verbosity), ("cmd", subcommand)]

end SchemaTypes
