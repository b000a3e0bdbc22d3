namespace SchemaTypes

/-- Where schemas are found: the documents, and what is selected in each of them. -/
structure InputSettings where
  pointer : Option String := none
  query : Option String := none
  /-- Paths and patterns for paths; a dash stands for standard input. -/
  paths : List String

/-- Settings of the derivation. What is given here wins over the file of options. -/
structure DeriveSettings where
  config : Option String := none
  maxDepth : Option Nat := none
  noMemoize : Bool := false

/-- What is made of the derived types. -/
inductive Target where
  /-- TypeScript declarations of types of this name. -/
  | typeScript (typeName : String)
  /-- The types as a JSON document. -/
  | json

/-- A command that is well formed. -/
structure Command where
  verbosity : Nat := 0
  target : Target
  input : InputSettings
  derivation : DeriveSettings := {}
  /-- The file to write, if not standard output. -/
  out : Option String := none
  /-- Only show how the command was understood. -/
  noOp : Bool := false

end SchemaTypes
