import VideoRegistry.Config.Basic
import VideoRegistry.Path
import VideoRegistry.Toml.Number
import VideoRegistry.Toml.Reader

/-!
# Configurations in settings files

A settings file may set any of the fields of a configuration; what it leaves out
keeps its default, and what no configuration knows is passed over.  A value of
the wrong kind spoils the file, and so does a number out of range wherever it is
looked at.  A group of fields is a table, or an array that lists their values in
order; only what an array lists beyond them is never looked at.
-/

namespace VideoRegistry

open Toml (Value Table)

/-- The fields of a table, in which those of unknown names must be sound. -/
def knownFields? (names : List String) (entries : Table) : Option Table :=
  if entries.all fun (name, value) => names.contains name || value.isSound then
    some entries
  else none

/-- The fields of a group by name.  An array gives them by their place, and a
date is a group without any known field. -/
def fieldsOf? (names : List String) (value : Value) : Option Table :=
  match value with
  | .table _ entries => knownFields? names entries
  | .array items => some (names.zip items)
  | .tables items => some (names.zip (items.map (Value.table .header)))
  | .date _ => some []
  | _ => none

def textOf? : Value → Option String
  | .text content => some content
  | _ => none

def textsOf? : Value → Option (List String)
  | .array items => items.mapM textOf?
  | _ => none

/-- Reads a field, or takes its default if it is missing. -/
def fieldOr {α : Type} (fallback : α) (read : Value → Option α) (fields : Table)
    (name : String) : Option α :=
  (fields.get? name).elim (some fallback) read

def OutputConfig.ofValue? (value : Value) : Option OutputConfig := do
  let fields ← fieldsOf? ["file", "guard"] value
  let default : OutputConfig := {}
  return { file := ← fieldOr default.file textOf? fields "file"
           guard := ← fieldOr default.guard textOf? fields "guard" }

def NameConfig.ofValue? (value : Value) : Option NameConfig := do
  let fields ← fieldsOf?
    ["type_prefix", "namespace", "video_namespace", "video_namespace_default"] value
  let default : NameConfig := {}
  return { typeLead := ← fieldOr default.typeLead textOf? fields "type_prefix"
           outerNamespace :=
             ← fieldOr default.outerNamespace textOf? fields "namespace"
           videoNamespace :=
             ← fieldOr default.videoNamespace textOf? fields "video_namespace"
           videoNamespaceDefault := ← fieldOr default.videoNamespaceDefault
             textOf? fields "video_namespace_default" }

def DialectConfig.ofValue? (value : Value) : Option DialectConfig := do
  let fields ← fieldsOf? ["supported", "header_dir", "header_stem"] value
  let default : DialectConfig := {}
  return { supported := ← fieldOr default.supported textOf? fields "supported"
           headerDir := ← fieldOr default.headerDir textOf? fields "header_dir"
           headerStem := ← fieldOr default.headerStem textOf? fields "header_stem" }

/-- A formatter must have a program. -/
def FormatterConfig.ofValue? (value : Value) : Option FormatterConfig := do
  let fields ← fieldsOf? ["program", "args"] value
  return { program := ← (fields.get? "program").bind textOf?
           args := ← fieldOr [] textsOf? fields "args" }

def Config.ofTable? (entries : Table) : Option Config := do
  let fields ← knownFields?
    ["input", "output", "naming", "registry", "includes", "format"] entries
  let default : Config := {}
  return { input := ← fieldOr default.input textOf? fields "input"
           output := ← fieldOr default.output OutputConfig.ofValue? fields "output"
           names := ← fieldOr default.names NameConfig.ofValue? fields "naming"
           dialect :=
             ← fieldOr default.dialect DialectConfig.ofValue? fields "registry"
           includes := ← fieldOr default.includes textsOf? fields "includes"
           formatter := ← fieldOr none
             (fun value => (FormatterConfig.ofValue? value).map some) fields
             "format" }

/-- Takes the paths of a configuration from a base. -/
def Config.under (base : String) (config : Config) : Config :=
  { config with
    input := Path.join base config.input
    output.file := Path.join base config.output.file }

/-- The configuration of a settings file: its paths are taken from the directory
that the file is in. -/
def Config.parse? (path source : String) : Option Config :=
  ((Toml.parse? source).bind Config.ofTable?).map
    (Config.under ((Path.parent? path).getD "."))

end VideoRegistry
