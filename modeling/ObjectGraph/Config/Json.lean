import ObjectGraph.Config.Basic
import ObjectGraph.Config.JsonValue

/-!
# Configurations as JSON

A configuration is written as an object of its sections. It is read back field by
field: what is not there keeps its default, unknown names are skipped, and a
section or field given twice is an error. A section may also be given as the list
of its fields in order.

The text of a JSON value is left to a library, `JsonLibrary`, so that a configuration is
written and read with any.
-/

namespace ObjectGraph

/-- A library that writes and reads JSON. -/
structure JsonLibrary where
  /-- The compact text of a value. -/
  render : JsonValue → String
  /-- The value of a text, none if it is not well formed. -/
  parse? : String → Option JsonValue

namespace Config

/-- The JSON value of a configuration. -/
def toJson (c : Config) : JsonValue :=
  .object [
    (some "logging", .object [
      (some "level", .text c.level), (some "format", .text c.format.name)]),
    (some "store", .object [
      (some "initial_capacity", .number (toString c.initialCapacity.toNat))]),
    (some "group_by", .object [(some "default_sort", .bool c.defaultSort)])]

/-- The values of the given names, none of which may be there twice, or of the first
places of a list. -/
def jsonFields? (names : List String) : JsonValue → Option (List (Option JsonValue))
  | .object members =>
    if (members.all fun m => m.1.isSome) &&
        names.all fun name => (members.filter fun m => m.1 == some name).length ≤ 1 then
      some (names.map fun name => members.lookup (some name))
    else none
  | .array items =>
    if items.length ≤ names.length then
      some ((List.range names.length).map fun i => items[i]?)
    else none
  | _ => none

/-- The fields of a section, all absent if it is not there. -/
def jsonSection? (names : List String) : Option JsonValue → Option (List (Option JsonValue))
  | none => some (names.map fun _ => none)
  | some v => jsonFields? names v

/-- The value of a field, the default if it is not there. -/
def jsonField? {α : Type} (default : α) (read : JsonValue → Option α) :
    Option JsonValue → Option α
  | none => some default
  | some v => read v

def jsonLevel? : JsonValue → Option String
  | .text s => s
  | _ => none

/-- The name of a format, alone or as the only name of an object. -/
def jsonFormat? : JsonValue → Option LogFormat
  | .text s => s.bind LogFormat.ofName?
  | .object [(name, .null)] => name.bind LogFormat.ofName?
  | _ => none

/-- A whole number of 64 bits without a sign. -/
def jsonCapacity? : JsonValue → Option UInt64
  | .number literal =>
    let cs := literal.toList
    if cs.all Char.isDigit then
      let n := cs.foldl (fun n c => n * 10 + (c.toNat - '0'.toNat)) 0
      if n < UInt64.size then some (.ofNat n) else none
    else none
  | _ => none

def jsonFlag? : JsonValue → Option Bool
  | .bool b => some b
  | _ => none

/-- The configuration of a JSON value. -/
def ofJson? (v : JsonValue) : Option Config := do
  let default : Config := {}
  let [logging, store, groupBy] ← jsonFields? ["logging", "store", "group_by"] v | none
  let [level, format] ← jsonSection? ["level", "format"] logging | none
  let [initialCapacity] ← jsonSection? ["initial_capacity"] store | none
  let [defaultSort] ← jsonSection? ["default_sort"] groupBy | none
  return {
    level := ← jsonField? default.level jsonLevel? level
    format := ← jsonField? default.format jsonFormat? format
    initialCapacity := ← jsonField? default.initialCapacity jsonCapacity? initialCapacity
    defaultSort := ← jsonField? default.defaultSort jsonFlag? defaultSort }

end Config

namespace JsonLibrary

variable (J : JsonLibrary)

/-- The JSON text of a configuration. -/
def text (c : Config) : String :=
  J.render c.toJson

/-- Reads a configuration from its JSON text. -/
def config? (s : String) : Option Config :=
  (J.parse? s).bind Config.ofJson?

/-- The library of the engine. -/
def standard : JsonLibrary where
  render := JsonValue.render
  parse? := JsonValue.parse?

end JsonLibrary

namespace Config

/-- The compact JSON text of a configuration. -/
def jsonText : Config → String :=
  JsonLibrary.standard.text

/-- Reads a configuration from its JSON text. -/
def ofJsonText? : String → Option Config :=
  JsonLibrary.standard.config?

end Config

end ObjectGraph
