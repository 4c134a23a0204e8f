import DeepLink.Config.Validation
import DeepLink.Toml.Document

/-!
# Reading configurations

A configuration is read from the values of a TOML document. Each part is a table with the
options as keys; an array gives the options by position instead, and a date or time none.
Options that are not there have their defaults, keys that are no options are ignored, and a
value of another kind makes the document no configuration. Only the name of a route has no
default.

`RouterConfig.load` reads the bytes of a file: UTF-8 text that is a document that is a
valid configuration.
-/
namespace DeepLink

namespace Toml.Value

/-- The values of the options of a part of the configuration. -/
def options? (keys : List Text) : Value → Option Entries
  | .table _ entries => some entries
  | .array items => some (keys.zip items)
  | .tables elements => some (keys.zip (elements.map (.table .header)))
  | .dateTime _ => some []
  | _ => none

/-- The items of an array, or the elements of an array of tables. -/
def items? : Value → Option (List Value)
  | .array items => some items
  | .tables elements => some (elements.map (.table .header))
  | _ => none

def text? : Value → Option Text
  | .string text => some text
  | _ => none

def boolean? : Value → Option Bool
  | .boolean value => some value
  | _ => none

end Toml.Value

/-- The value of an option, or its default if it is not there. -/
def Toml.option? {α : Type} (entries : Toml.Entries) (key : String)
    (read? : Toml.Value → Option α) (absent : α) : Option α :=
  match entries.lookup key.toList with
  | some value => read? value
  | none => some absent

open Toml (option?)

def MapperOptions.ofToml? (value : Toml.Value) : Option MapperOptions := do
  let entries ← value.options? ["default_scheme".toList, "default_host".toList,
    "scheme_in_template".toList, "host_in_template".toList]
  return {
    defaultScheme := ← option? entries "default_scheme" (·.text?.map some) none
    defaultHost := ← option? entries "default_host" (·.text?.map some) none
    schemeInTemplate := ← option? entries "scheme_in_template" (·.boolean?) false
    hostInTemplate := ← option? entries "host_in_template" (·.boolean?) false }

def LoggingOptions.ofToml? (value : Toml.Value) : Option LoggingOptions := do
  let entries ← value.options? ["level".toList, "json".toList]
  let absent : LoggingOptions := {}
  return {
    level := ← option? entries "level" (·.text?) absent.level
    json := ← option? entries "json" (·.boolean?) absent.json }

def RouteEntry.ofToml? (value : Toml.Value) : Option RouteEntry := do
  let entries ← value.options? ["name".toList, "pattern".toList]
  return {
    name := ← (← entries.lookup "name".toList).text?
    pattern := ← option? entries "pattern" (·.text?) [] }

namespace RouterConfig

/-- Read a configuration from the entries of a document. -/
def ofToml? (entries : Toml.Entries) : Option RouterConfig := do
  return {
    mapper := ← option? entries "mapper" MapperOptions.ofToml? {}
    logging := ← option? entries "logging" LoggingOptions.ofToml? {}
    routes := ← option? entries "routes" routes? [] }
where
  routes? (value : Toml.Value) : Option (List RouteEntry) := do
    (← value.items?).mapM RouteEntry.ofToml?

end RouterConfig

/-- Why the content of a file is not known. -/
inductive ReadFailure where
  | notFound
  | notUtf8
  | refused (reason : Text)
  deriving DecidableEq, Repr

/-- Why there is no configuration. -/
inductive ConfigError where
  | unreadable (cause : ReadFailure)
  | malformed
  | invalid (problems : List ValidationError)
  deriving DecidableEq, Repr

def ReadFailure.message : ReadFailure → Text
  | .notFound => "No such file or directory (os error 2)".toList
  | .notUtf8 => "stream did not contain valid UTF-8".toList
  | .refused reason => reason

def ConfigError.message : ConfigError → Text
  | .unreadable cause => "IO error: ".toList ++ cause.message
  | .malformed => "Parse error: the document is not a configuration".toList
  | .invalid problems =>
    "Validation failed: ".toList ++ ", ".toList.intercalate (problems.map (·.message))

namespace RouterConfig

/-- Read a valid configuration from the text of a document. -/
def parse (text : Text) : Except ConfigError RouterConfig :=
  match (Toml.parse? text).bind ofToml? with
  | some config => config.validate.mapError .invalid
  | none => .error .malformed

/-- Read a valid configuration from the bytes of a file. -/
def load (content : Except ReadFailure (List UInt8)) : Except ConfigError RouterConfig := do
  let bytes ← content.mapError .unreadable
  match Text.ofUtf8? bytes with
  | some text => parse text
  | none => .error (.unreadable .notUtf8)

end RouterConfig
end DeepLink
