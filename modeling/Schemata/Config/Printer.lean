import Schemata.Config.Basic
import Schemata.Toml.Printer

/-!
# Configurations as TOML

Plain settings come before tables, and tables before lists of tables.
-/
namespace Schemata

def NamingConfig.toToml (c : NamingConfig) : List Char :=
  Toml.stringLine "generic_separator" c.genericSeparator
    ++ Toml.stringLine "inner_class_separator" c.innerClassSeparator
    ++ Toml.boolLine "empty_separators" c.emptySeparators
    ++ Toml.stringLine "duplicate_resolution" c.duplicates.name

/-- What is not put around names is left out. -/
def PackageDecorator.toToml (d : PackageDecorator) : List Char :=
  Toml.stringLine "package" d.package
    ++ (d.before.map (Toml.stringLine "prefix")).getD []
    ++ (d.after.map (Toml.stringLine "postfix")).getD []

def CustomSchema.toToml (c : CustomSchema) : List Char :=
  Toml.stringLine "type" c.type ++ Toml.stringLine "replacement" c.replacement

def Config.toToml (c : Config) : String :=
  String.ofList
    (Toml.stringLine "field_visibility" c.fieldVisibility.name
      ++ Toml.line "stream_media_types" (Toml.writeStrings c.streamMediaTypes)
      ++ Toml.emptyLine "decorators" c.decorators
      ++ Toml.emptyLine "custom_schemas" c.customSchemas
      ++ Toml.header "naming" c.naming.toToml
      ++ Toml.header "json_view" (Toml.boolLine "default_inclusion" c.defaultInclusion)
      ++ c.decorators.flatMap (fun d => Toml.listHeader "decorators" d.toToml)
      ++ c.customSchemas.flatMap (fun s => Toml.listHeader "custom_schemas" s.toToml))

end Schemata
