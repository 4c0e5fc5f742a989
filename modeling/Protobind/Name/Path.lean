import Protobind.Text.Lines

/-!
# Paths of generated modules

The module of a file stands beside it, with a suffix in place of the extension of the file.
-/

namespace Protobind.Name

def schemaExtension : List Char := ".proto".toList

def dropSchemaExtension (file : List Char) : List Char :=
  if schemaExtension.isSuffixOf file then file.take (file.length - schemaExtension.length) else file

def outputStem (file : String) : List Char := dropSchemaExtension file.toList ++ "_pb".toList

def outputFile (file : String) : String := String.ofList (outputStem file ++ ".py".toList)

def modulePath (file : String) : String :=
  String.ofList ((outputStem file).map fun c => if c = '/' then '.' else c)

end Protobind.Name
