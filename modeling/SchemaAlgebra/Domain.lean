import SchemaAlgebra.Json.Basic

/-!
# Domains and bases

A domain is the coarse kind of a value; no JSON value is a bigint. A basis narrows a
domain to arrays or to texts that hold a timestamp.
-/
namespace SchemaAlgebra

inductive Domain where
  | bigint
  | boolean
  | null
  | number
  | object
  | string
  deriving DecidableEq

namespace Domain

def name : Domain → String
  | bigint => "bigint"
  | boolean => "boolean"
  | null => "null"
  | number => "number"
  | object => "object"
  | string => "string"

/-- The domain a keyword names; `null` is a keyword of its own. -/
def ofKeyword? (word : String) : Option Domain :=
  [bigint, boolean, number, object, string].find? (·.name = word)

def ofName? (word : String) : Option Domain :=
  if word = null.name then some null else ofKeyword? word

def of : Json → Domain
  | .null => null
  | .bool _ => boolean
  | .number _ => number
  | .string _ => string
  | .array _ => object
  | .object _ => object

def describe : Domain → String
  | bigint => "a bigint"
  | boolean => "boolean"
  | null => "null"
  | number => "a number"
  | object => "an object"
  | string => "a string"

end Domain

end SchemaAlgebra
