/-!
# Faults of data

## Where data does not have the expected form, and why

A fault names the place in the data and what is wrong there.  All faults of a piece
of data are reported, in the order of the form that was expected.
-/

namespace Joinery

inductive Step where
  | key (text : String)
  | index (position : Int)
deriving DecidableEq, Repr

/-- What is wrong with a piece of data. -/
inductive FaultKind where
  | missing
  | stringType
  | stringEncoding
  | intType
  | intParsing
  | intSize
  | intFraction
  | finiteNumber
  | floatType
  | floatParsing
  | boolType
  | boolParsing
  | listType
  | mappingType
  | modelType (model : String)
  | enumeration (words : List String)
  | literal (words : List String)
  | atLeast (bound : Int)
  | atMost (bound : Int)
  /-- a rule of the model that its parts obey but the whole breaks -/
  | rule (text : String)
deriving DecidableEq, Repr

structure Fault where
  location : List Step
  kind : FaultKind
deriving DecidableEq, Repr

namespace FaultKind

def alternatives : List String -> String
  | [] => ""
  | [word] => "'" ++ word ++ "'"
  | [word, last] => "'" ++ word ++ "' or '" ++ last ++ "'"
  | word :: next :: rest => "'" ++ word ++ "', " ++ alternatives (next :: rest)

def code : FaultKind -> String
  | .missing => "missing"
  | .stringType => "string_type"
  | .stringEncoding => "string_unicode"
  | .intType => "int_type"
  | .intParsing => "int_parsing"
  | .intSize => "int_parsing_size"
  | .intFraction => "int_from_float"
  | .finiteNumber => "finite_number"
  | .floatType => "float_type"
  | .floatParsing => "float_parsing"
  | .boolType => "bool_type"
  | .boolParsing => "bool_parsing"
  | .listType => "list_type"
  | .mappingType => "dict_type"
  | .modelType _ => "model_type"
  | .enumeration _ => "enum"
  | .literal _ => "literal_error"
  | .atLeast _ => "greater_than_equal"
  | .atMost _ => "less_than_equal"
  | .rule _ => "value_error"

def message : FaultKind -> String
  | .missing => "Field required"
  | .stringType => "Input should be a valid string"
  | .stringEncoding =>
      "Input should be a valid string, unable to parse raw data as a unicode string"
  | .intType => "Input should be a valid integer"
  | .intParsing => "Input should be a valid integer, unable to parse string as an integer"
  | .intSize => "Unable to parse input string as an integer, exceeded maximum size"
  | .intFraction => "Input should be a valid integer, got a number with a fractional part"
  | .finiteNumber => "Input should be a finite number"
  | .floatType => "Input should be a valid number"
  | .floatParsing => "Input should be a valid number, unable to parse string as a number"
  | .boolType => "Input should be a valid boolean"
  | .boolParsing => "Input should be a valid boolean, unable to interpret input"
  | .listType => "Input should be a valid list"
  | .mappingType => "Input should be a valid dictionary"
  | .modelType model => "Input should be a valid dictionary or instance of " ++ model
  | .enumeration words => "Input should be " ++ alternatives words
  | .literal words => "Input should be " ++ alternatives words
  | .atLeast bound => "Input should be greater than or equal to " ++ toString bound
  | .atMost bound => "Input should be less than or equal to " ++ toString bound
  | .rule text => "Value error, " ++ text

end FaultKind
end Joinery
