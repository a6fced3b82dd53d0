/-!
# TOML values

The values of a TOML document. Of numbers and dates, which nothing here computes with, only the
kind and the spelling are kept.
-/
namespace StyleFamily

inductive Toml
  | string (text : String)
  | boolean (value : Bool)
  | integer (spelling : String)
  | float (spelling : String)
  | datetime (spelling : String)
  | array (items : List Toml)
  | table (entries : List (String × Toml))

end StyleFamily
