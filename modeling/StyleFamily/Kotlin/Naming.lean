/-!
# Reserved words

A language keeps some words for itself; a member with such a name is written between quotes.
-/
namespace StyleFamily

/-- The words a language reserves, and what stands around one that is used as a name. -/
structure NamingConvention where
  reserved : List String
  opening : String
  closing : String

namespace NamingConvention

def isReserved (convention : NamingConvention) (name : String) : Bool :=
  convention.reserved.contains name

/-- The name, quoted if it is reserved. -/
def safe (convention : NamingConvention) (name : String) : String :=
  if convention.isReserved name then convention.opening ++ name ++ convention.closing else name

end NamingConvention

/-- The hard keywords of Kotlin, quoted by backticks. -/
def Kotlin.naming : NamingConvention where
  reserved := ["as", "break", "class", "continue", "do", "else", "false", "for", "fun", "if", "in",
    "interface", "is", "null", "object", "package", "return", "super", "this", "throw", "true",
    "try", "typealias", "typeof", "val", "var", "when", "while"]
  opening := "`"
  closing := "`"

end StyleFamily
