/-!
Exception classes and their bases. A class that is not listed is an ordinary exception.
-/
namespace Excerpt.Names

/-- The bases of a class, nearest first. -/
def exceptionBases : String → List String
  | "NameError" | "ImportError" | "AttributeError" | "TypeError" | "SyntaxError"
  | "RuntimeError" => ["Exception","BaseException"]
  | "UnboundLocalError" => ["NameError","Exception","BaseException"]
  | "ModuleNotFoundError" => ["ImportError","Exception","BaseException"]
  | "Exception" => ["BaseException"]
  | "BaseException" => []
  | _ => ["Exception","BaseException"]

/-- The class itself, then its bases. -/
def exceptionAncestry (exception : String) : List String := exception :: exceptionBases exception

end Excerpt.Names
