/-! The notations in which a file may be written, and how its name tells which one it is. -/
namespace SwapRouting
set_option autoImplicit false

/-- The notation of a file. -/
inductive Notation where
  | json
  | yaml
deriving DecidableEq, Repr

def Notation.name : Notation → String
  | json => "json"
  | yaml => "yaml"

/-- The part of a file name behind its last dot; none without a dot or with nothing before it. -/
def fileExtension? (file : String) : Option (List Char) :=
  let cs := file.toList.reverse
  let ext := cs.takeWhile fun c => c != '.'
  match cs.dropWhile fun c => c != '.' with
  | [] => none
  | [_] => none
  | _ => some ext.reverse

/-- The notation that a file name tells: letters of either case do, and any other name tells that of
plain documents. -/
def Notation.ofFileName (file : String) : Notation :=
  match (fileExtension? file).map fun ext => ext.map Char.toLower with
  | some ['y', 'a', 'm', 'l'] => yaml
  | some ['y', 'm', 'l'] => yaml
  | _ => json

end SwapRouting
