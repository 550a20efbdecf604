set_option autoImplicit false

namespace LavMachine

/-- The names on the way from the root. The host also knows places outside: those whose way starts
by climbing over the root with `..`, and those whose way starts at `/`, where all climbing ends. -/
abbrev Path := List String

namespace Path

def isAtOrOver (p : Path) : Bool := p.all (· == "..") || p == ["/"]

def parent (p : Path) : Path :=
  if p == ["/"] then p else if p.isAtOrOver then ".." :: p else p.dropLast

def isOutside (p : Path) : Bool := (p.head?.map fun part => part == ".." || part == "/").getD false

def isSeparator (c : Char) : Bool := c == '/' || c == '\\'

/-- The parts of a text between separators, empty ones included; `part` is the one being read,
newest character first. -/
def splitFrom (separates : Char → Bool) : List Char → (part : List Char) → List String
  | [], part => [String.ofList part.reverse]
  | c :: rest, part =>
    if separates c then String.ofList part.reverse :: splitFrom separates rest []
    else splitFrom separates rest (c :: part)

def split (separates : Char → Bool) (text : String) : List String :=
  splitFrom separates text.toList []

def enter? (p : Path) (part : String) : Option Path :=
  if part == "" || part == "." then some p
  else if part == ".." then (if p.isEmpty then none else some p.dropLast)
  else some (p ++ [part])

/-- The place a text names, seen from `cwd` or, when it starts with a separator, from the root. -/
def resolve? (cwd : Path) (text : String) : Option Path :=
  let start := if (text.toList.head?.map isSeparator).getD false then [] else cwd
  (split isSeparator text).foldlM enter? start

def text (p : Path) : String := String.intercalate "/" p

end Path
end LavMachine
