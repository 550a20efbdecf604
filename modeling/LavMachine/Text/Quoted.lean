import LavMachine.Text.Invisible
set_option autoImplicit false

namespace LavMachine.Quoted

def char (c : Char) : String :=
  if c == '"' then "\\\""
  else if c == '\\' then "\\\\"
  else if c == '\n' then "\\n"
  else if c == '\r' then "\\r"
  else if c == '\t' then "\\t"
  else if c.toNat == 0 then "\\0"
  else if isInvisible c then "\\u\x7b" ++ String.ofList (Nat.toDigits 16 c.toNat) ++ "\x7d"
  else c.toString

def text (s : String) : String := "\"" ++ String.join (s.toList.map char) ++ "\""

end LavMachine.Quoted
