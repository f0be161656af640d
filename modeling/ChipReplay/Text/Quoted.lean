import ChipReplay.Text.Hex
import ChipReplay.Text.Invisible
/-!
# Quoted text

Text in an error is put between quotes. Quotes, backslashes and characters without a visible
form of their own are escaped, by name or by number.
-/

namespace ChipReplay.Text

/-- `c` as it stands between quotes. -/
def escape (c : Char) : String :=
  if c = '\t' then "\\t"
  else if c = '\r' then "\\r"
  else if c = '\n' then "\\n"
  else if c = '\x00' then "\\0"
  else if c = '"' then "\\\""
  else if c = '\\' then "\\\\"
  else if isInvisible c then "\\u\x7b" ++ Hex.lower c.toNat ++ "\x7d"
  else String.singleton c

/-- `text` between quotes. -/
def quoted (text : String) : String := "\"" ++ String.join (text.toList.map escape) ++ "\""

end ChipReplay.Text
