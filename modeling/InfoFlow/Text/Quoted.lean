import InfoFlow.Text.Printable

/-! Quoted text inside messages.

Text stands between single quotes, or between double quotes if it has a single
quote and no double one. A backslash and the quote in use are escaped, tab,
line feed and carriage return have short escapes, and any other character that
is not printable is written by its code: two digits if they suffice, else
four, else eight. -/

namespace InfoFlow.Text

def hexadecimal (width number : Nat) : String :=
  let digits := Nat.toDigits 16 number
  String.ofList (List.replicate (width - digits.length) '0' ++ digits)

def codeEscape (character : Char) : String :=
  if character.toNat ≤ 0xff then "\\x" ++ hexadecimal 2 character.toNat
  else if character.toNat ≤ 0xffff then "\\u" ++ hexadecimal 4 character.toNat
  else "\\U" ++ hexadecimal 8 character.toNat

def escape (quote character : Char) : String :=
  if character = quote || character = '\\' then String.ofList ['\\', character]
  else if character = '\t' then "\\t"
  else if character = '\n' then "\\n"
  else if character = '\r' then "\\r"
  else if isPrintable character then String.singleton character
  else codeEscape character

def quoteFor (text : List Char) : Char :=
  if '\'' ∈ text ∧ ¬ '"' ∈ text then '"' else '\''

def quoted (text : String) : String :=
  let quote := quoteFor text.toList
  String.singleton quote ++ String.join (text.toList.map (escape quote)) ++
    String.singleton quote

def toAscii (text : String) : String :=
  String.join (text.toList.map fun character =>
    if character.toNat < 0x80 then String.singleton character else codeEscape character)

example : quoted "flow" = "'flow'" := by decide +kernel

example : quoted "it's" = "\"it's\"" := by decide +kernel

example : quoted "a\\\n\u200b" = "'a\\\\\\n\\u200b'" := by decide +kernel

example : toAscii "né" = "n\\xe9" := by decide +kernel

end InfoFlow.Text
