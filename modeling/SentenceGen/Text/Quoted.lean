import SentenceGen.Text.CategoryTable

/-!
# Quoted text

Text between quotes on one line.  The quote is an apostrophe unless the text holds apostrophes and
no double quotes.  The backslash, the quote in use and what is not printable are escaped.
-/

namespace SentenceGen.Text

/-- Lower-case hexadecimal digits, with zeros in front up to the width. -/
def hexadecimal (width n : Nat) : List Char :=
  let digits := Nat.toDigits 16 n
  List.replicate (width - digits.length) '0' ++ digits

def coded (c : Char) : List Char :=
  if c.toNat < 0x100 then ['\\', 'x'] ++ hexadecimal 2 c.toNat
  else if c.toNat < 0x10000 then ['\\', 'u'] ++ hexadecimal 4 c.toNat
  else ['\\', 'U'] ++ hexadecimal 8 c.toNat

def escape (quote c : Char) : List Char :=
  if c = quote ∨ c = '\\' then ['\\', c]
  else if c = '\n' then ['\\', 'n']
  else if c = '\r' then ['\\', 'r']
  else if c = '\t' then ['\\', 't']
  else if isPrintable c.toNat then [c]
  else coded c

def quoteFor (text : List Char) : Char :=
  if text.contains '\'' && !text.contains '"' then '"' else '\''

def quotedChars (text : List Char) : List Char :=
  let quote := quoteFor text
  quote :: text.flatMap (escape quote) ++ [quote]

def quoted (text : String) : String := String.ofList (quotedChars text.toList)

/-- Quoted text in which every character beyond ASCII is spelled by its code point. -/
def asciiQuoted (text : String) : String :=
  String.ofList ((quotedChars text.toList).flatMap fun c => if c.toNat < 0x80 then [c] else coded c)

end SentenceGen.Text
