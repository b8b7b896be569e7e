import FileSpec.Text.Decimal
import FileSpec.Text.Printable

/-!
Texts between quotation marks, with everything escaped that could not be shown.
-/

set_option autoImplicit false

namespace FileSpec.Text

def apostrophe : Char := '\x27'

def doubleQuote : Char := '\x22'

def quotationMark (text : List Char) : Char :=
  if text.contains apostrophe && !text.contains doubleQuote then doubleQuote else apostrophe

def escapeBetween (mark character : Char) : List Char :=
  if character == mark || character == '\\' then ['\\', character]
  else if character == '\n' then ['\\', 'n']
  else if character == '\r' then ['\\', 'r']
  else if character == '\t' then ['\\', 't']
  else if isPrintable character then [character]
  else if character.toNat < 0x100 then '\\' :: 'x' :: hexadecimal 2 character.toNat
  else if character.toNat < 0x10000 then '\\' :: 'u' :: hexadecimal 4 character.toNat
  else '\\' :: 'U' :: hexadecimal 8 character.toNat

def quoted (text : List Char) : List Char :=
  let mark := quotationMark text
  mark :: text.flatMap (escapeBetween mark) ++ [mark]

end FileSpec.Text
