import RegularWords.Text.Extending
import RegularWords.Text.Unprintable

/-!
Quoted characters and texts, as messages show them.

Between its quotes every character is seen and can be told from its neighbours: the quote itself,
the backslash and the common controls take a backslash, and a character that has no form of its
own or would join the one before it is written by its code point.
-/

namespace RegularWords.Text

/-- The code point in hexadecimal, between braces. -/
def codeEscape (character : Char) : List Char :=
  '\\' :: 'u' :: '\x7b' :: Nat.toDigits 16 character.toNat ++ ['\x7d']

def escaped (quote character : Char) : List Char :=
  if character = '\x00' then
    ['\\', '0']
  else if character = '\t' then
    ['\\', 't']
  else if character = '\r' then
    ['\\', 'r']
  else if character = '\n' then
    ['\\', 'n']
  else if character = '\\' ∨ character = quote then
    ['\\', character]
  else if graphemeExtending.contains character ∨ unprintable.contains character then
    codeEscape character
  else
    [character]

def quoted (quote : Char) (text : List Char) : List Char :=
  quote :: text.flatMap (escaped quote) ++ [quote]

def quotedChar (character : Char) : String :=
  String.ofList (quoted '\x27' [character])

def quotedText (text : String) : String :=
  String.ofList (quoted '\x22' text.toList)

end RegularWords.Text
