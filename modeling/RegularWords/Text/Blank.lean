import RegularWords.Text.CodeSet

/-!
White space at the ends of a text: the Unicode property White_Space.
-/

namespace RegularWords.Text

def whiteSpace : CodeSet :=
  ⟨[0x9, 0xe, 0x20, 0x21, 0x85, 0x86, 0xa0, 0xa1, 0x1680, 0x1681, 0x2000, 0x200b, 0x2028, 0x202a,
    0x202f, 0x2030, 0x205f, 0x2060, 0x3000, 0x3001]⟩

def dropEnd (drop : Char → Bool) (text : List Char) : List Char :=
  (text.reverse.dropWhile drop).reverse

def trimmed (text : List Char) : List Char :=
  dropEnd whiteSpace.contains (text.dropWhile whiteSpace.contains)

end RegularWords.Text
