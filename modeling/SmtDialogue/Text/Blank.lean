/-!
# Blank characters

Blank characters separate tokens and are cut off both ends of a line before it
is compared. The class is wider than the six ASCII blanks: it has the four
information separators U+001C to U+001F, the next-line control U+0085 and every
space of Unicode, but neither the zero-width space U+200B nor the byte order
mark U+FEFF, which are format characters and no spaces.
-/

namespace SmtDialogue.Text

/-- Whether a character is blank: a control that separates, or a Unicode
space. -/
def isBlank (c : Char) : Bool :=
  let n := c.toNat
  (9 ≤ n && n ≤ 13) || (28 ≤ n && n ≤ 32) || n == 0x85 || n == 0xA0 || n == 0x1680 ||
    (0x2000 ≤ n && n ≤ 0x200A) || n == 0x2028 || n == 0x2029 || n == 0x202F ||
    n == 0x205F || n == 0x3000

/-- The characters without the blanks at either end. -/
def trimChars (cs : List Char) : List Char :=
  ((cs.dropWhile isBlank).reverse.dropWhile isBlank).reverse

/-- The text without the blanks at either end. -/
def trim (s : String) : String :=
  String.ofList (trimChars s.toList)

@[simp] theorem toList_trim (s : String) : (trim s).toList = trimChars s.toList := by
  simp [trim]

end SmtDialogue.Text
