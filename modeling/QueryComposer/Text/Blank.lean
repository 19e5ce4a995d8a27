/-!
# White space

The characters that Unicode calls white space, and the trimming of a text on both sides.  Controls
such as U+001C, the zero-width space U+200B and the byte order mark U+FEFF are not among them.
-/

namespace QueryComposer.Text

/-- White space: the tab to the carriage return, the space, the next-line control, the no-break
space, and the spaces and separators from U+1680 on. -/
def isBlank (c : Char) : Bool :=
  let n := c.toNat
  (0x09 ≤ n && n ≤ 0x0D) || n == 0x20 || n == 0x85 || n == 0xA0 || n == 0x1680
    || (0x2000 ≤ n && n ≤ 0x200A) || n == 0x2028 || n == 0x2029 || n == 0x202F
    || n == 0x205F || n == 0x3000

/-- The characters without the white space at either end. -/
def trimChars (cs : List Char) : List Char :=
  ((cs.dropWhile isBlank).reverse.dropWhile isBlank).reverse

/-- The text without the white space at either end. -/
def trim (s : String) : String :=
  String.ofList (trimChars s.toList)

end QueryComposer.Text
