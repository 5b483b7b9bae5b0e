/-!
# Blanks and words

A blank is a character with the Unicode property `White_Space`. There are twenty-five of them, far
fewer than would be worth a range table. Words are what lies between blanks.

A line break is a blank, too, but lines are cut first, so that no word goes over two lines. A
carriage return in front of a line break is a blank at the end of the line.
-/

set_option autoImplicit false

namespace Dns.Text

/-- Whether a character has the property `White_Space`. -/
def isBlank (c : Char) : Bool :=
  let n := c.toNat
  (0x09 ≤ n && n ≤ 0x0D) || n == 0x20 || n == 0x85 || n == 0xA0 || n == 0x1680
    || (0x2000 ≤ n && n ≤ 0x200A) || n == 0x2028 || n == 0x2029 || n == 0x202F || n == 0x205F
    || n == 0x3000

/-- The pieces between the characters that pass a test, empty ones included. -/
def splitAt (test : Char → Bool) : List Char → List (List Char)
  | [] => [[]]
  | c :: rest =>
    match splitAt test rest with
    -- There is always a first piece, and this case does not occur.
    | [] => [[c]]
    | piece :: pieces => if test c then [] :: piece :: pieces else (c :: piece) :: pieces

def lines (text : List Char) : List (List Char) := splitAt (· == '\n') text

def words (text : List Char) : List (List Char) :=
  (splitAt isBlank text).filter fun word => !word.isEmpty

end Dns.Text
