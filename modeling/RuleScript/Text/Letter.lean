import RuleScript.Text.LetterTable
import RuleScript.Text.Case

/-! Letters and digits of any script. -/

set_option autoImplicit false

namespace RuleScript.Text

def isAlphanumeric (c : Char) : Bool :=
  if c.toNat < 128 then c.isAlphanum else inRanges letterRanges c

end RuleScript.Text
