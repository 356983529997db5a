/-!
# Control characters

The characters of the general category `Cc`: the first 32, and those from delete up to the end of
the second block of controls.
-/
namespace LineEdit.Text

def isControl (c : Char) : Bool := c.toNat < 0x20 || (0x7f ≤ c.toNat && c.toNat < 0xa0)

end LineEdit.Text
