/-!
# Lower case

Words of the program are plain ASCII and are matched without regard to case.  Only the capital
letters and the Kelvin sign have an ASCII lower case, so every other character may be left as it is:
a text that holds one matches no word either way.
-/

namespace Pagescript.Text

def lowerChar (c : Char) : Char :=
  if 'A' ≤ c && c ≤ 'Z' then Char.ofNat (c.toNat + 32)
  else if c.toNat = 0x212a then 'k'
  else c

def lower (s : String) : String :=
  String.ofList (s.toList.map lowerChar)

end Pagescript.Text
