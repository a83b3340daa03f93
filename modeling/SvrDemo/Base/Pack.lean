import SvrDemo.Base.BigNumber

/-!
# Strings with their length

`string.pack (">s2", text)`: the length of a string in two bytes, the higher one first, and the string.
-/

set_option autoImplicit false
set_option relaxedAutoImplicit false

namespace SvrDemo.Base

/-- `string.pack (">s2", text)`, which raises when the length does not fit. -/
def packS2 (text : Bytes) : Option Bytes :=
  if text.length < 2 ^ 16 then
    some (UInt8.ofNat (text.length / 256) :: UInt8.ofNat (text.length % 256) :: text)
  else none

end SvrDemo.Base
