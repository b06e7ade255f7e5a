/- How deep reading and writing go.

   A JSON text is read, and a literal is written, by following its containers inward. How far they are
   followed is up to the machine. -/

set_option autoImplicit false
set_option relaxedAutoImplicit false

namespace TableQuery

class DepthLimits where
  readable : Nat
  writable : Nat
  two_le_readable : 2 ≤ readable
  writable_pos : 0 < writable

/-- The limits of a usual machine. -/
instance usualDepth : DepthLimits where
  readable := 9995
  writable := 990
  two_le_readable := by decide
  writable_pos := by decide

end TableQuery
