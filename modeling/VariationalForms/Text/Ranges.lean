/-! Sets of code points as lists of ranges. -/

set_option autoImplicit false

namespace VariationalForms.Text

/-- First and last code points of ranges, in ascending order and with gaps between them. -/
abbrev Ranges := List (Nat × Nat)

namespace Ranges

def covers (rs : Ranges) (n : Nat) : Bool := rs.any fun r => r.1 ≤ n && n ≤ r.2

def ascending : Ranges → Bool
  | [] => true
  | [r] => r.1 ≤ r.2
  | r :: s :: rs => r.1 ≤ r.2 && r.2 + 1 < s.1 && ascending (s :: rs)

end Ranges

end VariationalForms.Text
