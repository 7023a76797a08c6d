import VariationalForms.Decimal.Layout
import VariationalForms.Expr.Printer

/-! Floats as the numbers of an integrand: they are written without an exponent. -/

set_option autoImplicit false

namespace VariationalForms

instance : NumberText Float where
  text x := Decimal.Layout.plain.text (.ofFloat x)

end VariationalForms
