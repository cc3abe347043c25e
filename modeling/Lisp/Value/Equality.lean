import Lisp.Value

/-!
# Equality of values

Two relations. Values are identical if they are the same object, where numbers and symbols count
as the same object when they are the same number or name. They are equal if they are identical or
are pairs with equal parts.
-/

namespace Lisp.Value

/-- The same object. -/
def identical : Value → Value → Bool
  | number m, number n => m == n
  | symbol s, symbol t => s == t
  | pair i _ _, pair j _ _ => i == j
  | closure i _ _ _, closure j _ _ _ => i == j
  | _, _ => false

/-- The same shape over identical atoms and functions. Pairs that are one object need no look
inside. -/
def equal : Value → Value → Bool
  | pair i a d, pair j b e => i == j || (equal a b && equal d e)
  | v, w => identical v w

end Lisp.Value
