/-!
# Time spans as text

A span is written in the largest of `s`, `ms`, `µs` and `ns` of which it holds at least one
(zero is `0ns`), with the exact fraction behind a point and no trailing zeros.
-/

namespace HttpEngine.Text

/-- The digits of `fraction`, out of `10 ^ places`, without trailing zeros. -/
def fractionDigits : Nat → Nat → List Char
  | 0, _ => []
  | places + 1, fraction =>
    if fraction = 0 then []
    else
      let unit := 10 ^ places
      Nat.digitChar (fraction / unit % 10) :: fractionDigits places (fraction % unit)

/-- `whole` units and a fraction with the given number of decimal places. -/
def withFraction (whole fraction places : Nat) : String :=
  let digits := fractionDigits places fraction
  toString whole ++ (if digits.isEmpty then "" else "." ++ String.ofList digits)

/-- A span of nanoseconds **in its largest unit**. -/
def spanOfNanos (n : Nat) : String :=
  if 1000000000 ≤ n then withFraction (n / 1000000000) (n % 1000000000) 9 ++ "s"
  else if 1000000 ≤ n then withFraction (n / 1000000) (n % 1000000) 6 ++ "ms"
  else if 1000 ≤ n then withFraction (n / 1000) (n % 1000) 3 ++ "µs"
  else toString n ++ "ns"

example : spanOfNanos 1500000000 = "1.5s" ∧ spanOfNanos 0 = "0ns"
    ∧ spanOfNanos 1000001 = "1.000001ms" := by cbv

end HttpEngine.Text
