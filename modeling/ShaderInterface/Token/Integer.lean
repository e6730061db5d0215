/-!
# Integer literals

An integer literal is a run of decimal digits, or of hexadecimal digits behind `0x` or `0X`. One
plus sign may stand before the digits and any number of `u` and `U` behind them. Its value is below
`2 ^ 32`; a literal with a greater value is none.
-/
namespace ShaderInterface.Integer

/-- The value of a digit of either case, up to `f`. -/
def digit? (c : Char) : Option Nat :=
  if '0' ≤ c ∧ c ≤ '9' then some (c.toNat - '0'.toNat)
  else if 'a' ≤ c ∧ c ≤ 'f' then some (c.toNat - 'a'.toNat + 10)
  else if 'A' ≤ c ∧ c ≤ 'F' then some (c.toNat - 'A'.toNat + 10)
  else none

/-- The value of digits below `radix` behind digits of value `acc`. -/
def digitsFrom? (radix acc : Nat) : List Char → Option Nat
  | [] => some acc
  | c :: cs =>
    match digit? c with
    | some d => if d < radix then digitsFrom? radix (acc * radix + d) cs else none
    | none => none

/-- The greatest value plus one. -/
def limit : Nat := UInt32.size

/-- The value of at least one digit, if it is below the limit. -/
def digits? (radix : Nat) : List Char → Option Nat
  | [] => none
  | c :: cs => (digitsFrom? radix 0 (c :: cs)).filter (· < limit)

/-- The value of digits that may have a plus sign before them. -/
def signed? (radix : Nat) : List Char → Option Nat
  | '+' :: cs => digits? radix cs
  | cs => digits? radix cs

/-- The text without the `u` and `U` at its end. -/
def dropSuffix (cs : List Char) : List Char :=
  (cs.reverse.dropWhile fun c => c == 'u' || c == 'U').reverse

/-- The value of the characters of a literal. -/
def ofChars? (cs : List Char) : Option Nat :=
  match dropSuffix cs with
  | '0' :: 'x' :: ds => signed? 16 ds
  | '0' :: 'X' :: ds => signed? 16 ds
  | ds => signed? 10 ds

/-- The value of an integer literal. -/
def ofText? (s : String) : Option Nat := ofChars? s.toList

end ShaderInterface.Integer
