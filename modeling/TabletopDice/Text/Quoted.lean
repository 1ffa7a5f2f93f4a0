import TabletopDice.Text.Printable

/-!
# Quoted texts

How a message quotes a piece of input.  Single quotes enclose it, double ones if it holds single
quotes only.  Inside, the enclosing quote and the backslash are escaped, and so is every character
that does not print.
-/

namespace TabletopDice

/-- The number in base sixteen, at least `width` digits wide. -/
def hexadecimal (width n : Nat) : Text :=
  let digits := Nat.toDigits 16 n
  List.replicate (width - digits.length) '0' ++ digits

/-- The character as it stands between the given quotes. -/
def escaped (quote c : Char) : Text :=
  if c = quote ∨ c = '\\' then ['\\', c]
  else if c = '\n' then ['\\', 'n']
  else if c = '\r' then ['\\', 'r']
  else if c = '\t' then ['\\', 't']
  else if isPrintable c then [c]
  else if c.toNat < 0x100 then '\\' :: 'x' :: hexadecimal 2 c.toNat
  else if c.toNat < 0x10000 then '\\' :: 'u' :: hexadecimal 4 c.toNat
  else '\\' :: 'U' :: hexadecimal 8 c.toNat

def quoted (text : Text) : Text :=
  let quote := if '\'' ∈ text ∧ '"' ∉ text then '"' else '\''
  quote :: text.flatMap (escaped quote) ++ [quote]

end TabletopDice
