/-! # Hexadecimal text

Upper-case digits, padded with zeros on the left to a least width. A number too long for the
width keeps all its digits. -/
namespace Chip8.Hexadecimal

def digit (d : Nat) : Char :=
  if d < 10 then Char.ofNat (48 + d) else Char.ofNat (55 + d)

def digits (n : Nat) : List Char :=
  if n < 16 then [digit n] else digits (n / 16) ++ [digit (n % 16)]
termination_by n
decreasing_by omega

def padded (width n : Nat) : String :=
  String.ofList ((digits n).leftpad width '0')

theorem length_padded (width n : Nat) :
    (padded width n).length = max width (digits n).length := by
  simp only [padded, String.length_ofList, List.length_leftpad]

end Chip8.Hexadecimal
