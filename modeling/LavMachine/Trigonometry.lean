import LavMachine.Word
set_option autoImplicit false

namespace LavMachine.Trigonometry

def quarter : Array Nat := #[
  0, 18, 36, 54, 71, 89, 107, 125, 143, 160, 178, 195, 213,
  230, 248, 265, 282, 299, 316, 333, 350, 367, 384, 400, 416, 433,
  449, 465, 481, 496, 512, 527, 543, 558, 573, 587, 602, 616, 630,
  644, 658, 672, 685, 698, 711, 724, 737, 749, 761, 773, 784, 796,
  807, 818, 828, 839, 849, 859, 868, 878, 887, 896, 904, 912, 920,
  928, 935, 943, 949, 956, 962, 968, 974, 979, 984, 989, 994, 998,
  1002, 1005, 1008, 1011, 1014, 1016, 1018, 1020, 1022, 1023, 1023, 1024, 1024]

/-- The first quarter turn is in the table; the others follow by symmetry. -/
def sineOfTurn (degrees : Nat) : Int :=
  let d := degrees % 180
  let value : Int := quarter.getD (if d ≤ 90 then d else 180 - d) 0
  if degrees < 180 then value else -value

def sine (degrees : Int16) : Word := Int32.ofInt (sineOfTurn (degrees.toInt % 360).toNat)

def cosine (degrees : Int16) : Word := Int32.ofInt (sineOfTurn ((degrees.toInt + 90) % 360).toNat)

end LavMachine.Trigonometry
