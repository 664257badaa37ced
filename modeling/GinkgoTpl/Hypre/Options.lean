import Mathlib.Data.Int.Notation
import GinkgoTpl.Error

/-!
# The names of BoomerAMG's options

`hypre/detail/options.hpp`: the names accepted for the algorithm choices with hypre's integer for
each, in the order of the maps, which sort them by their characters.
-/

namespace GinkgoTpl.Hypre

def coarsenTypes : List (String × ℤ) :=
  [("CLJP", 0), ("Falgout", 6), ("HMIS", 10), ("PMIS", 8), ("Ruge-Stueben", 3)]

def interpTypes : List (String × ℤ) :=
  [("classical", 0), ("direct", 3), ("ext", 14), ("ext+i", 6), ("ext+i-cc", 7), ("multipass", 4),
    ("standard", 8)]

def relaxTypes : List (String × ℤ) :=
  [("Chebyshev", 16), ("Gaussian-elimination", 9), ("Jacobi", 0), ("hybrid-GS-backward", 4),
    ("hybrid-GS-forward", 3), ("hybrid-symm-GS", 6), ("l1-GS-backward", 14), ("l1-GS-forward", 13),
    ("l1-Jacobi", 18), ("l1-symm-GS", 8)]

def lookup (types : List (String × ℤ)) (name what : String) : Except Error ℤ :=
  match types.lookup name with
  | some type => .ok type
  | none =>
    let accepted := ", ".intercalate (types.map (·.1))
    .error (.invalidState ("unknown " ++ what ++ " '" ++ name ++ "'; accepted: " ++ accepted))

def coarsenTypeId (name : String) : Except Error ℤ := lookup coarsenTypes name "coarsening type"
def interpTypeId (name : String) : Except Error ℤ := lookup interpTypes name "interpolation type"
def relaxTypeId (name : String) : Except Error ℤ := lookup relaxTypes name "relaxation type"

/-- Whether a relaxation type has a device implementation. -/
def relaxTypeRunsOnDevice (relaxType : ℤ) : Bool := relaxType ≠ 0

end GinkgoTpl.Hypre
