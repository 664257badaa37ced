import Mathlib.Data.Int.Notation
import GinkgoTpl.Double
import GinkgoTpl.Error

/-!
# Property trees

Ginkgo's `config::pnode`: a node of a configuration holds nothing, a value of one kind, or further
nodes. A getter returns the value of a node of its kind and throws for any other node.
-/

namespace GinkgoTpl.Ginkgo

inductive Pnode where
  | empty
  | array (nodes : List Pnode)
  | boolean (value : Bool)
  | integer (value : ℤ)
  | map (entries : List (String × Pnode))
  | real (value : Double)
  | string (value : String)

/-- A configuration that is a map, whose keys are in the order in which a loop visits them. -/
structure ConfigMap where
  entries : List (String × Pnode)
  sorted : (entries.map Prod.fst).Pairwise (· < ·)

namespace ConfigMap

def keys (config : ConfigMap) : List String := config.entries.map Prod.fst

/-- The node at a key, if the map has the key. -/
def lookup (config : ConfigMap) (key : String) : Option Pnode := config.entries.lookup key

/-- The node at a key, which is empty for a key that the map does not have. -/
def get (config : ConfigMap) (key : String) : Pnode := (config.lookup key).getD .empty

end ConfigMap

namespace Pnode

/-- A node is false if it is empty. -/
def isEmpty : Pnode → Bool
  | empty => true
  | _ => false

theorem isEmpty_iff {node : Pnode} : node.isEmpty ↔ node = empty := by
  cases node <;> simp [isEmpty]

section
variable (mismatch : Error)

def getBoolean : Pnode → Except Error Bool
  | boolean value => .ok value
  | _ => .error mismatch

def getInteger : Pnode → Except Error ℤ
  | integer value => .ok value
  | _ => .error mismatch

def getReal : Pnode → Except Error Double
  | real value => .ok value
  | _ => .error mismatch

def getString : Pnode → Except Error String
  | string value => .ok value
  | _ => .error mismatch

variable {mismatch} {node : Pnode}

theorem getBoolean_eq_ok {value : Bool} :
    node.getBoolean mismatch = .ok value ↔ node = boolean value := by
  cases node <;> simp [getBoolean]

theorem getInteger_eq_ok {value : ℤ} :
    node.getInteger mismatch = .ok value ↔ node = integer value := by
  cases node <;> simp [getInteger]

theorem getReal_eq_ok {value : Double} :
    node.getReal mismatch = .ok value ↔ node = real value := by
  cases node <;> simp [getReal]

theorem getString_eq_ok {value : String} :
    node.getString mismatch = .ok value ↔ node = string value := by
  cases node <;> simp [getString]

end

end Pnode

end GinkgoTpl.Ginkgo
