/-!
# Search limits

How many matches are reported and how large a file is searched.
-/
namespace StructuralSearch

structure SearchLimits where
  maxMatches : Nat := 10000
  maxFileBytes : Nat := 4 * 1024 * 1024
  deriving DecidableEq, Repr, Inhabited

namespace SearchLimits

/-- A file of this size is searched. -/
def allows (limits : SearchLimits) (size : Nat) : Bool :=
  size ≤ limits.maxFileBytes

end SearchLimits
end StructuralSearch
