/-
  EntityStore/Version.lean
  ========================
  **The library's version.**
-/

namespace EntityStore

/-- The version of the library. -/
def version : String := "0.4.0"

end EntityStore
