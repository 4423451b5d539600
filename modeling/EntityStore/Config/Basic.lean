/-
  EntityStore/Config/Basic.lean
  =============================
  **Configuration** — the bound on payloads, the cap on query rows, and the way a
  private collection is listed.
-/
import EntityStore.Config.Settings

namespace EntityStore

/-- How a private collection is listed. -/
inductive PrivateListing where
  /-- By the collection's own cursor. -/
  | privateIterator
  /-- By the public keys of the same prefix, each private payload read by key. -/
  | publicKeys
deriving DecidableEq

/-- The options of a store. -/
structure Config where
  /-- The largest payload, checked on writing and on reading. -/
  maxValueBytes : Nat := 4 * 1024 * 1024
  /-- The rows that a query reads when it sets no limit of its own. -/
  queryPageSize : Nat := 100
  privateListing : PrivateListing := .privateIterator
deriving DecidableEq

/-- Why a configuration is refused. -/
inductive ConfigError where
  /-- The document is no flat settings document, or holds a setting that is unknown,
      set twice, or of the wrong kind or range. -/
  | malformed
  /-- A setting that must be positive is zero. -/
  | zero (field : String)
deriving DecidableEq

def ConfigError.message : ConfigError → String
  | malformed => "invalid state config: malformed document"
  | zero field => "invalid state config: " ++ field ++ " must be greater than zero"

namespace Config

/-- Accepts a configuration whose limits are positive. -/
def validate (config : Config) : Except ConfigError Unit :=
  if config.maxValueBytes = 0 then .error (.zero "max_value_bytes")
  else if config.queryPageSize = 0 then .error (.zero "query_page_size")
  else .ok ()

/-- A natural number below a bound. -/
def countBelow? (bound : Nat) : Settings.Value → Option Nat
  | .integer n => if 0 ≤ n ∧ n < bound then some n.toNat else none
  | _ => none

/-- The way of listing that a setting names. -/
def listing? : Settings.Value → Option PrivateListing
  | .text name | .choice name =>
    if name = "private_iterator" then some .privateIterator
    else if name = "public_keys" then some .publicKeys
    else none
  | .integer _ => none

/-- A configuration with one setting changed. -/
def withSetting? (config : Config) : String × Settings.Value → Option Config
  | (name, value) =>
    if name = "max_value_bytes" then
      (countBelow? UInt64.size value).map fun n => { config with maxValueBytes := n }
    else if name = "query_page_size" then
      (countBelow? UInt32.size value).map fun n => { config with queryPageSize := n }
    else if name = "private_listing" then
      (listing? value).map fun l => { config with privateListing := l }
    else none

/-- The configuration of a document; settings that it leaves out keep their
    defaults. -/
def ofText (document : String) : Except ConfigError Config :=
  match Settings.ofText? document with
  | none => .error .malformed
  | some settings =>
    if (settings.map Prod.fst).Nodup then
      match settings.foldlM withSetting? {} with
      | none => .error .malformed
      | some config => config.validate.map fun () => config
    else .error .malformed

end Config

end EntityStore
