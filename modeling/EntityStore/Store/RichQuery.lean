/-
  EntityStore/Store/RichQuery.lean
  ================================
  **Rich queries** — the values of the entries that a document query asks for.
-/
import EntityStore.Query.Builder
import EntityStore.Store.Listing

namespace EntityStore.Store

open EntityStore.Action

variable {σ α : Type} (S : Store σ)

/-- The values of at most `limit` rows of a query. -/
def runQuery (text : String) (limit : Nat) (codec : Codec α) : Action σ (List α) := do
  let cursor ← call (S.ledger.query text)
  let items ← S.decodeRows codec cursor (some limit)
  emit (.scan .query text none items.length)
  return items

/-- Runs the text of a document query. -/
def richQuery (text : String) (limit : Nat) (codec : Codec α) : Action σ (List α) :=
  observe .query (S.runQuery text limit codec)

/-- One page of the answer to the text of a document query. -/
def richQueryPage (text : String) (pageSize : Nat) (bookmark : String) (codec : Codec α) :
    Action σ (Page α) :=
  observe .query do
    let (cursor, info) ← call (S.ledger.queryPage text pageSize bookmark)
    let items ← S.decodeRows codec cursor none
    emit (.scan .query text none items.length)
    return ⟨items, info.bookmark, info.fetched⟩

/-- Compiles a builder and runs the query, capped by the builder's limit or by the
    configured page size. -/
def query (builder : QueryBuilder) (codec : Codec α) : Action σ (List α) :=
  observe .query do
    let text ← ofExcept builder.build
    S.runQuery text ((builder.limit.map UInt64.toNat).getD S.config.queryPageSize) codec

end EntityStore.Store
