/-
  EntityStore/Proofs/Store/StoredKeys.lean
  ========================================
  **Every stored key is a ledger key.**

  Listings split the keys that they meet, and look for them in ranges; both rely on what
  is stored.  A ledger key is not empty, and it is either a simple key or a composite one
  whose parts can be told and joined again (`IsLedgerKey`).  Whatever the transformers are, and
  even if each step brings its own, no other key gets into the public state, a private
  collection or the history (`run_stores_ledgerKeys`): requests write under resolved keys
  only, and the ledger refuses the one resolved key that is no ledger key, the empty one.
-/
import EntityStore.Proofs.Key.Split
import EntityStore.Proofs.Ledger.Reading
import EntityStore.Proofs.Store.Run
import EntityStore.Proofs.Store.Within

namespace EntityStore

/-! ### Ledger keys -/

/-- The key is not empty, and it is simple or the composite key of plain parts, which
    can be told from it. -/
def IsLedgerKey (key : String) : Prop :=
  key ≠ "" ∧
    (Composite.isComposite key = false ∨
      ∃ objectType attributes, attributes ≠ [] ∧
        (∀ part ∈ objectType :: attributes, Composite.IsPlain part) ∧
        Composite.encode objectType attributes = .ok key ∧
        Composite.split key = .ok (objectType, attributes))

theorem isLedgerKey_spell {key : Key} (h : key.IsStorable) (hne : key.spell ≠ "") :
    IsLedgerKey key.spell := by
  refine ⟨hne, ?_⟩
  rcases hparts : key.parts with _ | ⟨objectType, _ | ⟨second, rest⟩⟩
  · simp [Key.IsStorable, Key.check, hparts] at h
  · have hsimple := (Key.isComposite_spell h).not
    rw [hparts] at hsimple
    exact .inl (Bool.not_eq_true _ ▸ hsimple.mpr (by simp))
  · right
    have hmany : 2 ≤ key.parts.length := by simp [hparts]
    have hplain := h.plain hmany
    have hclosed := Key.spell_of_many hmany
    rw [hparts] at hplain hclosed
    refine ⟨objectType, second :: rest, List.cons_ne_nil _ _, hplain, ?_, ?_⟩
    · exact Composite.encode_eq_ok_iff.mpr ⟨hplain, hclosed⟩
    · exact Composite.split_closed hplain hclosed

/-- A resolved key is a ledger key unless it is empty. -/
theorem Store.isLedgerKey_of_resolve {σ : Type} {S : Store σ}
    (hjoin : S.ledger.joinKey = Composite.encode) {source : KeySource} {key : ResolvedKey}
    (h : S.resolve source = .ok key) (hne : key.encoded ≠ "") : IsLedgerKey key.encoded := by
  rw [resolve_eq hjoin] at h
  obtain ⟨place, -, rfl⟩ := map_eq_ok_iff.mp h
  exact isLedgerKey_spell place.storable hne

/-! ### The keys of a map -/

namespace OrderedMap

variable {α : Type} {holds : String → Prop} {m : OrderedMap α}

/-- Something holds of every key of a map. -/
def KeysAre (holds : String → Prop) (m : OrderedMap α) : Prop := ∀ entry ∈ m.entries, holds entry.1

theorem keysAre_empty : (∅ : OrderedMap α).KeysAre holds := nofun

theorem KeysAre.insert (h : m.KeysAre holds) {key : String} (hkey : holds key) (value : α) :
    (m.insert key value).KeysAre holds := by
  intro entry hentry
  rcases Assoc.mem_insert hentry with rfl | hold
  · exact hkey
  · exact h entry hold

theorem KeysAre.erase (h : m.KeysAre holds) (key : String) : (m.erase key).KeysAre holds :=
  fun entry hentry => h entry (List.mem_filter.mp hentry).1

end OrderedMap

namespace Memory

variable {holds : String → Prop} {m : Memory} {key : String} {p : Partition}

/-- Something holds of every key of a ledger: of its public state, of each private
    collection, and of its history. -/
structure KeysAre (holds : String → Prop) (m : Memory) : Prop where
  world : m.world.KeysAre holds
  collections : ∀ collection ∈ m.collections.entries, collection.2.KeysAre holds
  history : m.history.KeysAre holds

theorem keysAre_fresh (richQueries : Bool) (txId : String) (timestamp : Int) :
    (fresh richQueries txId timestamp).KeysAre holds := ⟨nofun, nofun, nofun⟩

theorem KeysAre.record (h : m.KeysAre holds) (hkey : holds key) (isDelete : Bool)
    (payload : Bytes) : (m.record key isDelete payload).KeysAre holds :=
  ⟨h.world, h.collections, h.history.insert hkey _⟩

/-- A collection is replaced by another one whose keys are as required. -/
theorem KeysAre.withCollection (h : m.KeysAre holds) (name : String) {entries : OrderedMap Bytes}
    (hentries : entries.KeysAre holds) :
    KeysAre holds { m with collections := m.collections.insert name entries } := by
  refine ⟨h.world, fun collection hcollection => ?_, h.history⟩
  rcases Assoc.mem_insert hcollection with rfl | hold
  · exact hentries
  · exact h.collections collection hold

theorem KeysAre.entries (h : m.KeysAre holds) (p : Partition) : (m.entries p).KeysAre holds := by
  cases p with
  | world => exact h.world
  | collection name =>
    show ((m.collections.get? name).getD ∅).KeysAre holds
    cases hget : m.collections.get? name with
    | none => exact OrderedMap.keysAre_empty
    | some entries => exact h.collections (name, entries) (Assoc.mem_of_get?_eq_some hget)

theorem KeysAre.write (h : m.KeysAre holds) (hkey : key ≠ "" → holds key) (p : Partition)
    (payload : Bytes) : (write p key payload m).2.KeysAre holds := by
  by_cases hempty : key = ""
  · subst hempty
    exact h
  · have hholds := hkey hempty
    rw [write_of_ne hempty, written, Memory.write, writing, if_neg hempty]
    cases p with
    | world =>
      have hrecorded := h.record hholds false payload
      exact ⟨h.world.insert hholds payload, hrecorded.collections, hrecorded.history⟩
    | collection name => exact h.withCollection name ((h.entries _).insert hholds payload)

theorem KeysAre.delete (h : m.KeysAre holds) (hkey : key ≠ "" → holds key) (p : Partition) :
    (delete p key m).2.KeysAre holds := by
  by_cases hempty : key = ""
  · subst hempty
    exact h
  · have hholds := hkey hempty
    rw [delete_of_ne hempty, deleted, Memory.delete, writing, if_neg hempty]
    cases p with
    | world =>
      have hrecorded := h.record hholds true []
      exact ⟨h.world.erase key, hrecorded.collections, hrecorded.history⟩
    | collection name =>
      cases hget : m.collections.get? name with
      | none =>
        simp only [hget]
        exact h
      | some entries =>
        simp only [hget]
        exact h.withCollection name
          ((h.collections (name, entries) (Assoc.mem_of_get?_eq_some hget)).erase key)

/-- Reading keeps the keys of a ledger. -/
theorem reads_preserving_keys : (Frame.preserving (KeysAre holds)).Reads accessor := by
  refine Frame.Reads.imp ?_ (reads_keeping_data fun m => (m.world, m.collections, m.history))
  intro before behind hsame h
  obtain ⟨hworld, hcollections, hhistory⟩ : behind.world = before.world ∧
      behind.collections = before.collections ∧ behind.history = before.history := by
    simpa [Frame.keeping, data] using hsame
  exact ⟨hworld ▸ h.world, hcollections ▸ h.collections, hhistory ▸ h.history⟩

end Memory

/-! ### Steps of a ledger in memory -/

/-- A request that is made through a store of its own, the start of a transaction, or a
    failure told in advance. -/
inductive LedgerStep : Type → Type 1 where
  | request {α : Type} (keys : KeyTransformer) (payloads : PayloadTransformer) (config : Config)
    (request : AnyRequest α) : LedgerStep α
  | beginTx (txId : String) (timestamp : Int) : LedgerStep Unit
  | failNextReads (count : Nat) : LedgerStep Unit
  | failIterationAfter (rows : Nat) : LedgerStep Unit

def LedgerStep.perform {α : Type} : LedgerStep α → Memory → Except StoreError α × Memory
  | .request keys payloads config made =>
    (made.perform (Store.inMemory keys payloads config)).answer
  | .beginTx txId timestamp => fun m => (.ok (), m.beginTx txId timestamp)
  | .failNextReads count => fun m => (.ok (), m.failNextReads count)
  | .failIterationAfter rows => fun m => (.ok (), m.failIterationAfter rows)

open EntityStore.Action

theorem AnyRequest.keysAre_perform {α : Type} (keys : KeyTransformer)
    (payloads : PayloadTransformer) (config : Config) (request : AnyRequest α) :
    Within (Frame.preserving (Memory.KeysAre IsLedgerKey))
      (request.perform (Store.inMemory keys payloads config)) := by
  refine request.within_of_changes Memory.reads_preserving_keys ?_
  intro w key hwriting hkey payload? _ m hm
  cases request with
  | scan request => cases hwriting
  | stored request =>
    have hresolve := (request.key_of_writing hwriting hkey).2
    have hledger := Store.isLedgerKey_of_resolve rfl hresolve
    cases payload? with
    | some payload => exact hm.write hledger w.partition payload
    | none => exact hm.delete hledger w.partition

/-- What one step preserves. -/
theorem LedgerStep.keysAre_perform {α : Type} (step : LedgerStep α) {m : Memory}
    (h : m.KeysAre IsLedgerKey) : (step.perform m).2.KeysAre IsLedgerKey := by
  cases step with
  | request keys payloads config request => exact request.keysAre_perform keys payloads config m h
  | beginTx txId timestamp => exact ⟨h.world, h.collections, h.history⟩
  | failNextReads count => exact ⟨h.world, h.collections, h.history⟩
  | failIterationAfter rows => exact ⟨h.world, h.collections, h.history⟩

/-- **Every stored key is a ledger key**, whatever the steps and their transformers. -/
theorem run_stores_ledgerKeys (richQueries : Bool) (txId : String) (timestamp : Int)
    (steps : List (Σ α : Type, LedgerStep α)) :
    let m := (runAll LedgerStep.perform steps (Memory.fresh richQueries txId timestamp)).2
    (∀ entry ∈ m.world.entries, IsLedgerKey entry.1) ∧
    (∀ collection ∈ m.collections.entries, ∀ entry ∈ collection.2.entries, IsLedgerKey entry.1) ∧
    ∀ entry ∈ m.history.entries, IsLedgerKey entry.1 := by
  have hrun := runAll_induction LedgerStep.perform (fun step _ h => step.keysAre_perform h) steps
    (Memory.keysAre_fresh richQueries txId timestamp)
  exact ⟨hrun.world, hrun.collections, hrun.history⟩

end EntityStore
