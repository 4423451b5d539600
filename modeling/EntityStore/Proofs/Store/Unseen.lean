/-
  EntityStore/Proofs/Store/Unseen.lean
  ====================================
  **Entries that no document query yields.**  A query looks at payloads and never at keys:
  whatever it yields is an entry that holds an object.  Two kinds of entries are kept out of
  every answer by what they hold.

  The payload of a key reference is an array.  Nothing else is written in the namespace of
  the references, so whatever is made of a ledger, every entry there holds an array
  (`Memory.ReservedHoldArrays`), and queries yield none of them
  (`queries_yield_no_references`).

  A value that was put in CBOR holds no JSON object, whatever value it is
  (`cbor_is_unseen`).
-/
import EntityStore.Proofs.Cbor.Openings
import EntityStore.Proofs.Ledger.Queries
import EntityStore.Proofs.Store.Atomicity
import EntityStore.Proofs.Store.Payload
import EntityStore.Proofs.Store.Reserved
import EntityStore.Proofs.Store.StoredKeys

namespace EntityStore

open EntityStore.Action

/-! ### Payloads that are no objects -/

namespace Memory

variable {m : Memory} {p : Partition} {key : String} {payload : Bytes} {row : Row}

/-- An entry that opens no object is not yielded. -/
theorem QueryYields.key_ne (h : m.QueryYields row) (hstored : m.stored? .world key = some payload)
    (hopens : ¬ Json.OpensObject payload) : row.key ≠ key := by
  rintro rfl
  obtain ⟨hrow, members, hread⟩ := holdsObject_of_queryYields h
  obtain rfl : row.payload = payload := Option.some.inj (hrow.symm.trans hstored)
  exact hopens (Json.opensObject_of_ofBytes? hread)

/-! ### References hold arrays -/

/-- Every public entry in the namespace of the key references holds an array. -/
def ReservedHoldArrays (m : Memory) : Prop :=
  ∀ key payload, IsReservedKey key → m.stored? .world key = some payload →
    ∃ items, payload = (Json.arr items).toBytes

theorem reservedHoldArrays_fresh (richQueries : Bool) (txId : String) (timestamp : Int) :
    (fresh richQueries txId timestamp).ReservedHoldArrays := nofun

theorem ReservedHoldArrays.write (h : m.ReservedHoldArrays)
    (harray : IsReservedKey key → ∃ items, payload = (Json.arr items).toBytes) :
    (write p key payload m).2.ReservedHoldArrays := by
  by_cases hempty : key = ""
  · subst hempty
    exact h
  · intro other found hother hfound
    rw [write_of_ne hempty, stored?_written hempty] at hfound
    split at hfound
    · next hsame =>
      cases hfound
      exact harray (hsame.2 ▸ hother)
    · exact h other found hother hfound

theorem ReservedHoldArrays.delete (h : m.ReservedHoldArrays) :
    (delete p key m).2.ReservedHoldArrays := by
  by_cases hempty : key = ""
  · subst hempty
    exact h
  · intro other found hother hfound
    rw [delete_of_ne hempty, stored?_deleted hempty] at hfound
    split at hfound
    · cases hfound
    · exact h other found hother hfound

theorem reads_preserving_arrays : (Frame.preserving ReservedHoldArrays).Reads accessor := by
  refine Frame.Reads.imp ?_ (reads_keeping_data fun m => m.world)
  intro before behind hsame h key payload hkey hstored
  refine h key payload hkey ?_
  rw [← hstored]
  exact congrArg (fun world : OrderedMap Bytes => world.get? key) hsame.symm

end Memory

theorem array_of_encodeValue {S : Store Memory} (hS : S.payloads = PayloadTransformer.identity)
    {key : Key} {payload : Bytes} (h : S.encodeValue Codec.key key = .ok payload) :
    ∃ items, payload = (Json.arr items).toBytes := by
  have hencoded := Store.encode_of_encodeValue hS h
  cases hencoded
  exact ⟨key.parts.map .str, rfl⟩

variable {α : Type}

/-- A request keeps what the namespace of the references holds, if its key transformer leads
    there from nowhere else and payloads are kept as they are. -/
theorem AnyRequest.arrays_perform {keys : KeyTransformer} (hkeys : keys.SparesReserved)
    (config : Config) (request : AnyRequest α) :
    Within (Frame.preserving Memory.ReservedHoldArrays)
      (request.perform (Store.inMemory keys PayloadTransformer.identity config)) := by
  refine request.within_of_changes Memory.reads_preserving_arrays ?_
  intro w key hwriting hkey payload? hpayload m hm
  cases payload? with
  | none => exact hm.delete
  | some payload =>
    refine hm.write fun hreserved => ?_
    cases request with
    | scan request => cases hwriting
    | stored request =>
      cases request with
      | entry request =>
        have hresolve := (request.key_of_writing hwriting hkey).2
        exact absurd hreserved (not_reserved_of_writable hkeys hresolve)
      | keyRef request =>
        obtain ⟨primaryKey, hencoded⟩ := request.payload_of_writing hwriting hpayload
        exact array_of_encodeValue rfl hencoded

/-! ### Runs -/

/-- A step that is made by no store, or by one that keeps payloads as they are, and keys
    as well or behind digests. -/
def LedgerStep.KeepsPayloads : LedgerStep α → Prop
  | .request keys payloads _ _ =>
    (keys = KeyTransformer.identity ∨ keys = KeyTransformer.hashed) ∧
      payloads = PayloadTransformer.identity
  | .beginTx .. | .failNextReads .. | .failIterationAfter .. => True

def LegibleStep (α : Type) : Type 1 := { step : LedgerStep α // step.KeepsPayloads }

def LegibleStep.perform (step : LegibleStep α) : Memory → Except StoreError α × Memory :=
  step.1.perform

theorem LegibleStep.arrays_perform (step : LegibleStep α) (m : Memory)
    (h : m.ReservedHoldArrays) : (step.perform m).2.ReservedHoldArrays := by
  obtain ⟨step, hkeeps⟩ := step
  cases step with
  | beginTx | failNextReads | failIterationAfter => exact h
  | request keys payloads config request =>
    obtain ⟨hkeys, rfl⟩ := hkeeps
    refine request.arrays_perform ?_ config m h
    rcases hkeys with rfl | rfl
    · exact (KeyTransformer.separates_identity ∅).sparesReserved
    · exact (KeyTransformer.separates_hashed (Set.injOn_empty _)).sparesReserved

/-- **Queries yield no key references.**  Whatever requests are made of a ledger, by stores
    that keep payloads as they are and keys as well or behind digests, no row of any document
    query has a composite key in the namespace of the key references. -/
theorem queries_yield_no_references (richQueries : Bool) (txId : String) (timestamp : Int)
    (steps : List (Σ α : Type, LegibleStep α)) :
    let m := (runAll LegibleStep.perform steps (Memory.fresh richQueries txId timestamp)).2
    ∀ row, m.QueryYields row → ¬ IsReservedKey row.key := by
  intro m row hyields hreserved
  have hrun : m.ReservedHoldArrays :=
    runAll_induction LegibleStep.perform (fun step => step.arrays_perform) steps
      (Memory.reservedHoldArrays_fresh richQueries txId timestamp)
  have hstored := (Memory.holdsObject_of_queryYields hyields).1
  obtain ⟨items, hitems⟩ := hrun row.key row.payload hreserved hstored
  refine hyields.key_ne hstored ?_ rfl
  rw [hitems]
  exact Json.not_opensObject_arr items

/-- A run with an entity and a reference to it: the reference is stored, and a query for all
    documents yields the entity alone. -/
theorem queries_yield_no_references_book :
    let request (r : StoreRequest Unit) : Σ α : Type, LegibleStep α :=
      ⟨Unit, .request KeyTransformer.identity PayloadTransformer.identity {} (.stored r),
        .inl rfl, rfl⟩
    let steps := [request (.entry (.put .world (.given ⟨["book", "1"]⟩) Codec.json
        (.single "title" (.str "Dune")))),
      request (.keyRef (.put ⟨"book", "title", ⟨["Dune"]⟩, ⟨["book", "1"]⟩⟩))]
    let m := (runAll LegibleStep.perform steps (Memory.fresh true "tx" 0)).2
    let reference := (⟨["_idx", "book", "title", "Dune"]⟩ : Key).spell
    (m.stored? .world reference).isSome ∧
      (((Memory.query "\x7b\"selector\":\x7b\x7d\x7d" m).1.toOption.map fun cursor =>
        cursor.rows.filterMap fun row => row.toOption.map Row.key) =
          some [(⟨["book", "1"]⟩ : Key).spell]) ∧
      ∀ row, m.QueryYields row → row.key ≠ reference := by
  intro request steps m reference
  refine ⟨by decide +kernel, by decide +kernel, ?_⟩
  rintro row hyields hkey
  refine queries_yield_no_references true "tx" 0 steps row hyields ⟨["book", "title", "Dune"], ?_⟩
  rw [hkey]
  exact Key.split_spell (Key.isStorable_iff.mpr (.inr ⟨by decide, by decide +kernel⟩)) rfl
    (List.cons_ne_nil _ _)

/-! ### CBOR -/

/-- What a put that succeeds has stored. -/
theorem stored_of_put {S : Store Memory} (hS : S.ledger = Memory.accessor) {m : Memory}
    {p : Partition} {source : KeySource} {codec : Codec α} {value : α}
    (h : (S.put p source codec value m).result = .ok ()) :
    ∃ key payload, S.resolve source = .ok key ∧ S.encodeValue codec value = .ok payload ∧
      (S.put p source codec value m).ledger.stored? p key.encoded = some payload := by
  let w := S.putting .put p (S.resolveWritable source) codec value
  have hran : w.Ran Memory.accessor m (S.put p source codec value m) := by
    have hperform : S.put p source codec value = w.run Memory.accessor :=
      hS ▸ (S.run_putting ..).symm
    rw [hperform]
    exact w.ran_run Memory.accessor m
  obtain ⟨key, payload?, hkey, hpayload, hstored⟩ := Writing.stored_of_ran hran h
  obtain ⟨payload, hencoded, rfl⟩ := map_eq_ok_iff.mp hpayload
  exact ⟨key, payload, resolve_of_resolveWritable hkey, hencoded, hstored⟩

/-- The payload of a value holds no object; a put that succeeds stores it, and as long as it
    is stored under a key, no query yields the entry of that key. -/
def Store.PutsUnseen (S : Store Memory) (codec : Codec α) (value : α) : Prop :=
  ∃ payload, codec.encode value = .ok payload ∧
    (∀ members, Json.ofBytes? payload ≠ some (.obj members)) ∧
    (∀ (source : KeySource) (m : Memory), (S.put .world source codec value m).result = .ok () →
      ∃ key, S.resolve source = .ok key ∧
        (S.put .world source codec value m).ledger.stored? .world key.encoded = some payload) ∧
    ∀ (m : Memory) (key : String), m.stored? .world key = some payload →
      ∀ row, m.QueryYields row → row.key ≠ key

theorem putsUnseen_of_not_opensObject {S : Store Memory} (hS : S.ledger = Memory.accessor)
    (hpayloads : S.payloads = PayloadTransformer.identity) {codec : Codec α} {value : α}
    {payload : Bytes} (hencode : codec.encode value = .ok payload)
    (hopens : ¬ Json.OpensObject payload) : S.PutsUnseen codec value := by
  refine ⟨payload, hencode, ?_, ?_, ?_⟩
  · intro members hread
    exact hopens (Json.opensObject_of_ofBytes? hread)
  · intro source m hput
    obtain ⟨key, stored, hkey, hencoded, hstored⟩ := stored_of_put hS hput
    have hsame := (Store.encode_of_encodeValue hpayloads hencoded).symm.trans hencode
    cases hsame
    exact ⟨key, hkey, hstored⟩
  · intro m key hstored row hyields
    exact hyields.key_ne hstored hopens

/-- **CBOR is invisible to queries.**  Of a store that keeps payloads as they are, no query
    yields an entry that was put in CBOR: whatever is written as an item that is no text of
    `2 ^ 32` bytes or more, so every JSON value that is no such text, and every record. -/
theorem cbor_is_unseen (keys : KeyTransformer) (config : Config) :
    let S := Store.inMemory keys PayloadTransformer.identity config
    (∀ (α : Type) (write : α → Cbor.Item) (read : Cbor.Item → Option α) (value : α),
      (∀ text, write value = .text text → (Utf8.encode text).length < UInt32.size) →
        S.PutsUnseen (Codec.cbor write read) value) ∧
    (∀ value : Json, (∀ text, value = .str text → (Utf8.encode text).length < UInt32.size) →
      S.PutsUnseen Codec.cborJson value) ∧
    ∀ (α : Type) (shape : RecordShape α) (record : α),
      S.PutsUnseen (Codec.cborRecord shape) record := by
  intro S
  have hitem (α : Type) (write : α → Cbor.Item) (read : Cbor.Item → Option α) (value : α)
      (hshort : ∀ text, write value = .text text → (Utf8.encode text).length < UInt32.size) :
      S.PutsUnseen (Codec.cbor write read) value :=
    putsUnseen_of_not_opensObject rfl rfl rfl (Cbor.Item.not_opensObject_toBytes hshort)
  refine ⟨hitem, ?_, ?_⟩
  · intro value hshort
    exact hitem Json Cbor.ofJson Cbor.toJson? value fun text htext =>
      hshort text (Cbor.eq_str_of_ofJson htext)
  · intro α shape record
    exact hitem α shape.toItem shape.ofItem? record nofun

/-- The number -1 is stored as one byte, which is a blank of JSON. -/
theorem cbor_is_unseen_blank :
    let S := Store.inMemory KeyTransformer.identity PayloadTransformer.identity {}
    let book : Key := ⟨["book", "1"]⟩
    let put := S.put .world (.given book) Codec.cborJson (.num (.int (-1))) Memory.empty
    put.result = .ok () ∧ put.ledger.stored? .world book.spell = some [0x20] ∧
      ∀ row, put.ledger.QueryYields row → row.key ≠ book.spell := by
  intro S book put
  obtain ⟨payload, hencode, -, -, hunseen⟩ :=
    (cbor_is_unseen KeyTransformer.identity {}).2.1 (.num (.int (-1))) nofun
  cases hencode
  have hstored : put.ledger.stored? .world book.spell = some [0x20] := by decide +kernel
  exact ⟨rfl, hstored, hunseen put.ledger book.spell hstored⟩

end EntityStore
