/-
  EntityStore/Proofs/Store/Reserved.lean
  ======================================
  **Who writes in the namespace of the key references.**

  A write of an entry is refused if its caller names the reserved namespace; the key
  that is written is another one, since a transformer may stand between.  Whether the
  entries of the namespace are safe from all other requests is therefore up to the
  transformer, and `KeyTransformer.SparesReserved` is exactly what is needed
  (`reserved_kept_iff`).  Both transformers of the library have it; one that prepends
  the namespace has not (`reserved_written_by_prepending`).
-/
import EntityStore.Proofs.Key.Split
import EntityStore.Proofs.Key.Transform
import EntityStore.Proofs.Ledger.Reading
import EntityStore.Proofs.Store.Within

namespace EntityStore

open EntityStore.Action

/-! ### Reserved entries -/

/-- A ledger key is a composite key of the namespace of the key references. -/
def IsReservedKey (key : String) : Prop :=
  ∃ attributes, Composite.split key = .ok (Store.keyRefNamespace, attributes)

/-- A transformer leads into the reserved namespace only from inside it.  Keys of one
    part, and keys that the ledger refuses, do not count. -/
def KeyTransformer.SparesReserved (T : KeyTransformer) : Prop :=
  ∀ origin key, T origin = .ok key → key.IsStorable → 2 ≤ key.parts.length →
    key.namespace? = some Store.keyRefNamespace → origin.namespace? = some Store.keyRefNamespace

theorem KeyTransformer.Separates.sparesReserved {T : KeyTransformer} {used : Set String}
    (h : T.Separates used) : T.SparesReserved := by
  intro origin key hkey _ _ hname
  rw [← h.namespace_eq hkey]
  exact hname

theorem isReservedKey_spell {key : Key} (h : key.IsStorable) :
    IsReservedKey key.spell ↔
      2 ≤ key.parts.length ∧ key.namespace? = some Store.keyRefNamespace := by
  constructor
  · rintro ⟨attributes, hsplit⟩
    obtain ⟨hmany, hparts⟩ := Key.parts_of_split_spell h hsplit
    exact ⟨hmany, by rw [Key.namespace?, hparts]; rfl⟩
  · rintro ⟨hmany, hname⟩
    obtain ⟨_ | ⟨name, _ | ⟨second, rest⟩⟩⟩ := key
    · cases hname
    · simp at hmany
    · cases hname
      exact ⟨second :: rest, Key.split_spell h rfl (List.cons_ne_nil _ _)⟩

/-! ### What keeps reserved entries -/

namespace Memory

variable {key other : String}

/-- The public payload under one ledger key stays the same. -/
def keepingKey (key : String) : Frame Memory := .keeping fun m => m.stored? .world key

theorem calls_write (h : other ≠ key) (p : Partition) (payload : Bytes) :
    (keepingKey key).Calls (write p other payload) := by
  intro m
  by_cases hempty : other = ""
  · subst hempty
    rfl
  · show (m.written p other payload).stored? .world key = m.stored? .world key
    rw [stored?_written hempty, if_neg fun hsame => h hsame.2]

theorem calls_delete (h : other ≠ key) (p : Partition) :
    (keepingKey key).Calls (delete p other) := by
  intro m
  by_cases hempty : other = ""
  · subst hempty
    rfl
  · show (m.deleted p other).stored? .world key = m.stored? .world key
    rw [stored?_deleted hempty, if_neg fun hsame => h hsame.2]

end Memory

section

variable {T : KeyTransformer} {payloads : PayloadTransformer} {config : Config} {key : String}

theorem not_reserved_of_writable (hT : T.SparesReserved) {source : KeySource} {found : ResolvedKey}
    (hfound : (Store.inMemory T payloads config).resolveWritable source = .ok found) :
    ¬ IsReservedKey found.encoded := by
  rw [Store.resolveWritable_eq rfl] at hfound
  obtain ⟨place, hplace, rfl⟩ := map_eq_ok_iff.mp hfound
  obtain ⟨hlocate, hname⟩ := Store.locateWritable_eq_ok_iff.mp hplace
  have hkey : T place.origin = .ok place.key := (Store.locate_eq_ok hlocate).2
  intro hreserved
  obtain ⟨hmany, hspace⟩ := (isReservedKey_spell place.storable).mp hreserved
  exact hname (hT place.origin place.key hkey place.storable hmany hspace)

theorem writes_keepingKey (hT : T.SparesReserved) (hkey : IsReservedKey key) :
    (Memory.keepingKey key).Writes (Store.inMemory T payloads config) where
  write hfound p payload := by
    refine Memory.calls_write ?_ p payload
    rintro rfl
    exact not_reserved_of_writable hT hfound hkey
  delete hfound p := by
    refine Memory.calls_delete ?_ p
    rintro rfl
    exact not_reserved_of_writable hT hfound hkey

end

/-- A request that writes no key reference. -/
def OtherRequest (α : Type) : Type 1 := { request : AnyRequest α // ¬ request.WritesKeyRef }

def OtherRequest.perform {σ α : Type} (S : Store σ) (request : OtherRequest α) : Action σ α :=
  request.1.perform S

theorem run_keeps_reserved {T : KeyTransformer} (hT : T.SparesReserved)
    (payloads : PayloadTransformer) (config : Config) {key : String} (hkey : IsReservedKey key)
    (requests : List (Σ α : Type, OtherRequest α)) (m : Memory) :
    (runAll (fun r => (r.perform (Store.inMemory T payloads config)).answer) requests m).2.stored?
      .world key = m.stored? .world key := by
  let S := Store.inMemory T payloads config
  have hreads : (Memory.keepingKey key).Reads S.ledger :=
    Memory.reads_keeping_data fun m => m.stored? .world key
  have hwrites : (Memory.keepingKey key).Writes S := writes_keepingKey hT hkey
  have hwithin {α : Type} (r : OtherRequest α) : Within (Memory.keepingKey key) (r.perform S) :=
    r.1.within_perform hreads hwrites r.2
  exact runAll_within hwithin requests m

theorem locateWritable_given {σ : Type} {S : Store σ} {origin key : Key}
    (hkey : S.keys origin = .ok key) (hstorable : key.IsStorable)
    (hname : origin.namespace? ≠ some Store.keyRefNamespace) :
    S.locateWritable (.given origin) = .ok ⟨origin, key, hstorable⟩ :=
  Store.locateWritable_eq_ok_iff.mpr ⟨Store.locate_given hkey hstorable, hname⟩

/-- If a transformer leads into the namespace from outside, the deletion of an entry that
    its caller may name removes an entry there. -/
theorem sparesReserved_of_kept {T : KeyTransformer} (payloads : PayloadTransformer)
    (config : Config)
    (h : ∀ (source : KeySource) (m : Memory) (key : String), IsReservedKey key →
      (((Store.inMemory T payloads config).delete .world source).answer m).2.stored? .world key =
        m.stored? .world key) : T.SparesReserved := by
  intro origin key hkey hstorable hmany hname
  refine Decidable.byContradiction fun houtside => ?_
  let S := Store.inMemory T payloads config
  have hnonempty : key.parts ≠ [""] := by
    intro hparts
    simp [hparts] at hmany
  have hspelled : key.spell ≠ "" := mt (Key.spell_eq_empty_iff hstorable).mp hnonempty
  -- what the deletion removes: the one entry of this ledger
  let m := Memory.empty.written .world key.spell []
  have hquiet : m.IsQuiet := Memory.IsQuiet.written ⟨rfl, rfl⟩
  have hchange : (S.locateWritable (.given origin) >>= fun place => place.change .world none) =
      .ok ⟨.world, key, hstorable, hnonempty, none⟩ := by
    rw [locateWritable_given hkey hstorable houtside]
    exact dif_neg hnonempty
  have hkept := h (.given origin) m key.spell
    ((isReservedKey_spell hstorable).mpr ⟨hmany, hname⟩)
  have hdeleted : (S.delete .world (.given origin)).answer m =
      (.ok (), m.apply ⟨.world, key, hstorable, hnonempty, none⟩) := by
    rw [follows_delete rfl .world (.given origin) m hquiet, EntryRequest.plan,
      Plan.onMemory_writing, hchange]
    rfl
  rw [hdeleted] at hkept
  have hgone : (m.apply ⟨.world, key, hstorable, hnonempty, none⟩).stored? .world key.spell =
      none := by
    rw [Memory.stored?_apply]
    exact if_pos ⟨rfl, rfl⟩
  have hthere : m.stored? .world key.spell = some [] := by
    rw [Memory.stored?_written hspelled]
    exact if_pos ⟨rfl, rfl⟩
  cases hgone.symm.trans (hkept.trans hthere)

/-- **Reserved entries are safe exactly under transformers that spare them.**  A
    transformer leads into the reserved namespace only from inside it if and only if no
    run of requests, other than those that write key references, changes an entry there.
    Both transformers of the library do so. -/
theorem reserved_kept_iff (payloads : PayloadTransformer) (config : Config) :
    (∀ T : KeyTransformer,
      (∀ (requests : List (Σ α : Type, OtherRequest α)) (m : Memory) (key : String),
        IsReservedKey key →
          (runAll (fun r => (r.perform (Store.inMemory T payloads config)).answer)
            requests m).2.stored? .world key = m.stored? .world key) ↔ T.SparesReserved) ∧
    KeyTransformer.identity.SparesReserved ∧ KeyTransformer.hashed.SparesReserved := by
  refine ⟨?_, ?_, ?_⟩
  · intro T
    constructor
    · intro h
      refine sparesReserved_of_kept payloads config ?_
      intro source m key hkey
      exact h [⟨Unit, ⟨.stored (.entry (.delete .world source)), id⟩⟩] m key hkey
    · intro hT requests m key hkey
      exact run_keeps_reserved hT payloads config hkey requests m
  · exact (KeyTransformer.separates_identity ∅).sparesReserved
  · exact (KeyTransformer.separates_hashed (Set.injOn_empty _)).sparesReserved

/-- A transformer that prepends the namespace: an entry that its caller names `BOOK` is
    written among the key references. -/
theorem reserved_written_by_prepending :
    let T : KeyTransformer := fun key => .ok ⟨Store.keyRefNamespace :: key.parts⟩
    let S := Store.inMemory T PayloadTransformer.identity {}
    let put := (S.put .world (.given ⟨["BOOK", "1"]⟩) Codec.text "x").answer Memory.empty
    let key := (⟨[Store.keyRefNamespace, "BOOK", "1"]⟩ : Key).spell
    IsReservedKey key ∧ Memory.empty.stored? .world key = none ∧
      put.1 = .ok () ∧ put.2.stored? .world key = some (Utf8.encode "x") := by
  intro T S put key
  refine ⟨⟨["BOOK", "1"], ?_⟩, rfl, ?_, ?_⟩
  · exact Key.split_spell (Key.isStorable_iff.mpr (.inr ⟨by decide, by decide +kernel⟩)) rfl
      (List.cons_ne_nil _ _)
  · rfl
  · rfl

end EntityStore
