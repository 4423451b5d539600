/-
  EntityStore/Proofs/Store/Isolation.lean
  =======================================
  **Private data is isolated.**  What is private does not show in public operations, and
  neither they nor the operations on one collection touch another collection.  Two runs
  are compared, on ledgers that differ in whatever the requests must not depend on.
-/
import EntityStore.Proofs.Ledger.View

namespace EntityStore

open EntityStore.Action Memory

variable {α β : Type}

/-! ### What a request is about -/

/-- The partition whose entries a scan gives. -/
def ScanRequest.partition : ScanRequest β → Partition
  | .listPrivate collection _ _ _ => .collection collection
  | .list .. | .paginate .. | .history .. | .richQuery .. | .richQueryPage .. | .query ..
  | .keyRefs .. => .world

/-- The partition whose entries a request reads or writes; references are public. -/
def AnyRequest.partition : AnyRequest α → Partition
  | .stored request => request.target.1
  | .scan request => request.partition

namespace ScanRequest

variable {σ : Type} {S : Store σ}

theorem plain_of_public {request : ScanRequest β} (h : request.partition = .world)
    {scan : Scan β} (hscan : request.scan S = .ok scan) : scan.Plain .world := by
  cases request with
  | list source codec =>
    obtain ⟨⟨objectType, attributes⟩, -, rfl⟩ := map_eq_ok_iff.mp hscan
    exact ⟨rfl, fun _ => rfl, fun _ _ _ _ => rfl⟩
  | paginate source codec pageSize bookmark =>
    obtain ⟨⟨objectType, attributes⟩, -, rfl⟩ := map_eq_ok_iff.mp hscan
    refine ⟨rfl, fun _ => rfl, ?_⟩
    intro v w values hinfo
    have hinfo : v.2 = w.2 := Option.some.inj hinfo
    simp only [Store.rowScan, hinfo]
  | listPrivate collection listing source codec => cases h
  | history source codec =>
    obtain ⟨key, -, rfl⟩ := map_eq_ok_iff.mp hscan
    exact ⟨rfl, fun _ => rfl, fun _ _ _ _ => rfl⟩
  | richQuery text limit codec =>
    cases hscan
    exact ⟨rfl, fun _ => rfl, fun _ _ _ _ => rfl⟩
  | richQueryPage text pageSize bookmark codec =>
    cases hscan
    refine ⟨rfl, fun _ => rfl, ?_⟩
    intro v w values hinfo
    have hinfo : v.2 = w.2 := Option.some.inj hinfo
    simp only [Store.rowScan, hinfo]
  | query builder codec =>
    obtain ⟨text, -, rfl⟩ := map_eq_ok_iff.mp hscan
    exact ⟨rfl, fun _ => rfl, fun _ _ _ _ => rfl⟩
  | keyRefs schema index =>
    obtain ⟨⟨objectType, attributes⟩, -, rfl⟩ := map_eq_ok_iff.mp hscan
    exact ⟨rfl, fun _ => rfl, fun _ _ _ _ => rfl⟩

end ScanRequest

/-! ### Requests do not tell twins apart -/

section Requests

variable {S : Store Memory} {m n : Memory}

theorem AnyRequest.agrees_public (hS : S.ledger = accessor) (request : AnyRequest α)
    (h : request.partition = .world) :
    Agrees (Twins publicView m n anyCursors) (request.perform S) := by
  have hpoints : S.ledger.PointsAgree (Twins publicView m n anyCursors) .world := by
    rw [hS]
    exact publicView_holds.pointsAgree
  rcases request with (request | request) | request
  · have htarget : request.target.1 = .world := h
    exact request.agrees_perform (htarget ▸ hpoints)
  · exact request.agrees_perform hpoints
  · refine request.agrees_perform ?_
    intro scan hscan
    have hplain := ScanRequest.plain_of_public h hscan
    rw [hS]
    exact hplain.agrees_run (cursorsAlike publicView m n)
      (alike_publicOpening scan.opening hplain.opening) request.op

theorem agrees_privateScan (hS : S.ledger = accessor) (collection : String) (codec : Codec α)
    (objectType : String) (attributes : List String) (listing : PrivateListing) (op : Operation) :
    Agrees (Twins (privateView collection) m n anyCursors)
      ((S.privateScan collection codec objectType attributes listing).run S.ledger op) := by
  rw [hS]
  cases listing with
  | privateIterator =>
    have hplain : (S.privateScan collection codec objectType attributes .privateIterator).Plain
        (.collection collection) := ⟨rfl, fun _ => rfl, fun _ _ _ _ => rfl⟩
    refine hplain.agrees_run (cursorsAlike _ m n) (alike_scan ?_ objectType attributes) op
    intro s t start stop h
    have hentries : s.entries (.collection collection) = t.entries (.collection collection) :=
      congrArg Prod.fst h
    unfold rowsBetween
    rw [hentries]
    exact List.forall₂_same.mpr fun _ _ => rfl
  | publicKeys =>
    -- of the public rows nothing but the key is used
    have hopening : (Opening.scan .world objectType attributes).Alike accessor
        (Twins (privateView collection) m n anyCursors)
        (fun i j => Twins (privateView collection) m n (bothOpen i j))
        fun a b => a.key = b.key :=
      alike_scan (fun s t start stop h => forall₂_rowsBetween (congrArg Prod.snd h) start stop)
        objectType attributes
    refine Scan.agrees_run (cursorsAlike _ m n) hopening ?_ (fun _ _ _ _ => rfl) op
    · rintro i j ⟨key, payload⟩ ⟨_, payload'⟩ rfl
      refine alike_bind_equal
        (alike_read fun s t h => (privateView_holds collection).stored h key) ?_
      intro found
      exact alike_ofExcept (fun _ _ => Twins.forget) _

theorem AnyRequest.agrees_private (hS : S.ledger = accessor) {collection : String}
    (request : AnyRequest α) (h : request.partition = .collection collection) :
    Agrees (Twins (privateView collection) m n anyCursors) (request.perform S) := by
  rcases request with (request | request) | request
  · have hpoints : S.ledger.PointsAgree (Twins (privateView collection) m n anyCursors)
        (.collection collection) := by
      rw [hS]
      exact (privateView_holds collection).pointsAgree
    have htarget : request.target.1 = .collection collection := h
    exact request.agrees_perform (htarget ▸ hpoints)
  · cases h
  · refine request.agrees_perform ?_
    intro scan hscan
    cases request with
    | listPrivate name listing source codec =>
      cases h
      obtain ⟨⟨objectType, attributes⟩, -, rfl⟩ := map_eq_ok_iff.mp hscan
      exact agrees_privateScan hS collection codec objectType attributes listing _
    | _ => cases h

end Requests

/-! ### Isolation -/

namespace Memory

/-- Two ledgers that differ at most in their private collections, and in cursors. -/
structure SamePublic (m n : Memory) : Prop where
  world : m.world = n.world
  history : m.history = n.history
  txId : m.txId = n.txId
  timestamp : m.timestamp = n.timestamp
  richQueries : m.richQueries = n.richQueries
  failingReads : m.failingReads = n.failingReads
  failingRow : m.failingRow = n.failingRow

/-- Two ledgers with the same entries in one private collection, the same public keys, and
    the same failures pending. -/
structure SameIn (collection : String) (m n : Memory) : Prop where
  entries : m.entries (.collection collection) = n.entries (.collection collection)
  publicKeys : m.world.entries.map Prod.fst = n.world.entries.map Prod.fst
  failingReads : m.failingReads = n.failingReads
  failingRow : m.failingRow = n.failingRow

variable {m n s t : Memory}

theorem SamePublic.twins (h : m.SamePublic n) : Twins publicView m n anyCursors m n := by
  refine ⟨?_, h.failingReads, h.failingRow, rfl, rfl, trivial⟩
  simp only [publicView, data, h.world, h.history, h.txId, h.timestamp, h.richQueries]

theorem samePublic_of_twins (h : Twins publicView m n anyCursors s t) : s.SamePublic t where
  world := eq_of_public Memory.world (fun _ => rfl) h.seen
  history := eq_of_public Memory.history (fun _ => rfl) h.seen
  txId := eq_of_public Memory.txId (fun _ => rfl) h.seen
  timestamp := eq_of_public Memory.timestamp (fun _ => rfl) h.seen
  richQueries := eq_of_public Memory.richQueries (fun _ => rfl) h.seen
  failingReads := h.failingReads
  failingRow := h.failingRow

theorem SameIn.twins {collection : String} (h : m.SameIn collection n) :
    Twins (privateView collection) m n anyCursors m n :=
  ⟨Prod.ext h.entries h.publicKeys, h.failingReads, h.failingRow, rfl, rfl, trivial⟩

theorem sameIn_of_twins {collection : String}
    (h : Twins (privateView collection) m n anyCursors s t) : s.SameIn collection t where
  entries := congrArg Prod.fst h.seen
  publicKeys := congrArg Prod.snd h.seen
  failingReads := h.failingReads
  failingRow := h.failingRow

/-- What a private collection hides: the public state with its history, and every other
    collection. -/
theorem same_of_unseen {collection : String}
    (h : (privateView collection).unseen s = (privateView collection).unseen m) :
    s.world = m.world ∧ s.history = m.history ∧
      ∀ name ≠ collection, s.collections.get? name = m.collections.get? name := by
  have hpublic : publicView.seen s = publicView.seen m := congrArg Prod.fst h
  refine ⟨eq_of_public Memory.world (fun _ => rfl) hpublic,
    eq_of_public Memory.history (fun _ => rfl) hpublic, ?_⟩
  intro name hname
  have hothers := congrFun (congrArg Prod.snd h) name
  simpa [privateView, hname] using hothers

end Memory

/-- **Private data is isolated.**  A run of public requests answers the same on two ledgers
    that differ in their private collections, step by step; it leaves the same public
    state and history, and every collection as it was.  A run of requests on one
    collection leaves the public state, its history and all other collections as they
    were, and answers the same on every ledger with the same entries in the collection
    and the same public keys. -/
theorem private_data_is_isolated (keys : KeyTransformer) (payloads : PayloadTransformer)
    (config : Config) (requests : List (Σ α : Type, AnyRequest α)) :
    let run := runAll fun request => (request.perform (Store.inMemory keys payloads config)).answer
    ((∀ request ∈ requests, request.2.partition = .world) → ∀ m n : Memory, m.SamePublic n →
      (run requests m).1 = (run requests n).1 ∧
        (run requests m).2.SamePublic (run requests n).2 ∧
        (run requests m).2.collections = m.collections ∧
        (run requests n).2.collections = n.collections) ∧
    ∀ collection, (∀ request ∈ requests, request.2.partition = .collection collection) →
      ∀ m : Memory,
        ((run requests m).2.world = m.world ∧ (run requests m).2.history = m.history ∧
          ∀ name ≠ collection, (run requests m).2.collections.get? name = m.collections.get? name) ∧
        ∀ n : Memory, m.SameIn collection n →
          (run requests m).1 = (run requests n).1 ∧
            (run requests m).2.SameIn collection (run requests n).2 := by
  intro run
  let S := Store.inMemory keys payloads config
  constructor
  · intro hpublic m n hsame
    obtain ⟨hanswers, htwins⟩ := runAll_agrees (fun request => request.perform S)
      (fun request hrequest => AnyRequest.agrees_public rfl request.2 (hpublic request hrequest))
      hsame.twins
    exact ⟨hanswers, samePublic_of_twins htwins, htwins.first, htwins.second⟩
  · intro collection hprivate
    have hrun {m n : Memory} (hsame : m.SameIn collection n) :=
      runAll_agrees (fun request => request.perform S)
        (fun request hrequest => AnyRequest.agrees_private rfl request.2 (hprivate request hrequest))
        hsame.twins
    intro m
    constructor
    · -- a ledger is its own twin
      exact same_of_unseen (hrun ⟨rfl, rfl, rfl, rfl⟩).2.first
    · intro n hsame
      obtain ⟨hanswers, htwins⟩ := hrun hsame
      exact ⟨hanswers, sameIn_of_twins htwins⟩

/-- A note in a safe does not show when a public book is stored and listed, nor does the
    book when the safe is listed. -/
theorem private_data_is_isolated_safe :
    let S := Store.inMemory KeyTransformer.identity PayloadTransformer.identity {}
    let run := runAll fun request : AnyRequest _ => (request.perform S).answer
    let books : List (Σ α : Type, AnyRequest α) :=
      [⟨_, .stored (.entry (.put .world (.given ⟨["BOOK", "1"]⟩) Codec.text "Dune"))⟩,
        ⟨_, .scan (.list (.given ⟨["BOOK"]⟩) Codec.text)⟩]
    let safe : List (Σ α : Type, AnyRequest α) :=
      [⟨_, .scan (.listPrivate "safe" .publicKeys (.given ⟨["BOOK"]⟩) Codec.text)⟩]
    let entry (payload : Bytes) := (∅ : OrderedMap Bytes).insert (Key.spell ⟨["BOOK", "1"]⟩) payload
    let note : Memory := { collections := (∅ : OrderedMap _).insert "safe" (entry [110]) }
    let book (title : Bytes) : Memory := { note with world := entry title }
    (run books note).1 = (run books Memory.empty).1 ∧
      (run safe (book [68])).1 = (run safe (book [69])).1 := by
  intro S run books safe entry note book
  have hbooks : ∀ request ∈ books, request.2.partition = .world := by
    simp only [books, List.forall_mem_cons]
    exact ⟨rfl, rfl, List.forall_mem_nil _⟩
  have hsafe : ∀ request ∈ safe, request.2.partition = .collection "safe" := by
    simp only [safe, List.forall_mem_cons]
    exact ⟨rfl, List.forall_mem_nil _⟩
  have hpublic := (private_data_is_isolated KeyTransformer.identity PayloadTransformer.identity {}
    books).1 hbooks note Memory.empty ⟨rfl, rfl, rfl, rfl, rfl, rfl, rfl⟩
  have hprivate := ((private_data_is_isolated KeyTransformer.identity PayloadTransformer.identity {}
    safe).2 "safe" hsafe (book [68])).2 (book [69]) ⟨rfl, rfl, rfl, rfl⟩
  exact ⟨hpublic.1, hprivate.1⟩

end EntityStore
