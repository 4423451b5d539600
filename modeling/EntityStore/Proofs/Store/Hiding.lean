/-
  EntityStore/Proofs/Store/Hiding.lean
  ====================================
  **Hiding keys behind digests is transparent.**

  One run is made twice, on a store that keeps keys as they are and on the same store
  behind hidden keys.  The two ledgers stay related (`Memory.Hidden`): under each hidden
  key stands what stands under the key itself, with the same history, and there is
  nothing else.  From this the answers agree, request by request (`KeyedRequest.agree`);
  only the order of a listing is another, since digests are ordered in their own way.
-/
import EntityStore.Proofs.Store.HiddenPlans
import EntityStore.Proofs.Store.Journal

namespace EntityStore

open EntityStore.Action

/-! ### Requests -/

/-- A request that names one key: about an entry or a key reference, a listing of the
    public entries under a key, or the history of a key. -/
inductive KeyedRequest : Type → Type 1 where
  | stored {α : Type} (request : StoreRequest α) : KeyedRequest α
  | list {α : Type} (source : KeySource) (codec : Codec α) : KeyedRequest (List α)
  | history {α : Type} (source : KeySource) (codec : Codec α) :
    KeyedRequest (List (HistoryEntry α))

namespace KeyedRequest

variable {α : Type}

def perform {σ : Type} (S : Store σ) : KeyedRequest α → Action σ α
  | .stored request => request.perform S
  | .list source codec => S.list source codec
  | .history source codec => S.history source codec

/-- The key that a request names. -/
def source : KeyedRequest α → KeySource
  | .stored request => request.target.2
  | .list source _ | .history source _ => source

/-- The primary key that a request stores. -/
def primaryKey? : KeyedRequest α → Option Key
  | .stored (.keyRef request) => request.ref?.map KeyRef.primaryKey
  | _ => none

/-- The key that a request names has used parts, and so has the primary key that it
    stores, as it is read back. -/
structure Uses {σ : Type} (S : Store σ) (used : Set String) (request : KeyedRequest α) : Prop where
  source : request.source.Uses used
  primaryKey {key found : Key} : request.primaryKey? = some key → S.ReadsBack key found →
    found.Uses used

/-- How the values of two successful answers are related: a listing may come in another
    order, and everything else is the same. -/
def Same : KeyedRequest α → α → α → Prop
  | .list _ _ => List.Perm
  | .stored _ | .history _ _ => Eq

end KeyedRequest

/-! ### Hidden ledgers -/

namespace Memory

/-- Two ledgers with the same entries and histories, on the second under hidden keys. -/
structure Hidden (S : Store Memory) (used : Set String) (m n : Memory) : Prop where
  quiet : m.IsQuiet
  quiet' : n.IsQuiet
  spelled : m.IsSpelled
  spelled' : n.IsSpelled
  stamp_eq : n.stamp = m.stamp
  log_eq {key : Key} (hkey : key.Uses used) (hparts : key.parts ≠ []) :
    n.log key.hide.spell = m.log key.spell
  contents : m.contents.Hidden used n.contents
  refs : m.contents.RefsUse S used

variable {S : Store Memory} {used : Set String}

theorem hidden_fresh (richQueries : Bool) (txId : String) (timestamp : Int) :
    (fresh richQueries txId timestamp).Hidden S used (fresh richQueries txId timestamp) where
  quiet := isQuiet_fresh richQueries txId timestamp
  quiet' := isQuiet_fresh richQueries txId timestamp
  spelled := isSpelled_fresh richQueries txId timestamp
  spelled' := isSpelled_fresh richQueries txId timestamp
  stamp_eq := rfl
  log_eq _ _ := rfl
  contents := by
    rw [contents_fresh]
    exact Contents.hidden_empty
  refs := by
    rw [contents_fresh]
    intro key payload found _ hlive
    cases hlive

end Memory

section Steps

variable {S : Store Memory} {used : Set String} {m n : Memory} {c d : Contents}

theorem hide_eq_iff_of_change (hdigests : Set.InjOn KeyTransformer.digestPart used)
    {a b : Mutation} (hab : a.Hidden used b) {key : Key} (hkey : key.Uses used) :
    b.key = key.hide ↔ a.key = key := by
  rw [hab.key_eq]
  exact Key.hide_inj hdigests hab.uses hkey

theorem Contents.Hidden.apply (hdigests : Set.InjOn KeyTransformer.digestPart used)
    (h : c.Hidden used d) {a b : Mutation} (hab : a.Hidden used b) :
    (c.apply a).Hidden used (d.apply b) where
  same {key} hkey p := by
    have hsame : b.key.parts = key.hide.parts ↔ a.key.parts = key.parts := by
      have hkeys := hide_eq_iff_of_change hdigests hab hkey
      rcases key with ⟨parts⟩
      exact ⟨fun heq => congrArg Key.parts (hkeys.mp (congrArg Key.mk heq)),
        fun heq => congrArg Key.parts (hkeys.mpr (congrArg Key.mk heq))⟩
    simp only [Contents.apply, hab.partition_eq, hab.payload_eq, hsame, h.same hkey]
  only {p key payload} hlive := by
    by_cases hsame : a.partition = p ∧ a.key.parts = key.parts
    · have hkey : a.key = key := congrArg Key.mk hsame.2
      rw [← hkey]
      exact hab.uses
    · rw [Contents.apply_other hsame] at hlive
      exact h.only hlive
  every {p key payload} hlive := by
    by_cases hsame : b.partition = p ∧ b.key.parts = key.parts
    · have hkey : b.key = key := congrArg Key.mk hsame.2
      exact ⟨a.key, hab.uses, hab.key_eq.symm.trans hkey⟩
    · rw [Contents.apply_other hsame] at hlive
      exact h.every hlive

theorem Memory.Hidden.apply (hdigests : Set.InjOn KeyTransformer.digestPart used)
    (h : m.Hidden S used n) {a b : Mutation} (hab : a.Hidden used b)
    (hrefs : (m.contents.apply a).RefsUse S used) : (m.apply a).Hidden S used (n.apply b) where
  quiet := h.quiet.apply a
  quiet' := h.quiet'.apply b
  spelled := h.spelled.apply a
  spelled' := h.spelled'.apply b
  stamp_eq := by rw [Memory.stamp_apply, Memory.stamp_apply, h.stamp_eq]
  log_eq {key} hkey hparts := by
    have hsame : b.key.spell = key.hide.spell ↔ a.key.spell = key.spell := by
      rw [Key.spell_inj b.storable (hkey.isStorable_hide hparts),
        Key.spell_inj a.storable (hkey.isStorable hparts), hide_eq_iff_of_change hdigests hab hkey]
    simp only [Memory.log_apply, hab.partition_eq, hab.payload_eq, hsame, h.stamp_eq,
      h.log_eq hkey hparts]
  contents := by
    rw [Memory.contents_apply, Memory.contents_apply]
    exact h.contents.apply hdigests hab
  refs := by
    rw [Memory.contents_apply]
    exact hrefs

/-- Reading leaves two ledgers related. -/
theorem Memory.Hidden.of_data (h : m.Hidden S used n) {m' n' : Memory} (hm : m'.data = m.data)
    (hn : n'.data = n.data) (hquiet : m'.IsQuiet) (hquiet' : n'.IsQuiet) :
    m'.Hidden S used n' where
  quiet := hquiet
  quiet' := hquiet'
  spelled := (Memory.eq_of_data Memory.IsSpelled (fun _ => rfl) hm).mpr h.spelled
  spelled' := (Memory.eq_of_data Memory.IsSpelled (fun _ => rfl) hn).mpr h.spelled'
  stamp_eq := by
    rw [Memory.eq_of_data Memory.stamp (fun _ => rfl) hm,
      Memory.eq_of_data Memory.stamp (fun _ => rfl) hn, h.stamp_eq]
  log_eq hkey hparts := by
    rw [Memory.eq_of_data Memory.log (fun _ => rfl) hm,
      Memory.eq_of_data Memory.log (fun _ => rfl) hn, h.log_eq hkey hparts]
  contents := by
    rw [Memory.eq_of_data Memory.contents (fun _ => rfl) hm,
      Memory.eq_of_data Memory.contents (fun _ => rfl) hn]
    exact h.contents
  refs := by
    rw [Memory.eq_of_data Memory.contents (fun _ => rfl) hm]
    exact h.refs

/-- A request leaves the references leading to keys with used parts. -/
theorem refsUse_apply (hkeys : S.keys = KeyTransformer.identity) {α : Type}
    {request : StoreRequest α} (huses : (KeyedRequest.stored request).Uses S used)
    (hrefs : c.RefsUse S used) {answer : α} {change : Mutation}
    (h : request.plan S c = .ok (answer, some change)) : (c.apply change).RefsUse S used := by
  intro key payload found hname hlive hfound
  -- Only the row that changes can break the property, and only when it lies in the namespace of
  -- references.
  by_cases hsame : change.partition = .world ∧ change.key.parts = key.parts
  · have hkey : change.key = key := congrArg Key.mk hsame.2
    have hset : change.payload? = some payload := by
      rw [← hlive, ← hsame.1, ← hkey, Contents.apply_same]
    cases request with
    | entry request =>
      -- Entry requests are kept out of that namespace by the guard.
      obtain ⟨place, hplace, -, hplaced⟩ := EntryRequest.plan_changesAt h
      obtain ⟨hlocate, hwritable⟩ := Store.locateWritable_eq_ok_iff.mp hplace
      have hstored := (Store.locate_eq_ok hlocate).2
      rw [hkeys] at hstored
      have horigin : place.origin = key :=
        (Except.ok.inj hstored).trans (hplaced.symm.trans hkey)
      rw [horigin] at hwritable
      exact absurd hname hwritable
    | keyRef request =>
      -- A reference request writes the payload of its own primary key, which is a used one, or it
      -- deletes.
      rcases KeyRefRequest.plan_eq_change h with ⟨ref, href, hput⟩ | hdelete
      · obtain ⟨place, -, hput⟩ := bind_eq_ok_iff.mp hput
        obtain ⟨-, -, written, hwritten, hpayload⟩ := EntryRequest.putAt_eq_ok hput
        cases hpayload.symm.trans hset
        refine huses.primaryKey ?_ ⟨payload, hwritten, hfound⟩
        rw [KeyedRequest.primaryKey?, href]
        rfl
      · obtain ⟨place, -, hdelete⟩ := bind_eq_ok_iff.mp hdelete
        cases (EntryRequest.change_eq_ok hdelete).2.2.symm.trans hset
  · rw [Contents.apply_other hsame] at hlive
    exact hrefs key payload found hname hlive hfound

theorem StoreRequest.agree_plan (hkeys : S.keys = KeyTransformer.identity)
    (h : c.Hidden used d) (hrefs : c.RefsUse S used) {α : Type} (request : StoreRequest α)
    (huses : request.target.2.Uses used) :
    Agree (Planned used) (request.plan S c) (request.plan S.hiding d) := by
  cases request with
  | entry request => exact request.agree_plan hkeys h huses
  | keyRef request => exact request.agree_plan hkeys h hrefs huses

variable (hS : S.ledger = Memory.accessor) (hkeys : S.keys = KeyTransformer.identity)
  (hdigests : Set.InjOn KeyTransformer.digestPart used)

include hS hkeys hdigests

theorem StoreRequest.agree {α : Type} (request : StoreRequest α)
    (huses : (KeyedRequest.stored request).Uses S used) (h : m.Hidden S used n) :
    Agree Eq ((request.perform S).answer m).1 ((request.perform S.hiding).answer n).1 ∧
      ((request.perform S).answer m).2.Hidden S used ((request.perform S.hiding).answer n).2 := by
  have hplans := request.agree_plan hkeys h.contents h.refs huses.source
  rw [request.follows hS m h.quiet, request.follows (S := S.hiding) hS n h.quiet']
  unfold Plan.onMemory
  revert hplans
  generalize hplan : request.plan S m.contents = planned
  generalize request.plan S.hiding n.contents = hidden
  intro hplans
  cases hplans with
  | error hkind => exact ⟨.error hkind, h⟩
  | @ok a b hsame =>
    obtain ⟨answer, change?⟩ := a
    obtain ⟨answer', change?'⟩ := b
    obtain ⟨hanswer, hchange⟩ := hsame
    cases hchange with
    | none => exact ⟨.ok hanswer, h⟩
    | some hab => exact ⟨.ok hanswer, h.apply hdigests hab (refsUse_apply hkeys huses h.refs hplan)⟩

end Steps

/-! ### Listings -/

section Listings

variable {S : Store Memory} {used : Set String} {m n : Memory} {α : Type}

/-- An entry of a ledger under its hidden key. -/
def hideEntry (entry : Key × Bytes) : Key × Bytes := (entry.1.hide, entry.2)

/-- **The hidden entries under a hidden prefix** are the entries under the prefix, in
    another order. -/
theorem perm_under (hdigests : Set.InjOn KeyTransformer.digestPart used)
    {c d : Contents} (h : c.Hidden used d) {root : Key} (hroot : root.Uses used)
    {entries hidden : List (Key × Bytes)} (hsorted : entries.Pairwise (fun a b => a.1 < b.1))
    (hsorted' : hidden.Pairwise (fun a b => a.1 < b.1))
    (hmem : ∀ key payload, (key, payload) ∈ entries ↔
      c .world key.parts = some payload ∧ 2 ≤ key.parts.length ∧ root.parts <+: key.parts)
    (hmem' : ∀ key payload, (key, payload) ∈ hidden ↔
      d .world key.parts = some payload ∧ 2 ≤ key.parts.length ∧
        root.hide.parts <+: key.parts) :
    (entries.map hideEntry).Perm hidden := by
  have hne {a b : Key × Bytes} (hlt : a.1 < b.1) : a.1 ≠ b.1 := fun heq =>
    List.lt_irrefl a.1.parts (by rw [heq] at hlt ⊢; exact hlt)
  have hnodup : (entries.map hideEntry).Nodup := by
    rw [List.Nodup, List.pairwise_map]
    refine hsorted.imp_of_mem fun {a b} ha hb hlt heq => ?_
    have huses (entry : Key × Bytes) (hentry : entry ∈ entries) : entry.1.Uses used :=
      h.only ((hmem entry.1 entry.2).mp hentry).1
    exact hne hlt ((Key.hide_inj hdigests (huses a ha) (huses b hb)).mp (Prod.mk.inj heq).1)
  have hnodup' : hidden.Nodup := hsorted'.imp fun hlt heq => hne hlt (congrArg Prod.fst heq)
  -- Neither list repeats a row, so that they have the same members is enough.
  refine (List.perm_ext_iff_of_nodup hnodup hnodup').mpr ?_
  rintro ⟨key, payload⟩
  rw [hmem', List.mem_map]
  constructor
  · rintro ⟨entry, hentry, hsame⟩
    obtain ⟨rfl, rfl⟩ := Prod.mk.inj hsame
    obtain ⟨hlive, hmany, hunder⟩ := (hmem entry.1 entry.2).mp hentry
    have huses := h.only hlive
    refine ⟨(h.same huses .world).trans hlive, ?_, ?_⟩
    · rw [Key.length_hide]
      exact hmany
    · exact (Key.hide_prefix_iff hdigests hroot huses).mpr hunder
  · rintro ⟨hlive, hmany, hunder⟩
    obtain ⟨origin, huses, rfl⟩ := h.every hlive
    rw [h.same huses] at hlive
    rw [Key.length_hide] at hmany
    exact ⟨(origin, payload), (hmem origin payload).mpr
      ⟨hlive, hmany, (Key.hide_prefix_iff hdigests hroot huses).mp hunder⟩, rfl⟩

/-- What a listing makes of an entry. -/
def Store.readEntry (S : Store Memory) (codec : Codec α) (entry : Key × Bytes) :
    Except StoreError α := S.decodeRow codec entry.1.spell entry.2

/-- The key of an entry is only told in failures. -/
theorem agree_readEntry (S : Store Memory) (codec : Codec α) {a b : Key × Bytes}
    (h : a.2 = b.2) : Agree Eq (S.readEntry codec a) (S.readEntry codec b) := by
  unfold Store.readEntry Store.decodeRow
  rw [h]
  cases S.decodeValue codec b.2 with
  | ok value => exact .ok rfl
  | error error => exact .error rfl

theorem Store.kind_of_readEntry (S : Store Memory) {codec : Codec α} {entry : Key × Bytes}
    {error : StoreError} (h : S.readEntry codec entry = .error error) :
    error.kind = .unexpected := by
  unfold readEntry decodeRow at h
  cases hdecoded : S.decodeValue codec entry.2 with
  | ok value =>
    rw [hdecoded] at h
    cases h
  | error cause =>
    rw [hdecoded] at h
    cases h
    rfl

/-- The prefixes under which the two stores list. -/
theorem agree_listingPrefix (hkeys : S.keys = KeyTransformer.identity) {source : KeySource}
    (hsource : source.Uses used) :
    Agree (fun a b => ∃ root : Key, root.Uses used ∧ root.parts = a.1 :: a.2 ∧
        root.hide.parts = b.1 :: b.2)
      (S.listingPrefix source) (S.hiding.listingPrefix source) := by
  unfold Store.listingPrefix
  cases hnormal : source.normalize with
  | error error => exact .error rfl
  | ok root =>
    have huses := hsource root hnormal
    rcases root with ⟨_ | ⟨objectType, attributes⟩⟩
    · rw [hkeys]
      exact .error rfl
    · have hplain := Composite.checkParts_eq_ok_iff.mpr huses.plain
      have hplain' := Composite.checkParts_eq_ok_iff.mpr huses.plain_hide
      simp only [Key.hide_cons] at hplain'
      simp only [hkeys, Store.hiding, KeyTransformer.identity, KeyTransformer.hashed, bind,
        Except.bind, Composite.encode, hplain, hplain']
      exact .ok ⟨⟨objectType :: attributes⟩, huses, rfl, rfl⟩

theorem answer_list_of_error {source : KeySource} {codec : Codec α} {error : StoreError}
    (h : S.listingPrefix source = .error error) :
    (S.list source codec).answer m = (.error error, m) := by
  rw [Store.list, answer_observe, answer_ofExcept_bind, h]

theorem agree_list (hS : S.ledger = Memory.accessor) (hkeys : S.keys = KeyTransformer.identity)
    (hdigests : Set.InjOn KeyTransformer.digestPart used) (h : m.Hidden S used n)
    {source : KeySource} (hsource : source.Uses used) (codec : Codec α) :
    Agree List.Perm ((S.list source codec).answer m).1
      ((S.hiding.list source codec).answer n).1 := by
  have hprefixes := agree_listingPrefix hkeys hsource
  generalize hlisted : S.listingPrefix source = listed at hprefixes
  generalize hlisted' : S.hiding.listingPrefix source = listed' at hprefixes
  cases hprefixes with
  | error hkind =>
    rw [answer_list_of_error hlisted, answer_list_of_error hlisted']
    exact .error hkind
  | @ok a b hroots =>
    obtain ⟨root, hroot, hparts, hparts'⟩ := hroots
    obtain ⟨entries, hrows, hsorted, hmem⟩ :=
      rows_of_prefix h.spelled (plain_of_listingPrefix hlisted)
    obtain ⟨hidden, hrows', hsorted', hmem'⟩ :=
      rows_of_prefix h.spelled' (plain_of_listingPrefix hlisted')
    rw [← hparts] at hmem
    rw [← hparts'] at hmem'
    have hperm := perm_under hdigests h.contents hroot hsorted hsorted' hmem hmem'
    rw [answer_list_under hS h.quiet hlisted, hrows, List.mapM_map,
      answer_list_under (S := S.hiding) hS h.quiet' hlisted', hrows', List.mapM_map]
    -- First the entries are read under hidden keys in the order they had, which changes no value,
    -- and then the hidden rows are put in their own order.
    have hread : Agree Eq (entries.mapM (S.readEntry codec))
        ((entries.map hideEntry).mapM (S.readEntry codec)) :=
      agree_mapM fun entry _ => agree_readEntry S codec rfl
    have hreorder : Agree List.Perm ((entries.map hideEntry).mapM (S.readEntry codec))
        (hidden.mapM (S.readEntry codec)) :=
      agree_mapM_perm (fun _ _ => S.kind_of_readEntry) hperm
    exact hread.trans hreorder fun _ _ _ hsame hperm => hsame ▸ hperm

end Listings

/-! ### Histories -/

section Histories

variable {S : Store Memory} {used : Set String} {m n : Memory} {α : Type}

theorem answer_history_of_error {source : KeySource} {codec : Codec α} {error : StoreError}
    (h : S.resolve source = .error error) :
    (S.history source codec).answer m = (.error error, m) := by
  rw [Store.history, answer_observe, answer_ofExcept_bind, h]

theorem agree_history (hS : S.ledger = Memory.accessor)
    (hkeys : S.keys = KeyTransformer.identity) (h : m.Hidden S used n) {source : KeySource}
    (hsource : source.Uses used) (codec : Codec α) :
    Agree Eq ((S.history source codec).answer m).1
      ((S.hiding.history source codec).answer n).1 := by
  have hresolve := S.resolve_eq (by rw [hS]; rfl) source
  have hresolve' := S.hiding.resolve_eq (by rw [Store.hiding, hS]; rfl) source
  have hplaces := agree_locate hkeys hsource
  generalize S.locate source = located at hplaces hresolve
  generalize S.hiding.locate source = located' at hplaces hresolve'
  cases hplaces with
  | error hkind =>
    rw [answer_history_of_error hresolve, answer_history_of_error hresolve']
    exact .error hkind
  | @ok p q hpq =>
    -- The journals were related at keys with parts only, and a key that resolves has some.
    have hparts : p.origin.parts ≠ [] := by
      intro hempty
      have hstorable := p.storable
      rw [hpq.key_eq, Key.IsStorable, Key.check, hempty] at hstorable
      cases hstorable
    have hlog : n.log q.resolved.encoded = m.log p.resolved.encoded := by
      show n.log q.key.spell = m.log p.key.spell
      rw [hpq.hide_eq, hpq.key_eq, h.log_eq hpq.uses hparts]
    have hentry : S.hiding.historyEntry q.resolved codec = S.historyEntry p.resolved codec := by
      funext modification
      unfold Store.historyEntry
      rw [show q.resolved.origin = p.resolved.origin from hpq.origin_eq]
      rfl
    rw [answer_history hS h.quiet hresolve, answer_history (S := S.hiding) hS h.quiet' hresolve',
      hlog, hentry]
    exact Agree.of_eq rfl

end Histories

/-! ### Runs -/

section Runs

variable {S : Store Memory} {used : Set String} {m n : Memory}
  (hS : S.ledger = Memory.accessor) (hkeys : S.keys = KeyTransformer.identity)
  (hdigests : Set.InjOn KeyTransformer.digestPart used)

include hS hkeys hdigests

/-- **One request answers the same on two related ledgers**, and leaves them related. -/
theorem KeyedRequest.agree {α : Type} (request : KeyedRequest α) (huses : request.Uses S used)
    (h : m.Hidden S used n) :
    Agree request.Same ((request.perform S).answer m).1
        ((request.perform S.hiding).answer n).1 ∧
      ((request.perform S).answer m).2.Hidden S used ((request.perform S.hiding).answer n).2 := by
  have hscanned (scan : ScanRequest α) :
      ((scan.perform S).answer m).2.Hidden S used ((scan.perform S.hiding).answer n).2 :=
    h.of_data (scan.data_perform hS m) (scan.data_perform (S := S.hiding) hS n)
      (scan.isQuiet_perform hS h.quiet) (scan.isQuiet_perform (S := S.hiding) hS h.quiet')
  cases request with
  | stored request => exact request.agree hS hkeys hdigests huses h
  | list source codec =>
    exact ⟨agree_list hS hkeys hdigests h huses.source codec, hscanned (.list source codec)⟩
  | history source codec =>
    exact ⟨agree_history hS hkeys h huses.source codec, hscanned (.history source codec)⟩

/-- **A run leaves two related ledgers related.** -/
theorem hidden_run (requests : List (Σ α : Type, KeyedRequest α))
    (huses : ∀ request ∈ requests, request.2.Uses S used) (h : m.Hidden S used n) :
    (runAll (fun r => (r.perform S).answer) requests m).2.Hidden S used
      (runAll (fun r => (r.perform S.hiding).answer) requests n).2 := by
  induction requests generalizing m n with
  | nil => exact h
  | cons request rest ih =>
    obtain ⟨hrequest, hrest⟩ := List.forall_mem_cons.mp huses
    obtain ⟨α, request⟩ := request
    exact ih hrest (request.agree hS hkeys hdigests hrequest h).2

end Runs

/-- Where payloads come back as they were, so do the primary keys. -/
theorem KeyedRequest.uses_of_lossless {S : Store Memory} (hpayloads : S.payloads.IsLossless)
    {used : Set String} {α : Type} {request : KeyedRequest α} (hsource : request.source.Uses used)
    (hprimary : ∀ key, request.primaryKey? = some key → key.Uses used) : request.Uses S used where
  source := hsource
  primaryKey {key found} hkey hfound := by
    rw [hfound.eq_of_lossless hpayloads]
    exact hprimary key hkey

/-- **Hiding keys behind digests is transparent.**  Make a run of requests on a store over
    an empty ledger that keeps keys as they are, and the same run where the parts of keys
    behind the namespace are replaced by their digests.  Let the keys that are named, and
    the primary keys that are stored and read back, be of plain parts that the digests
    tell apart.  Then each request of the run succeeds in both or fails in both with one
    kind of failure, and the values are the same; only a listing may come in another
    order. -/
theorem hiding_keys_is_transparent (payloads : PayloadTransformer) (config : Config)
    (richQueries : Bool) (txId : String) (timestamp : Int) (used : Set String)
    (hdigests : Set.InjOn KeyTransformer.digestPart used)
    (requests : List (Σ α : Type, KeyedRequest α))
    (huses : ∀ request ∈ requests,
      request.2.Uses (Store.inMemory KeyTransformer.identity payloads config) used) :
    let S := Store.inMemory KeyTransformer.identity payloads config
    let H := Store.inMemory KeyTransformer.hashed payloads config
    ∀ (before after : List (Σ α : Type, KeyedRequest α)) (α : Type) (request : KeyedRequest α),
      requests = before ++ ⟨α, request⟩ :: after →
        let ledger := (runAll (fun r => (r.perform S).answer) before
          (Memory.fresh richQueries txId timestamp)).2
        let hidden := (runAll (fun r => (r.perform H).answer) before
          (Memory.fresh richQueries txId timestamp)).2
        Agree request.Same ((request.perform S).answer ledger).1
          ((request.perform H).answer hidden).1 := by
  intro S H before after α request hrequests ledger hidden
  rw [hrequests] at huses
  have hbefore : ∀ request ∈ before, request.2.Uses S used := fun request hmem =>
    huses request (List.mem_append_left _ hmem)
  have hrequest : request.Uses S used := huses ⟨α, request⟩ (by simp)
  have hledgers : ledger.Hidden S used hidden := hidden_run rfl rfl hdigests before hbefore
    (Memory.hidden_fresh richQueries txId timestamp)
  exact (request.agree rfl rfl hdigests hrequest hledgers).1

/-- Two books are listed alike with and without digests, behind an insertion that both
    stores refuse. -/
theorem hiding_keys_is_transparent_books :
    let S := Store.inMemory KeyTransformer.identity PayloadTransformer.identity {}
    let H := Store.inMemory KeyTransformer.hashed PayloadTransformer.identity {}
    let stored : List (Σ α : Type, KeyedRequest α) :=
      [⟨Unit, .stored (.entry (.put .world (.given ⟨["book", "1"]⟩) Codec.text "Dune"))⟩,
        ⟨Unit, .stored (.entry (.put .world (.given ⟨["book", "2"]⟩) Codec.text "Emma"))⟩,
        ⟨Unit, .stored (.entry (.insert .world (.given ⟨["book", "1"]⟩) Codec.text "Ulysses"))⟩]
    let books : KeyedRequest (List String) := .list (.given ⟨["book"]⟩) Codec.text
    Agree List.Perm
      ((books.perform S).answer
        (runAll (fun r => (r.perform S).answer) stored (Memory.fresh false "tx" 0)).2).1
      ((books.perform H).answer
        (runAll (fun r => (r.perform H).answer) stored (Memory.fresh false "tx" 0)).2).1 := by
  intro S H stored books
  -- The digests of the two identifiers are computed here; no other part is hidden in this run.
  have hdigests : Set.InjOn KeyTransformer.digestPart {"1", "2"} := by
    have hne : KeyTransformer.digestPart "1" ≠ KeyTransformer.digestPart "2" := by decide +kernel
    rintro a (rfl | rfl) b (rfl | rfl) hsame
    · rfl
    · exact absurd hsame hne
    · exact absurd hsame.symm hne
    · rfl
  have hkey (parts : List String) (hplain : ∀ part ∈ parts, Composite.IsPlain part)
      (hused : ∀ part ∈ parts.tail, part ∈ ({"1", "2"} : Set String)) :
      (KeySource.given ⟨parts⟩).Uses {"1", "2"} := by
    rintro _ ⟨⟩
    exact ⟨hplain, hused⟩
  have hbook (id : String) (hplain : Composite.IsPlain id) (hid : id ∈ ({"1", "2"} : Set String)) :
      (KeySource.given ⟨["book", id]⟩).Uses {"1", "2"} := by
    refine hkey _ ?_ ?_
    · exact List.forall_mem_cons.mpr ⟨by decide +kernel, by simpa using hplain⟩
    · simpa using hid
  have huses : ∀ request ∈ stored ++ [⟨_, books⟩], request.2.Uses S {"1", "2"} := by
    simp only [stored, List.cons_append, List.nil_append, List.forall_mem_cons]
    refine ⟨?_, ?_, ?_, ?_, nofun⟩
    all_goals refine KeyedRequest.uses_of_lossless PayloadTransformer.isLossless_identity ?_ nofun
    · exact hbook "1" (by decide +kernel) (.inl rfl)
    · exact hbook "2" (by decide +kernel) (.inr rfl)
    · exact hbook "1" (by decide +kernel) (.inl rfl)
    · exact hkey ["book"] (by decide +kernel) nofun
  exact hiding_keys_is_transparent PayloadTransformer.identity {} false "tx" 0 {"1", "2"} hdigests
    (stored ++ [⟨_, books⟩]) huses stored [] _ books rfl

end EntityStore
