/-
  EntityStore/Proofs/Ledger/View.lean
  ===================================
  **Two ledgers in memory under one view.**  A view divides what a ledger holds into a
  part that is seen and a part that is not.  Two ledgers are twins (`Memory.Twins`) if
  what is seen of them is the same, the same failures are pending, and what is unseen
  has not changed since the beginning.  Their cursors may bear other numbers.  Each call
  that stays on the seen side runs alike on twins and leaves twins.
-/
import EntityStore.Proofs.Ledger.Reading
import EntityStore.Proofs.Store.Alike

namespace EntityStore

open EntityStore.Action

variable {α γ ρ : Type}

namespace Memory

/-- What is seen of a ledger, and what is not.  Neither depends on cursors or pending
    failures. -/
structure View where
  {Seen Unseen : Type}
  seen : Memory → Seen
  unseen : Memory → Unseen
  seen_data (m : Memory) : seen m.data = seen m
  unseen_data (m : Memory) : unseen m.data = unseen m

/-- Ledgers `s` and `t`, which came from `m` and `n`, under a view; `X` relates their open
    cursors. -/
structure Twins (V : View) (m n : Memory) (X : List Nat → List Nat → Prop) (s t : Memory) :
    Prop where
  seen : V.seen s = V.seen t
  failingReads : s.failingReads = t.failingReads
  failingRow : s.failingRow = t.failingRow
  first : V.unseen s = V.unseen m
  second : V.unseen t = V.unseen n
  cursors : X s.openCursors t.openCursors

/-- Any cursors may be open. -/
def anyCursors (_ _ : List Nat) : Prop := True

/-- Cursor `i` is open on the first ledger, and cursor `j` on the second. -/
def bothOpen (i j : Nat) (cursors cursors' : List Nat) : Prop := i ∈ cursors ∧ j ∈ cursors'

variable {V : View} {m n s t s' t' : Memory} {X Y : List Nat → List Nat → Prop}
  {K : ρ → ρ → Prop}

/-- Reading leaves twins: the data stays the same, and failures are used up in step. -/
theorem Twins.step (h : Twins V m n X s t) (hs : s'.data = s.data) (ht : t'.data = t.data)
    (hreads : s'.failingReads = t'.failingReads) (hrow : s'.failingRow = t'.failingRow)
    (hY : Y s'.openCursors t'.openCursors) : Twins V m n Y s' t' where
  seen := by
    rw [eq_of_data V.seen V.seen_data hs, eq_of_data V.seen V.seen_data ht]
    exact h.seen
  failingReads := hreads
  failingRow := hrow
  first := (eq_of_data V.unseen V.unseen_data hs).trans h.first
  second := (eq_of_data V.unseen V.unseen_data ht).trans h.second
  cursors := hY

theorem Twins.forget (h : Twins V m n X s t) : Twins V m n anyCursors s t :=
  h.step rfl rfl h.failingReads h.failingRow trivial

/-! ### Reading -/

/-- A read fails on both twins or on none, as long as its body does. -/
theorem alike_reading {Q : α → α → Memory → Memory → Prop} {body : Call Memory α}
    (h : Alike (Twins V m n anyCursors) (Twins V m n X) Q (call body) (call body)) :
    Alike (Twins V m n anyCursors) (Twins V m n X) Q (call (reading body))
      (call (reading body)) := by
  intro s t hst
  have hbody := h s t hst
  have hreads := hst.failingReads
  unfold call reading at *
  cases hs : s.failingReads with
  | zero =>
    rw [← hreads, hs]
    exact hbody
  | succ count =>
    rw [← hreads, hs]
    exact .failure (hst.step rfl rfl rfl hst.failingRow trivial)

theorem alike_read {p : Partition} {key : String}
    (h : ∀ s t, V.seen s = V.seen t → s.stored? p key = t.stored? p key) :
    Alike (Twins V m n anyCursors) (Twins V m n X) (Equal (Twins V m n X)) (call (read p key))
      (call (read p key)) := by
  refine alike_reading ?_
  intro s t hst
  have hpayload : (s.stored? p key).getD [] = (t.stored? p key).getD [] := by
    rw [h s t hst.seen]
  exact .value ⟨hpayload, hst⟩

/-! ### Cursors -/

theorem forall₂_failingAfter {rows rows' : List ρ} (h : List.Forall₂ K rows rows')
    (failing : Option Nat) :
    List.Forall₂ (ReadAlike K) (failingAfter rows failing) (failingAfter rows' failing) := by
  have hmap {rows rows' : List ρ} (h : List.Forall₂ K rows rows') :
      List.Forall₂ (ReadAlike K) (rows.map .ok) (rows'.map .ok) := by
    rw [List.forall₂_map_left_iff, List.forall₂_map_right_iff]
    exact h.imp fun _ _ => .row
  cases failing with
  | none => exact hmap h
  | some count =>
    simp only [failingAfter, h.length_eq]
    by_cases hcount : count ≤ rows'.length
    · rw [if_pos hcount, if_pos hcount]
      exact List.rel_append (hmap (List.forall₂_take count h)) (.cons (.failure _) .nil)
    · rw [if_neg hcount, if_neg hcount]
      exact hmap h

theorem Twins.openCursor (h : Twins V m n X s t) {rows rows' : List ρ}
    (hrows : List.Forall₂ K rows rows') :
    List.Forall₂ (ReadAlike K) (s.openCursor rows).1.rows (t.openCursor rows').1.rows ∧
      Twins V m n (bothOpen (s.openCursor rows).1.id (t.openCursor rows').1.id)
        (s.openCursor rows).2 (t.openCursor rows').2 := by
  constructor
  · show List.Forall₂ (ReadAlike K) (failingAfter rows s.failingRow)
      (failingAfter rows' t.failingRow)
    rw [h.failingRow]
    exact forall₂_failingAfter hrows t.failingRow
  · exact h.step rfl rfl h.failingReads rfl ⟨List.mem_cons_self, List.mem_cons_self⟩

theorem Twins.openSame (h : Twins V m n X s t) (rows : List ρ) :
    List.Forall₂ (ReadAlike Eq) (s.openCursor rows).1.rows (t.openCursor rows).1.rows ∧
      Twins V m n (bothOpen (s.openCursor rows).1.id (t.openCursor rows).1.id)
        (s.openCursor rows).2 (t.openCursor rows).2 :=
  h.openCursor (List.forall₂_refl rows)

/-- The calls on open cursors run alike on twins. -/
theorem cursorsAlike (V : View) (m n : Memory) :
    accessor.CursorsAlike (Twins V m n anyCursors) fun i j => Twins V m n (bothOpen i j) where
  forget := Twins.forget
  touch i j := by
    intro s t hst
    simp only [accessor, call, touch, if_pos hst.cursors.1, if_pos hst.cursors.2]
    exact .value ⟨rfl, hst⟩
  close i j := by
    intro s t hst
    simp only [accessor, call, close, if_pos hst.cursors.1, if_pos hst.cursors.2]
    exact .value ⟨rfl, hst.step rfl rfl hst.failingReads hst.failingRow trivial⟩
  closed i j s t hst := by
    show Twins V m n anyCursors (close i s).2 (close j t).2
    refine hst.step (isReading_close i s).1 (isReading_close j t).1 ?_ ?_ trivial
    · unfold close
      split <;> split <;> exact hst.failingReads
    · unfold close
      split <;> split <;> exact hst.failingRow

/-- A scan runs alike if the rows in each range are related. -/
theorem alike_scan {K : Row → Row → Prop} {p : Partition}
    (h : ∀ s t start stop, V.seen s = V.seen t →
      List.Forall₂ K (s.rowsBetween p start stop) (t.rowsBetween p start stop))
    (objectType : String) (attributes : List String) :
    (Opening.scan p objectType attributes).Alike accessor (Twins V m n anyCursors)
      (fun i j => Twins V m n (bothOpen i j)) K := by
  refine alike_reading ?_
  intro s t hst
  unfold call
  cases hrange : Composite.range objectType attributes with
  | error error => exact .failure hst
  | ok bounds =>
    obtain ⟨hrows, hopen⟩ := hst.openCursor (h s t bounds.1 bounds.2 hst.seen)
    exact .value ⟨⟨hrows, rfl⟩, hopen⟩

/-! ### Point calls -/

/-- The entries of a partition are on the seen side: they are read off it, and writing
    them changes nothing else. -/
structure View.Holds (V : View) (p : Partition) : Prop where
  stored {s t : Memory} (h : V.seen s = V.seen t) (key : String) :
    s.stored? p key = t.stored? p key
  written {s t : Memory} (h : V.seen s = V.seen t) (key : String) (payload : Bytes) :
    V.seen (s.written p key payload) = V.seen (t.written p key payload)
  deleted {s t : Memory} (h : V.seen s = V.seen t) (key : String) :
    V.seen (s.deleted p key) = V.seen (t.deleted p key)
  unseen_written (s : Memory) (key : String) (payload : Bytes) :
    V.unseen (s.written p key payload) = V.unseen s
  unseen_deleted (s : Memory) (key : String) : V.unseen (s.deleted p key) = V.unseen s

/-- Changes that look the same and leave the unseen side alone make twins of twins. -/
theorem Twins.change (h : Twins V m n X s t) (hseen : V.seen s' = V.seen t')
    (hs : V.unseen s' = V.unseen s) (ht : V.unseen t' = V.unseen t)
    (hfirst : s'.setting = s.setting) (hsecond : t'.setting = t.setting) :
    Twins V m n anyCursors s' t' where
  seen := hseen
  failingReads := calc
    s'.failingReads = s.failingReads := (congrArg Memory.failingReads hfirst :)
    _ = t.failingReads := h.failingReads
    _ = t'.failingReads := (congrArg Memory.failingReads hsecond.symm :)
  failingRow := calc
    s'.failingRow = s.failingRow := (congrArg Memory.failingRow hfirst :)
    _ = t.failingRow := h.failingRow
    _ = t'.failingRow := (congrArg Memory.failingRow hsecond.symm :)
  first := hs.trans h.first
  second := ht.trans h.second
  cursors := trivial

theorem View.Holds.pointsAgree {p : Partition} (hV : V.Holds p) :
    accessor.PointsAgree (Twins V m n anyCursors) p where
  read key := alike_read fun s t h => hV.stored h key
  write key payload := by
    intro s t hst
    show Outcome.Alike _ _ (call (write p key payload) s) (call (write p key payload) t)
    by_cases hkey : key = ""
    · subst hkey
      exact .failure hst
    · unfold call
      rw [write_of_ne hkey, write_of_ne hkey]
      exact .value ⟨rfl, hst.change (hV.written hst.seen key payload)
        (hV.unseen_written s key payload) (hV.unseen_written t key payload)
        (setting_written s p key payload) (setting_written t p key payload)⟩
  delete key := by
    intro s t hst
    show Outcome.Alike _ _ (call (delete p key) s) (call (delete p key) t)
    by_cases hkey : key = ""
    · subst hkey
      exact .failure hst
    · unfold call
      rw [delete_of_ne hkey, delete_of_ne hkey]
      exact .value ⟨rfl, hst.change (hV.deleted hst.seen key) (hV.unseen_deleted s key)
        (hV.unseen_deleted t key) (setting_deleted s p key) (setting_deleted t p key)⟩

/-! ### The public view -/

/-- The public state is seen with everything about it, and no private collection is. -/
def publicView : View where
  Seen := Memory
  Unseen := OrderedMap (OrderedMap Bytes)
  seen m := { m.data with collections := ∅ }
  unseen m := m.collections
  seen_data _ := rfl
  unseen_data _ := rfl

/-- Whatever does not depend on the private collections is read off what is seen. -/
theorem eq_of_public {τ : Type} (part : Memory → τ)
    (hpart : ∀ m : Memory, part { m.data with collections := ∅ } = part m)
    (h : publicView.seen s = publicView.seen t) : part s = part t := by
  have hseen : part { s.data with collections := ∅ } = part { t.data with collections := ∅ } :=
    congrArg part h
  rw [← hpart s, ← hpart t, hseen]

theorem call_congr {first second : Call Memory α} {m : Memory} (h : first m = second m) :
    call first m = call second m := by
  unfold call
  rw [h]

theorem alike_runQuery (text : String) {body : DocumentQuery → List Row → Call Memory α}
    {Q : α → α → Memory → Memory → Prop}
    (h : ∀ query rows, Alike (Twins publicView m n anyCursors) (Twins publicView m n anyCursors) Q
      (call (body query rows)) (call (body query rows))) :
    Alike (Twins publicView m n anyCursors) (Twins publicView m n anyCursors) Q
      (call (runQuery text body)) (call (runQuery text body)) := by
  intro s t hst
  have hrich : s.richQueries = t.richQueries :=
    eq_of_public Memory.richQueries (fun _ => rfl) hst.seen
  cases hs : s.richQueries with
  | false =>
    simp only [call, runQuery, ← hrich, hs]
    exact .failure hst
  | true =>
    have hfirst : runQuery text body s = reading _ s := if_pos hs
    have hsecond : runQuery text body t = reading _ t := if_pos (hrich.symm.trans hs)
    rw [call_congr hfirst, call_congr hsecond]
    refine alike_reading ?_ s t hst
    -- the text is read alike by both, and the documents are those of the world
    intro s t hst
    have hdocuments : s.documents = t.documents :=
      eq_of_public Memory.documents (fun _ => rfl) hst.seen
    unfold call
    cases DocumentQuery.ofText text with
    | error error => exact .failure hst
    | ok query =>
      simp only [hdocuments]
      exact h query _ s t hst

theorem alike_publicOpening (opening : Opening γ ρ) (hworld : opening.partition = .world) :
    opening.Alike accessor (Twins publicView m n anyCursors)
      (fun i j => Twins publicView m n (bothOpen i j)) Eq := by
  have hrows {s t : Memory} (start stop : String) (h : publicView.seen s = publicView.seen t) :
      s.rowsBetween .world start stop = t.rowsBetween .world start stop :=
    eq_of_public (fun m => m.rowsBetween .world start stop) (fun _ => rfl) h
  -- each call looks at public rows or at the record of a key, and both twins have the same
  cases opening with
  | scan p objectType attributes =>
    cases hworld
    refine alike_scan ?_ objectType attributes
    intro s t start stop h
    rw [hrows start stop h]
    exact List.forall₂_refl _
  | scanPage objectType attributes pageSize bookmark =>
    refine alike_reading ?_
    intro s t hst
    unfold Action.call
    cases hrange : Composite.range objectType attributes with
    | error error => exact .failure hst
    | ok bounds =>
      cases hstart : pageStart bounds.1 bounds.2 bookmark with
      | error error =>
        simp only [hstart]
        exact .failure hst
      | ok start =>
        simp only [hstart, hrows start bounds.2 hst.seen]
        obtain ⟨hrows, hopen⟩ := hst.openSame _
        exact .value ⟨⟨hrows, rfl⟩, hopen⟩
  | history key =>
    refine alike_reading ?_
    intro s t hst
    have hlog : s.history.get? key = t.history.get? key :=
      eq_of_public (fun m => m.history.get? key) (fun _ => rfl) hst.seen
    unfold Action.call
    simp only [hlog]
    obtain ⟨hrows, hopen⟩ := hst.openSame _
    exact .value ⟨⟨hrows, rfl⟩, hopen⟩
  | query text =>
    simp only [Opening.Alike, Opening.call, accessor, Memory.query]
    refine alike_runQuery text ?_
    intro query rows s t hst
    obtain ⟨hrows, hopen⟩ := hst.openSame _
    exact .value ⟨⟨hrows, rfl⟩, hopen⟩
  | queryPage text pageSize bookmark =>
    simp only [Opening.Alike, Opening.call, accessor, Memory.queryPage]
    refine alike_runQuery text ?_
    intro query rows s t hst
    unfold Action.call openPage
    cases hoffset : pageOffset bookmark with
    | error error => exact .failure hst
    | ok offset =>
      obtain ⟨hrows, hopen⟩ := hst.openSame _
      exact .value ⟨⟨hrows, rfl⟩, hopen⟩

theorem publicView_holds : publicView.Holds .world where
  stored h key := eq_of_public (fun m => m.stored? .world key) (fun _ => rfl) h
  written h key payload := by
    -- Writing and then hiding the collections is writing where they are hidden already.
    have hwritten (m : Memory) : publicView.seen (m.written .world key payload) =
        Memory.written { m.data with collections := ∅ } .world key payload := by
      unfold written write writing
      split <;> rfl
    rw [hwritten, hwritten]
    exact congrArg (fun m : Memory => m.written .world key payload) h
  deleted h key := by
    have hdeleted (m : Memory) : publicView.seen (m.deleted .world key) =
        Memory.deleted { m.data with collections := ∅ } .world key := by
      unfold deleted delete writing
      split <;> rfl
    rw [hdeleted, hdeleted]
    exact congrArg (fun m : Memory => m.deleted .world key) h
  unseen_written s key payload := by
    unfold written write writing
    split <;> rfl
  unseen_deleted s key := by
    unfold deleted delete writing
    split <;> rfl

/-! ### The view of a private collection -/

/-- The entries of the collection are seen, and of the public state the keys alone. -/
def privateView (collection : String) : View where
  Seen := OrderedMap Bytes × List String
  Unseen := Memory × (String → Option (OrderedMap Bytes))
  seen m := (m.entries (.collection collection), m.world.entries.map Prod.fst)
  unseen m := ({ m.data with collections := ∅ },
    fun name => if name = collection then none else m.collections.get? name)
  seen_data _ := rfl
  unseen_data _ := rfl

section Private

variable (m) (collection key : String) (payload : Bytes)

theorem public_written :
    publicView.seen (m.written (.collection collection) key payload) = publicView.seen m := by
  unfold written write writing
  split <;> rfl

theorem public_deleted :
    publicView.seen (m.deleted (.collection collection) key) = publicView.seen m := by
  unfold deleted delete writing
  split
  · rfl
  · cases hentries : m.collections.get? collection with
    | none =>
      simp only [hentries]
    | some found =>
      simp only [hentries]
      rfl

theorem entries_written :
    (m.written (.collection collection) key payload).entries (.collection collection) =
      if key = "" then m.entries (.collection collection)
      else (m.entries (.collection collection)).insert key payload := by
  by_cases hkey : key = "" <;> simp [written, write, writing, hkey, entries]

theorem entries_deleted :
    (m.deleted (.collection collection) key).entries (.collection collection) =
      if key = "" then m.entries (.collection collection)
      else (m.entries (.collection collection)).erase key := by
  by_cases hkey : key = ""
  · simp [deleted, delete, writing, hkey]
  · cases hentries : m.collections.get? collection with
    | none =>
      -- nothing is there to be removed, and no collection is made
      simp only [deleted, delete, writing, if_neg hkey, hentries, entries]
      rfl
    | some found => simp [deleted, delete, writing, hkey, hentries, entries]

theorem others_written {name : String} (h : name ≠ collection) :
    (m.written (.collection collection) key payload).collections.get? name =
      m.collections.get? name := by
  by_cases hkey : key = "" <;> simp [written, write, writing, hkey, Ne.symm h]

theorem others_deleted {name : String} (h : name ≠ collection) :
    (m.deleted (.collection collection) key).collections.get? name =
      m.collections.get? name := by
  by_cases hkey : key = ""
  · simp [deleted, delete, writing, hkey]
  · cases hentries : m.collections.get? collection <;>
      simp [deleted, delete, writing, hkey, hentries, Ne.symm h]

end Private

theorem seen_of_public {collection : String} (hs : publicView.seen s' = publicView.seen s)
    (ht : publicView.seen t' = publicView.seen t)
    (hentries : s'.entries (.collection collection) = t'.entries (.collection collection))
    (h : (privateView collection).seen s = (privateView collection).seen t) :
    (privateView collection).seen s' = (privateView collection).seen t' := by
  have hkeys {m n : Memory} (h : publicView.seen m = publicView.seen n) :=
    eq_of_public (fun m => m.world.entries.map Prod.fst) (fun _ => rfl) h
  have hsame : s.world.entries.map Prod.fst = t.world.entries.map Prod.fst := congrArg Prod.snd h
  exact Prod.ext hentries ((hkeys hs).trans (hsame.trans (hkeys ht).symm))

theorem unseen_of_public {collection : String} (hs : publicView.seen s' = publicView.seen s)
    (hothers : ∀ name ≠ collection, s'.collections.get? name = s.collections.get? name) :
    (privateView collection).unseen s' = (privateView collection).unseen s := by
  refine Prod.ext hs (funext fun name => ?_)
  show (if _ then _ else _) = (if _ then _ else _)
  by_cases hname : name = collection
  · rw [if_pos hname, if_pos hname]
  · rw [if_neg hname, if_neg hname, hothers name hname]

theorem privateView_holds (collection : String) :
    (privateView collection).Holds (.collection collection) where
  stored h key := by
    have hentries := congrArg Prod.fst h
    exact congrArg (fun entries : OrderedMap Bytes => entries.get? key) hentries
  written {s t} h key payload := by
    have hentries : s.entries (.collection collection) = t.entries (.collection collection) :=
      congrArg Prod.fst h
    refine seen_of_public (public_written s collection key payload)
      (public_written t collection key payload) ?_ h
    rw [entries_written, entries_written, hentries]
  deleted {s t} h key := by
    have hentries : s.entries (.collection collection) = t.entries (.collection collection) :=
      congrArg Prod.fst h
    refine seen_of_public (public_deleted s collection key) (public_deleted t collection key) ?_ h
    rw [entries_deleted, entries_deleted, hentries]
  unseen_written s key payload :=
    unseen_of_public (public_written s collection key payload) fun _ =>
      others_written s collection key payload
  unseen_deleted s key :=
    unseen_of_public (public_deleted s collection key) fun _ => others_deleted s collection key

/-- The ranges of two public states with the same keys have the same keys. -/
theorem forall₂_rowsBetween
    (h : s.world.entries.map Prod.fst = t.world.entries.map Prod.fst) (start stop : String) :
    List.Forall₂ (fun a b : Row => a.key = b.key) (s.rowsBetween .world start stop)
      (t.rowsBetween .world start stop) := by
  have hkeys : List.Forall₂ (fun a b : String × Bytes => a.1 = b.1) s.world.entries
      t.world.entries := by
    rw [← List.forall₂_eq_eq_eq, List.forall₂_map_left_iff, List.forall₂_map_right_iff] at h
    exact h
  unfold rowsBetween OrderedMap.between
  rw [List.forall₂_map_left_iff, List.forall₂_map_right_iff]
  refine List.rel_filter ?_ hkeys
  intro a b hab
  have hkey : a.1 = b.1 := hab
  simp [hkey]

end Memory

end EntityStore
