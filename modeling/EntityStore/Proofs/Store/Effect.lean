/-
  EntityStore/Proofs/Store/Effect.lean
  ====================================
  **What requests of all kinds make of a quiet ledger.**

  A request about an entry or a key reference does what its plan says, and a scan leaves
  the data alone (`AnyRequest.effect`); so a run of them acts on contents, one request
  after another (`run_effect`).  What a scan answers is what it makes of the rows of its
  cursor, one by one (`Scan.answer_run`).
-/
import EntityStore.Proofs.Ledger.Reading
import EntityStore.Proofs.Store.Listing
import EntityStore.Proofs.Store.Within

namespace EntityStore

open EntityStore.Action

variable {S : Store Memory} {α β : Type}

/-! ### Effects -/

theorem ScanRequest.data_perform (hS : S.ledger = Memory.accessor) (request : ScanRequest α)
    (m : Memory) : ((request.perform S).answer m).2.data = m.data := by
  have hreads : (Frame.keeping fun m : Memory => m.data).Reads S.ledger := by
    rw [hS]
    exact Memory.reads_keeping_data id
  exact request.within_perform hreads m

theorem ScanRequest.isQuiet_perform (hS : S.ledger = Memory.accessor) (request : ScanRequest α)
    {m : Memory} (hm : m.IsQuiet) : ((request.perform S).answer m).2.IsQuiet := by
  have hreads : (Frame.preserving Memory.IsQuiet).Reads S.ledger := by
    rw [hS]
    exact Memory.reads_preserving_quiet
  exact request.within_perform hreads m hm

/-- The contents behind a request. -/
def AnyRequest.after (S : Store Memory) : AnyRequest α → Contents → Contents
  | .stored request, c => ((request.plan S).onContents c).2
  | .scan _, c => c

theorem AnyRequest.effect (hS : S.ledger = Memory.accessor) (request : AnyRequest α) {m : Memory}
    (hm : m.IsQuiet) :
    ((request.perform S).answer m).2.IsQuiet ∧
      ((request.perform S).answer m).2.contents = request.after S m.contents := by
  cases request with
  | stored request =>
    have hplan : (request.perform S).answer m = (request.plan S).onMemory m :=
      request.follows hS m hm
    rw [perform, hplan]
    exact ⟨Plan.isQuiet_onMemory hm _, (Plan.contents_onMemory _ m).2⟩
  | scan request =>
    have hdata := congrArg Memory.contents (request.data_perform hS m)
    exact ⟨request.isQuiet_perform hS hm, hdata⟩

theorem AnyRequest.isSpelled_perform (hS : S.ledger = Memory.accessor) (request : AnyRequest α)
    {m : Memory} (hm : m.IsQuiet) (h : m.IsSpelled) :
    ((request.perform S).answer m).2.IsSpelled := by
  cases request with
  | stored request =>
    rw [perform, request.follows hS m hm]
    exact Plan.isSpelled_onMemory h _
  | scan request =>
    have hdata := congrArg Memory.IsSpelled (request.data_perform hS m)
    exact hdata.mpr h

/-- **A run acts on contents**, one request after another. -/
theorem run_effect (hS : S.ledger = Memory.accessor) (requests : List (Σ α : Type, AnyRequest α))
    {m : Memory} (hm : m.IsQuiet) (hspelled : m.IsSpelled) :
    let ran := (runAll (fun r => (r.perform S).answer) requests m).2
    ran.IsQuiet ∧ ran.IsSpelled ∧
      ran.contents = requests.foldl (fun c r => r.2.after S c) m.contents := by
  induction requests generalizing m with
  | nil => exact ⟨hm, hspelled, rfl⟩
  | cons request rest ih =>
    obtain ⟨α, request⟩ := request
    obtain ⟨hquiet, hcontents⟩ := request.effect hS hm
    have hrest := ih hquiet (request.isSpelled_perform hS hm hspelled)
    rw [hcontents] at hrest
    exact hrest

/-! ### What scans answer -/

theorem Memory.historyOf_of_isQuiet {m : Memory} (hm : m.IsQuiet) (key : String) :
    Memory.historyOf key m =
      (.ok ⟨m.nextCursor, ((m.history.get? key).getD []).map .ok⟩,
        (m.openCursor ((m.history.get? key).getD [])).2) := by
  simp [historyOf, reading, hm.reads, openCursor_of_isQuiet hm]

/-- A scan over a cursor that does not fail, and that needs no payload from elsewhere. -/
theorem Scan.answer_run {scan : Scan β} {op : Operation} {m next : Memory} {opened : scan.γ}
    {cursor : Nat} {rows : List scan.ρ} (hplace : ∀ row, scan.place row = none)
    (hopen : (Action.call (scan.opening.call Memory.accessor)).answer m = (.ok opened, next))
    (hrows : scan.opening.cursor opened = ⟨cursor, rows.map .ok⟩)
    (hcursor : cursor ∈ next.openCursors) :
    ((scan.run Memory.accessor op).answer m).1 =
      (Memory.upTo scan.limit rows).mapM (fun row => scan.make row []) >>= scan.finish opened := by
  have heach : scan.each Memory.accessor = fun row => ofExcept (scan.make row []) := by
    funext row
    simp only [Scan.each, hplace row]
  have hdrain := answer_drain hcursor (fun row => scan.make row []) rows scan.limit
  rw [Scan.run, answer_bind_of_ok hopen, hrows, heach, answer_bind, hdrain]
  cases (Memory.upTo scan.limit rows).mapM fun row => scan.make row [] <;> rfl

end EntityStore
