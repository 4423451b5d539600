/-
  EntityStore/Proofs/Store/Run.lean
  =================================
  **Runs of requests.**  A run makes requests one after another and collects their
  answers, whether it is made on a ledger or on contents.  If each request follows its
  plan, the two runs answer the same.
-/
import EntityStore.Proofs.Store.Contents

namespace EntityStore

/-- A store over a ledger in memory. -/
def Store.inMemory (keys : KeyTransformer) (payloads : PayloadTransformer) (config : Config) :
    Store Memory where
  ledger := Memory.accessor
  keys := keys
  payloads := payloads
  config := config

variable {R : Type → Type 1} {τ : Type}

/-- Makes requests one after another: their answers, and the state behind the last. -/
def runAll (step : ∀ {α : Type}, R α → τ → Except StoreError α × τ) :
    List (Σ α : Type, R α) → τ → List (Σ α : Type, Except StoreError α) × τ
  | [], state => ([], state)
  | ⟨α, request⟩ :: rest, state =>
    let (answer, next) := step request state
    let (answers, last) := runAll step rest next
    (⟨α, answer⟩ :: answers, last)

section

variable (step : ∀ {α : Type}, R α → τ → Except StoreError α × τ)

@[simp] theorem runAll_nil (state : τ) : runAll step [] state = ([], state) := rfl

@[simp] theorem runAll_cons {α : Type} (request : R α) (rest : List (Σ α : Type, R α))
    (state : τ) :
    runAll step (⟨α, request⟩ :: rest) state =
      (⟨α, (step request state).1⟩ :: (runAll step rest (step request state).2).1,
        (runAll step rest (step request state).2).2) := rfl

theorem length_runAll (requests : List (Σ α : Type, R α)) (state : τ) :
    (runAll step requests state).1.length = requests.length := by
  induction requests generalizing state with
  | nil => rfl
  | cons request rest ih =>
    obtain ⟨α, request⟩ := request
    exact congrArg Nat.succ (ih (step request state).2)

theorem runAll_induction {motive : τ → Prop}
    (hstep : ∀ {α : Type} (request : R α) (state : τ), motive state → motive (step request state).2)
    (requests : List (Σ α : Type, R α)) {state : τ} (h : motive state) :
    motive (runAll step requests state).2 := by
  induction requests generalizing state with
  | nil => exact h
  | cons request rest ih =>
    obtain ⟨α, request⟩ := request
    exact ih (hstep request state h)

end

/-- **Runs refine.**  If every request follows its plan, a run from a quiet ledger answers
    what the plans answer on its contents, and leaves the contents that they leave. -/
theorem runAll_refines {perform : ∀ {α : Type}, R α → Action Memory α}
    {plan : ∀ {α : Type}, R α → Plan α}
    (hfollows : ∀ {α : Type} (request : R α), (perform request).Follows (plan request))
    (requests : List (Σ α : Type, R α)) {m : Memory} (hm : m.IsQuiet) :
    let ledger := runAll (fun r => (perform r).answer) requests m
    let model := runAll (fun r => (plan r).onContents) requests m.contents
    ledger.1 = model.1 ∧ ledger.2.contents = model.2 ∧ ledger.2.IsQuiet := by
  induction requests generalizing m with
  | nil => exact ⟨rfl, rfl, hm⟩
  | cons request rest ih =>
    obtain ⟨α, request⟩ := request
    have hstep := hfollows request m hm
    obtain ⟨hanswer, hcontents⟩ := (plan request).contents_onMemory m
    obtain ⟨hanswers, hlast, hquiet⟩ := ih ((plan request).isQuiet_onMemory hm)
    simp only [runAll_cons, hstep, hanswer, ← hcontents]
    exact ⟨by rw [hanswers], hlast, hquiet⟩

end EntityStore
