import Limitless.Lib.KeyedSort
import Limitless.Lib.LockOrder
import Limitless.Store.Records
import Limitless.Store.Serial
import Mathlib.Data.String.Basic
import Mathlib.Data.Sum.Order

/-!
# Who waits for whom

Every transaction that takes row locks: the budget transactions, two rows each, and the batch of
`upsert_records`, which writes one row for each record. A money transaction takes the tenant's row
and then the period's, and a batch takes its records in the order of their identifiers
(`latestEntries`), so the order of `LockOrder` is there (`ascending`), whatever order a payload
named its companies in.

`atomic_performWrite` ties a program to the function of the store, as `atomic_program` does for the
budget transactions alone.
-/

namespace Limitless

open Runs RowLock

/-- The rows that are locked: those of the budget tables, and the records by identifier. -/
abbrev LockedRow := BudgetRow ⊕ String

/-- What a locked row holds. -/
abbrev LockedRow.Version : LockedRow → Type :=
  Either BudgetRow.Version fun _ => Option StoredRecord

/-- The rows of a store. -/
def Store.lockedRows (s : Store) : ∀ i, LockedRow.Version i :=
  both s.rows fun recordId => s.records.find? recordId

/-! ## The programs -/

/-- A transaction, or a batch, that takes row locks. -/
inductive WriteTransaction
  | budget (tx : BudgetTransaction)
  | upsertRecords (tenantId : TenantId) (entries : List RecordEntry) (enrichedAt : Timestamp)

/-- The row that `SQL_UPSERT_RECORD` leaves in place of one, or of none. -/
def upsertedRecord (tenantId : TenantId) (enrichedAt : Timestamp) (e : RecordEntry) :
    Option StoredRecord → StoredRecord
  | none => ⟨e.recordId, tenantId, e.companyName, some e.registryNumber, some enrichedAt⟩
  | some row => { row with
      companyName := e.companyName
      registryNumber := some e.registryNumber
      enrichedAt := some enrichedAt }

/-- One `SQL_UPSERT_RECORD`. -/
def upsertStatement (tenantId : TenantId) (enrichedAt : Timestamp) (e : RecordEntry) :
    Statement LockedRow.Version StoreError where
  row := .inr e.recordId
  run old := .ok (some (some (upsertedRecord tenantId enrichedAt e old)))

/-- The statements of a transaction; `upsert_records` runs none for an empty list. -/
def WriteTransaction.program : WriteTransaction → Program LockedRow.Version StoreError
  | budget tx => tx.program.inl
  | upsertRecords tenantId entries enrichedAt =>
    if entries = [] then .ok []
    else .ok ((latestEntries entries).map (upsertStatement tenantId enrichedAt))

/-- The transaction at once, by the functions of the store. -/
def Store.performWrite (s : Store) : WriteTransaction → Store × Except StoreError Unit
  | .budget tx => s.perform tx
  | .upsertRecords tenantId entries enrichedAt =>
    (s.upsertRecords tenantId entries enrichedAt, .ok ())

/-! ## A program at once is the store's function -/

/-- One upsert is of the row under its identifier alone. -/
theorem find?_sqlUpsertRecord (t : TenantId) (at' : Timestamp)
    (records : Keyed StoredRecord.recordId) (e : RecordEntry) :
    (fun recordId => (sqlUpsertRecord t at' records e).find? recordId) =
      Function.update (fun recordId => records.find? recordId) e.recordId
        (some (upsertedRecord t at' e (records.find? e.recordId))) := by
  funext recordId
  unfold sqlUpsertRecord
  split
  · next hnone =>
      rw [hnone, Keyed.find?_put, Function.update_apply]
      simp only [eq_comm (a := e.recordId)]
      rfl
  · next row hrow =>
      have hkey : row.recordId = e.recordId := Keyed.find?_key hrow
      rw [hrow, ← hkey, Keyed.find?_put, Function.update_apply]
      simp only [eq_comm (a := row.recordId)]
      rfl

/-- A batch of upserts leaves the budget rows alone. -/
theorem exec_upserts (s : ∀ i, BudgetRow.Version i) (t : TenantId) (at' : Timestamp)
    (records : Keyed StoredRecord.recordId) (entries : List RecordEntry) :
    exec (both s fun recordId => records.find? recordId)
        (entries.map (upsertStatement t at')) =
      .ok (both s fun recordId =>
        (entries.foldl (sqlUpsertRecord t at') records).find? recordId) := by
  induction entries generalizing records with
  | nil => rfl
  | cons e entries ih =>
      rw [List.foldl_cons, ← ih (sqlUpsertRecord t at' records e), find?_sqlUpsertRecord,
        ← both_update_inr]
      rfl

/-- The budget transactions leave the records alone. -/
theorem Store.perform_records (s : Store) (tx : BudgetTransaction) :
    (s.perform tx).1.records = s.records := by
  have hsettle : ∀ r lookups charged,
      (s.perform (.settle r lookups charged)).1.records = s.records := by
    intro r lookups charged
    simp only [Store.perform, Store.settle_eq]
    rcases (sqlSettleTenantAllowance r.cents charged lookups).touch (s.allowance? r.tenantId) with
      c | row
    · rfl
    · rcases (sqlSettleSpendPeriod r.cents charged).touch s.period? with c | per <;> rfl
  cases tx with
  | settle r lookups charged => exact hsettle r lookups charged
  | release r => exact hsettle r 0 0
  | reserve t lookups price =>
      simp only [Store.perform, Store.reserve_eq]
      split_ifs with hl
      · rfl
      · rcases (sqlReserveTenantAllowance (lookups * price)).touch (s.allowance? t) with
          c | (_ | row)
        · rfl
        · rfl
        · rcases (sqlReserveSpendPeriod (lookups * price)).touch s.period? with
            c | (_ | per) <;> rfl

/-- A program at once does what the store's function does. -/
theorem Store.atomic_performWrite (s : Store) (tx : WriteTransaction) :
    atomic s.lockedRows tx.program = ((s.performWrite tx).1.lockedRows, (s.performWrite tx).2) := by
  cases tx with
  | budget tx =>
      unfold Store.lockedRows WriteTransaction.program Store.performWrite
      rw [atomic_inl, s.atomic_program, s.perform_records]
  | upsertRecords t entries at' =>
      simp only [WriteTransaction.program, Store.performWrite, Store.upsertRecords]
      split
      · rfl
      · simp only [atomic, Store.lockedRows, exec_upserts]
        rfl

/-! ## One order of the rows -/

/-- Where a row stands in the order of the locks. -/
def LockedRow.rank : LockedRow → ℕ ⊕ₗ String
  | .inl (.tenant _) => Sum.inlₗ 0
  | .inl .period => Sum.inlₗ 1
  | .inr recordId => Sum.inrₗ recordId

/-- A money transaction takes its tenant's row, and then the period's. -/
theorem BudgetTransaction.ascending {tx : BudgetTransaction}
    {l : List (Statement BudgetRow.Version StoreError)} (h : tx.program = .ok l) :
    l.Pairwise fun a b => LockedRow.rank (.inl a.row) < LockedRow.rank (.inl b.row) := by
  have hpair : ∀ checks t u v, List.Pairwise
      (fun a b : Statement BudgetRow.Version StoreError =>
        LockedRow.rank (.inl a.row) < LockedRow.rank (.inl b.row))
      [tenantStatement checks t u, periodStatement checks v] := by
    intro checks t u v
    refine List.pairwise_pair.mpr ?_
    exact Sum.Lex.inl_lt_inl_iff.mpr Nat.zero_lt_one
  cases tx with
  | settle r lookups charged =>
      cases h
      exact hpair ..
  | release r =>
      cases h
      exact hpair ..
  | reserve t lookups price =>
      simp only [program] at h
      split_ifs at h
      cases h
      exact hpair ..

/-- The entries a batch writes are sorted, and no two have one identifier. -/
theorem latestEntries_pairwise (entries : List RecordEntry) :
    (latestEntries entries).Pairwise fun a b => a.recordId < b.recordId :=
  Keyed.pairwise_sort (fun _ _ => decide_eq_true_iff) _

/-- Every transaction takes its rows in the one order. -/
theorem ascending (txs : List WriteTransaction) :
    Ascending LockedRow.rank (txs.map WriteTransaction.program) := by
  intro l hl
  obtain ⟨tx, -, htx⟩ := List.mem_map.mp hl
  cases tx with
  | budget tx =>
      simp only [WriteTransaction.program, Program.inl] at htx
      cases hp : tx.program with
      | error e =>
          rw [hp] at htx
          cases htx
      | ok m =>
          rw [hp] at htx
          cases htx
          exact List.pairwise_map.mpr (BudgetTransaction.ascending hp)
  | upsertRecords t entries at' =>
      simp only [WriteTransaction.program] at htx
      split_ifs at htx
      · cases htx
        exact .nil
      · cases htx
        refine List.pairwise_map.mpr ((latestEntries_pairwise entries).imp fun hab => ?_)
        exact Sum.Lex.inr_lt_inr_iff.mpr hab

/-- The programs of transactions; with `everyLock`, a statement that touches nothing takes its lock
all the same. -/
def lockPrograms (everyLock : Bool) (txs : List WriteTransaction) :
    List (Program LockedRow.Version StoreError) :=
  if everyLock then (txs.map WriteTransaction.program).map Program.locking
  else txs.map WriteTransaction.program

/-- **No deadlock between writers.** However reserves, settles, releases and batches of upserts
interleave, in every state they reach with one of them unfinished, some unfinished one can take its
next step. -/
theorem writers_never_deadlock {everyLock : Bool} {txs : List WriteTransaction}
    {rows : ∀ i, LockedRow.Version i} {sched : List ℕ}
    {d : Database LockedRow.Version StoreError}
    (hrun : Run (Steps (Database.next (lockPrograms everyLock txs)))
      (Database.start (lockPrograms everyLock txs) rows) sched d)
    (hopen : ∃ x ∈ d.sessions, x.isEnded = false) :
    ∃ t d' y, d.sessions[t]? = some y ∧ y.isEnded = false ∧
      Database.next (lockPrograms everyLock txs) d t = some d' := by
  have hasc : Ascending LockedRow.rank (lockPrograms everyLock txs) := by
    unfold lockPrograms
    split
    exacts [(ascending txs).locking, ascending txs]
  obtain ⟨x, hx, hopen⟩ := hopen
  exact Database.exists_next hasc hrun hx hopen

/-- Two records, in their order. -/
def crossedEntries : List RecordEntry := [⟨"r1", "A", "1"⟩, ⟨"r2", "B", "2"⟩]

/-- Two batches that name them in opposite orders, and a reservation. -/
def crossedWriters : List WriteTransaction :=
  [.upsertRecords Fixtures.attackerTenantId crossedEntries 0,
    .upsertRecords Fixtures.attackerTenantId [⟨"r2", "B", "2"⟩, ⟨"r1", "A", "1"⟩] 0,
    .budget (.reserve Fixtures.attackerTenantId 1 4)]

theorem latestEntries_crossed : latestEntries crossedEntries = crossedEntries ∧
    latestEntries [⟨"r2", "B", "2"⟩, ⟨"r1", "A", "1"⟩] = crossedEntries := by
  have hentries : (Keyed.ofList crossedEntries : Keyed RecordEntry.recordId).entries =
      crossedEntries := by decide
  have hentries' : (Keyed.ofList [⟨"r2", "B", "2"⟩, ⟨"r1", "A", "1"⟩] :
      Keyed RecordEntry.recordId).entries = [⟨"r2", "B", "2"⟩, ⟨"r1", "A", "1"⟩] := by decide
  constructor
  · rw [latestEntries, hentries]
    exact List.mergeSort_of_pairwise (by decide)
  · rw [latestEntries, hentries']
    simp [List.mergeSort, List.MergeSort.Internal.splitInTwo, crossedEntries]

/-- Once the first batch has written one record, the second waits for it. -/
theorem writers_never_deadlock_when_crossed :
    ∃ d, Run (Steps (Database.next (lockPrograms false crossedWriters)))
        (Database.start (lockPrograms false crossedWriters) (both BudgetRow.missing fun _ => none))
        [0, 1, 2, 0] d ∧
      Database.next (lockPrograms false crossedWriters) d 1 = none ∧
      ∃ t d' y, d.sessions[t]? = some y ∧ y.isEnded = false ∧
        Database.next (lockPrograms false crossedWriters) d t = some d' := by
  have hprograms : lockPrograms false crossedWriters =
      [.ok (crossedEntries.map (upsertStatement Fixtures.attackerTenantId 0)),
        .ok (crossedEntries.map (upsertStatement Fixtures.attackerTenantId 0)),
        WriteTransaction.program (.budget (.reserve Fixtures.attackerTenantId 1 4))] := by
    obtain ⟨hfirst, hsecond⟩ := latestEntries_crossed
    have hne : crossedEntries ≠ [] := by decide
    simp [lockPrograms, crossedWriters, WriteTransaction.program, hfirst, hsecond, hne]
  have hrun : ∃ d, Run (Steps (Database.next (lockPrograms false crossedWriters)))
      (Database.start (lockPrograms false crossedWriters) (both BudgetRow.missing fun _ => none))
        [0, 1, 2, 0] d ∧
      Database.next (lockPrograms false crossedWriters) d 1 = none ∧
      ∃ x ∈ d.sessions, x.isEnded = false := by
    rw [hprograms]
    refine ⟨_, .cons rfl (.cons rfl (.cons rfl (.cons rfl .nil))), rfl, _, List.mem_cons_self, rfl⟩
  obtain ⟨d, hrun, hwaits, hopen⟩ := hrun
  exact ⟨d, hrun, hwaits, writers_never_deadlock hrun hopen⟩

end Limitless
