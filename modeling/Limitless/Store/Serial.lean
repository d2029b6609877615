import Limitless.Lib.RowLock
import Limitless.Store.Allowance
import Limitless.Store.Seed

/-!
# The budget transactions, statement by statement

`reserve`, `settle` and `release` as PostgreSQL runs them: two `UPDATE` statements in one explicit
transaction on a connection that otherwise commits each statement. `BudgetTransaction.program` is
the client's program of each, over the rows the statements name, and the database of `RowLock`
interleaves any number of them.

`atomic_program` ties a program to the function of `Store.Allowance`, and `interleaving_is_serial`
is what makes the atomic functions a fair model of the real thing.
-/

namespace Limitless

open Runs RowLock

/-- The rows the budget transactions name. -/
inductive BudgetRow
  | tenant (tenantId : TenantId)
  | period
  deriving DecidableEq

/-- What a row holds; `none` is a row that does not exist. -/
abbrev BudgetRow.Version : BudgetRow → Type
  | tenant _ => Option TenantAllowance
  | period => Option SpendPeriod

/-- The rows of a store. -/
def Store.rows (s : Store) : ∀ i, BudgetRow.Version i
  | .tenant t => s.allowance? t
  | .period => s.period?

/-! ## The programs -/

/-- A transaction on the budget tables. -/
inductive BudgetTransaction
  | reserve (tenantId : TenantId) (lookups priceCents : Int)
  | settle (reservation : Reservation) (lookupsPerformed centsCharged : Int)
  | release (reservation : Reservation)
  deriving DecidableEq

/-- What the client makes of an executed `UPDATE`: a violated constraint raises, and so does a row
count of zero where the client checks it. -/
def answer {α : Type} (checksRowcount : Bool) :
    Except CheckConstraint (Option α) → Except StoreError (Option (Option α))
  | .error c => .error (.checkViolation c)
  | .ok none => if checksRowcount then .error .allowanceExhausted else .ok none
  | .ok (some row) => .ok (some (some row))

/-- An `UPDATE tenant_allowances`. -/
def tenantStatement (checksRowcount : Bool) (tenantId : TenantId)
    (u : Update TenantAllowance.tenantId CheckConstraint) :
    Statement BudgetRow.Version StoreError where
  row := .tenant tenantId
  run old := answer checksRowcount (u.touch old)

/-- An `UPDATE spend_periods`. -/
def periodStatement (checksRowcount : Bool) (u : Update SpendPeriod.periodId CheckConstraint) :
    Statement BudgetRow.Version StoreError where
  row := .period
  run old := answer checksRowcount (u.touch old)

/-- The two statements of `settle`. -/
def settleStatements (r : Reservation) (lookups charged : Int) :
    List (Statement BudgetRow.Version StoreError) :=
  [tenantStatement false r.tenantId (sqlSettleTenantAllowance r.cents charged lookups),
    periodStatement false (sqlSettleSpendPeriod r.cents charged)]

/-- The statements of a transaction, or the error raised before it is opened. -/
def BudgetTransaction.program : BudgetTransaction → Program BudgetRow.Version StoreError
  | reserve t lookups price =>
    if lookups < 0 then .error (.valueError s!"cannot reserve {lookups} lookups") else
    .ok [tenantStatement true t (sqlReserveTenantAllowance (lookups * price)),
      periodStatement true (sqlReserveSpendPeriod (lookups * price))]
  | settle r lookups charged => .ok (settleStatements r lookups charged)
  | release r => .ok (settleStatements r 0 0)

/-- The transaction at once, by the functions of the store: what it leaves, and how it ended. -/
def Store.perform (s : Store) : BudgetTransaction → Store × Except StoreError Unit
  | .reserve t lookups price =>
    match s.reserve t lookups price with
    | .ok (s', _) => (s', .ok ())
    | .error e => (s, .error e)
  | .settle r lookups charged =>
    match s.settle r lookups charged with
    | .ok s' => (s', .ok ())
    | .error e => (s, .error e)
  | .release r =>
    match s.release r with
    | .ok s' => (s', .ok ())
    | .error e => (s, .error e)

/-- Whole transactions one after the other: what they leave, and how each ended. -/
def Store.serial (s : Store) :
    List BudgetTransaction → Store × List (Except StoreError Unit)
  | [] => (s, [])
  | tx :: rest =>
    let (s', o) := s.perform tx
    let (s'', os) := s'.serial rest
    (s'', o :: os)

/-! ## A program at once is the store's function -/

namespace Store

variable (s : Store)

theorem rows_putTenant {t : TenantId} {row : TenantAllowance} (h : row.tenantId = t) :
    rows { s with tenantAllowances := s.tenantAllowances.put row } =
      Function.update s.rows (.tenant t) (some row) := by
  subst h
  funext i
  cases i with
  | period => rfl
  | tenant u =>
      by_cases hu : row.tenantId = u
      · subst hu
        rw [Function.update_self]
        exact Keyed.find?_put_self s.tenantAllowances row
      · rw [Function.update_of_ne (by simpa using Ne.symm hu)]
        exact Keyed.find?_put_of_ne s.tenantAllowances hu

theorem rows_putPeriod {per : SpendPeriod} (h : per.periodId = Fixtures.spendPeriodId) :
    rows { s with spendPeriods := s.spendPeriods.put per } =
      Function.update s.rows .period (some per) := by
  funext i
  cases i with
  | tenant u => rfl
  | period =>
      rw [Function.update_self]
      show (s.spendPeriods.put per).find? Fixtures.spendPeriodId = some per
      rw [← h]
      exact Keyed.find?_put_self s.spendPeriods per

/-- A new version of a tenant's row is still that tenant's. -/
theorem touch_tenantId {t : TenantId} {u : Update TenantAllowance.tenantId CheckConstraint}
    {row : TenantAllowance} (h : u.touch (s.allowance? t) = .ok (some row)) : row.tenantId = t := by
  obtain ⟨old, hold, _, _, hid⟩ := Update.touch_eq_some h
  exact hid.trans (Keyed.find?_key hold)

theorem touch_periodId {u : Update SpendPeriod.periodId CheckConstraint} {per : SpendPeriod}
    (h : u.touch s.period? = .ok (some per)) : per.periodId = Fixtures.spendPeriodId := by
  obtain ⟨old, hold, _, _, hid⟩ := Update.touch_eq_some h
  exact hid.trans (Keyed.find?_key hold)

/-- An `UPDATE tenant_allowances` on the rows of a store leaves the rows of a store. -/
theorem exec_tenantStatement (checks : Bool) (t : TenantId)
    (u : Update TenantAllowance.tenantId CheckConstraint)
    (rest : List (Statement BudgetRow.Version StoreError)) :
    exec s.rows (tenantStatement checks t u :: rest) =
      match u.touch (s.allowance? t) with
      | .error c => .error (.checkViolation c)
      | .ok none => if checks then .error .allowanceExhausted else exec s.rows rest
      | .ok (some row) =>
        exec (rows { s with tenantAllowances := s.tenantAllowances.put row }) rest := by
  simp only [exec, tenantStatement, rows]
  rcases ht : u.touch (s.allowance? t) with c | (_ | row)
  · rfl
  · cases checks <;> rfl
  · exact congrArg (exec · rest) (s.rows_putTenant (s.touch_tenantId ht)).symm

/-- An `UPDATE spend_periods`, likewise. -/
theorem exec_periodStatement (checks : Bool) (u : Update SpendPeriod.periodId CheckConstraint)
    (rest : List (Statement BudgetRow.Version StoreError)) :
    exec s.rows (periodStatement checks u :: rest) =
      match u.touch s.period? with
      | .error c => .error (.checkViolation c)
      | .ok none => if checks then .error .allowanceExhausted else exec s.rows rest
      | .ok (some per) => exec (rows { s with spendPeriods := s.spendPeriods.put per }) rest := by
  simp only [exec, periodStatement, rows]
  rcases ht : u.touch s.period? with c | (_ | per)
  · rfl
  · cases checks <;> rfl
  · exact congrArg (exec · rest) (s.rows_putPeriod (s.touch_periodId ht)).symm

/-- A program at once does what the store's function does. -/
theorem atomic_program (tx : BudgetTransaction) :
    atomic s.rows tx.program = ((s.perform tx).1.rows, (s.perform tx).2) := by
  have hsettle : ∀ r l charged, atomic s.rows (.ok (settleStatements r l charged)) =
      ((s.perform (.settle r l charged)).1.rows, (s.perform (.settle r l charged)).2) := by
    intro r l charged
    simp only [perform, settle_eq, atomic, settleStatements, exec_tenantStatement]
    rcases (sqlSettleTenantAllowance r.cents charged l).touch (s.allowance? r.tenantId) with
      c | (_ | row)
    · rfl
    · simp only [exec_periodStatement]
      rcases (sqlSettleSpendPeriod r.cents charged).touch s.period? with c | (_ | per) <;> rfl
    · have hp : period? { s with tenantAllowances := s.tenantAllowances.put row } = s.period? := rfl
      simp only [exec_periodStatement, hp]
      rcases (sqlSettleSpendPeriod r.cents charged).touch s.period? with c | (_ | per) <;> rfl
  cases tx with
  | settle r l charged => exact hsettle r l charged
  | release r => exact hsettle r 0 0
  | reserve t l price =>
      simp only [BudgetTransaction.program, perform, reserve_eq]
      split_ifs with hl
      · rfl
      · simp only [atomic, exec_tenantStatement]
        rcases (sqlReserveTenantAllowance (l * price)).touch (s.allowance? t) with c | (_ | row)
        · rfl
        · rfl
        · have hp : period? { s with tenantAllowances := s.tenantAllowances.put row } = s.period? :=
            rfl
          simp only [exec_periodStatement, hp]
          rcases (sqlReserveSpendPeriod (l * price)).touch s.period? with c | (_ | per) <;> rfl

/-- A transaction that raised left the store as it was. -/
theorem perform_refused {tx : BudgetTransaction} (h : (s.perform tx).2.isOk = false) :
    (s.perform tx).1 = s := by
  cases tx <;> simp only [perform] at h ⊢ <;> split at h <;> simp_all [Except.isOk, Except.toBool]

end Store

/-! ## Interleaving them -/

/-- A row that does not exist. -/
def BudgetRow.missing : ∀ i, BudgetRow.Version i
  | tenant _ => none
  | period => none

/-- The client lets a row count of zero pass only where the statement has no condition on the row,
so it passes over a missing row alone. -/
theorem answer_passes {α κ : Type} {key : α → κ} {checks : Bool} {u : Update key CheckConstraint}
    (hu : checks = true ∨ ∀ a, u.guard a = true) {old : Option α}
    (h : answer checks (u.touch old) = .ok none) : old = none := by
  rcases u.touch_cases old with ⟨ht, hg⟩ | ⟨a, b, _, _, _, ht⟩ | ⟨a, e, _, _, _, ht⟩
  · rcases hu with rfl | hu
    · rw [ht] at h
      cases h
    · cases old with
      | none => rfl
      | some a =>
          have hga := hg a rfl
          rw [hu a] at hga
          cases hga
  · rw [ht] at h
    cases h
  · rw [ht] at h
    cases h

/-- No statement writes a row that does not exist. -/
theorem answer_missing {α κ : Type} {key : α → κ} (checks : Bool) (u : Update key CheckConstraint)
    (v : Option α) : answer checks (u.touch none) ≠ .ok (some v) := by
  cases checks <;> simp [answer]

/-- Both, of every statement of every program. -/
theorem BudgetTransaction.passes {tx : BudgetTransaction}
    {l : List (Statement BudgetRow.Version StoreError)} (hl : tx.program = .ok l)
    {st : Statement BudgetRow.Version StoreError} (hst : st ∈ l) :
    (∀ v, st.run v = .ok none → v = BudgetRow.missing st.row) ∧
      ∀ v, st.run (BudgetRow.missing st.row) ≠ .ok (some v) := by
  have hsettle : ∀ r lookups charged, st ∈ settleStatements r lookups charged →
      (∀ v, st.run v = .ok none → v = BudgetRow.missing st.row) ∧
        ∀ v, st.run (BudgetRow.missing st.row) ≠ .ok (some v) := by
    intro r lookups charged hst
    rcases List.mem_pair.mp hst with rfl | rfl
    · exact ⟨fun v hv => answer_passes (.inr fun _ => rfl) hv,
        fun v => answer_missing false (sqlSettleTenantAllowance r.cents charged lookups) v⟩
    · exact ⟨fun v hv => answer_passes (.inr fun _ => rfl) hv,
        fun v => answer_missing false (sqlSettleSpendPeriod r.cents charged) v⟩
  cases tx with
  | settle r lookups charged => cases hl; exact hsettle _ _ _ hst
  | release r => cases hl; exact hsettle _ _ _ hst
  | reserve t lookups price =>
      simp only [program] at hl
      split_ifs at hl
      cases hl
      rcases List.mem_pair.mp hst with rfl | rfl
      · exact ⟨fun v hv => answer_passes (.inl rfl) hv,
          fun v => answer_missing true (sqlReserveTenantAllowance (lookups * price)) v⟩
      · exact ⟨fun v hv => answer_passes (.inl rfl) hv,
          fun v => answer_missing true (sqlReserveSpendPeriod (lookups * price)) v⟩

/-- What one transaction passes over, no transaction writes. -/
theorem programs_inert (txs : List BudgetTransaction) :
    Database.Inert (txs.map BudgetTransaction.program) := by
  intro l hl m hm a ha b hb hrow s hpass v hwrite
  obtain ⟨tx, _, hl⟩ := List.mem_map.mp hl
  obtain ⟨tx', _, hm⟩ := List.mem_map.mp hm
  have hmissing : s a.row = BudgetRow.missing a.row := (BudgetTransaction.passes hl ha).1 _ hpass
  rw [hrow] at hmissing
  rw [hmissing] at hwrite
  exact (BudgetTransaction.passes hm hb).2 v hwrite

/-- A serial order of the programs is one of the store's functions, and those that raised can be
left out of it. -/
theorem serial_of_applies {txs : List BudgetTransaction} {s : Store}
    {order : List (Nat × Except StoreError Unit)} {rows : ∀ i, BudgetRow.Version i}
    (h : Run (Database.Applies (txs.map BudgetTransaction.program)) s.rows order rows) :
    (s.serial (order.filterMap fun e => txs[e.1]?)).1.rows = rows ∧
      (s.serial (order.filterMap fun e => txs[e.1]?)).2 = order.map Prod.snd ∧
      (s.serial ((order.filter fun e => e.2.isOk).filterMap fun e => txs[e.1]?)).1.rows = rows := by
  induction order generalizing s with
  | nil => cases h; exact ⟨rfl, rfl, rfl⟩
  | cons e rest ih =>
      cases h with
      | cons hfirst hrest =>
          obtain ⟨p, hp, hatomic⟩ := hfirst
          rw [List.getElem?_map, Option.map_eq_some_iff] at hp
          obtain ⟨tx, htx, rfl⟩ := hp
          rw [Store.atomic_program, Prod.mk.injEq] at hatomic
          obtain ⟨rfl, hout⟩ := hatomic
          obtain ⟨h1, h2, h3⟩ := ih hrest
          refine ⟨?_, ?_, ?_⟩
          · simpa [htx, Store.serial] using h1
          · simpa [htx, Store.serial, hout] using h2
          · cases hok : e.2.isOk with
            | true => simpa [hok, htx, Store.serial] using h3
            | false =>
                rw [← hout] at hok
                rw [Store.perform_refused s hok] at h3
                rw [hout] at hok
                simpa [hok] using h3

/-- **Interleaved statements are serial transactions.** However the statements, commits and
rollbacks of any transactions interleave, once all have ended there is an order of them in which
the atomic functions give each the outcome it had and leave the rows there are; and a transaction
that was refused contributes nothing to those rows. -/
theorem interleaving_is_serial {s : Store} {txs : List BudgetTransaction} {sched : List Nat}
    {d : Database BudgetRow.Version StoreError}
    (hrun : Run (Steps (Database.next (txs.map BudgetTransaction.program)))
      (Database.start (txs.map BudgetTransaction.program) s.rows) sched d)
    (hended : ∀ x ∈ d.sessions, ∃ o, x = .ended o) :
    ∃ order : List (Nat × Except StoreError Unit),
      (order.map Prod.fst).Perm (List.range txs.length) ∧
      (∀ t o, (t, o) ∈ order ↔ d.sessions[t]? = some (.ended o)) ∧
      (s.serial (order.filterMap fun e => txs[e.1]?)).2 = order.map Prod.snd ∧
      (s.serial (order.filterMap fun e => txs[e.1]?)).1.rows = d.committed ∧
      (s.serial ((order.filter fun e => e.2.isOk).filterMap fun e => txs[e.1]?)).1.rows =
        d.committed := by
  obtain ⟨order, hperm, hended, happ⟩ := Database.serializable (programs_inert txs) hrun hended
  rw [List.length_map] at hperm
  obtain ⟨h1, h2, h3⟩ := serial_of_applies happ
  exact ⟨order, hperm, hended, h2, h1, h3⟩

/-- Two tenants with room of their own and a cap that holds one of them: the second takes its
tenant-side hold before the first commits, waits for the period's row, and is refused. -/
theorem refused_by_the_cap_after_its_hold :
    ∃ d, replay (Database.next ([BudgetTransaction.reserve "TEN-BASIL" 2 4,
        .reserve "TEN-WREN" 2 4].map BudgetTransaction.program))
        (Database.start ([BudgetTransaction.reserve "TEN-BASIL" 2 4,
          .reserve "TEN-WREN" 2 4].map BudgetTransaction.program)
          (Store.seeded ["TEN-BASIL", "TEN-WREN"] 10 10 (by decide) (by decide) []).rows)
        [0, 1, 0, 1, 0, 0, 1, 1] = some d ∧
      d.sessions = [.ended (.ok ()), .ended (.error .allowanceExhausted)] ∧
      ∃ order : List (Nat × Except StoreError Unit), (order.map Prod.fst).Perm [0, 1] ∧
        (1, .error .allowanceExhausted) ∈ order := by
  refine ⟨_, rfl, rfl, ?_⟩
  have hrun : Run (Steps (Database.next ([BudgetTransaction.reserve "TEN-BASIL" 2 4,
      .reserve "TEN-WREN" 2 4].map BudgetTransaction.program)))
      (Database.start ([BudgetTransaction.reserve "TEN-BASIL" 2 4,
        .reserve "TEN-WREN" 2 4].map BudgetTransaction.program)
        (Store.seeded ["TEN-BASIL", "TEN-WREN"] 10 10 (by decide) (by decide) []).rows)
      [0, 1, 0, 1, 0, 0, 1, 1] _ := run_of_replay rfl
  obtain ⟨order, hperm, hout, _⟩ := interleaving_is_serial hrun (by
    intro x hx
    rcases List.mem_pair.mp hx with rfl | rfl
    exacts [⟨_, rfl⟩, ⟨_, rfl⟩])
  exact ⟨order, hperm, (hout _ _).mpr rfl⟩

end Limitless
