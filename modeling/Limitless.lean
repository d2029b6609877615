import Limitless.Lib.Runs
import Limitless.Lib.Keyed
import Limitless.Lib.KeyedSort
import Limitless.Lib.Upsert
import Limitless.Lib.Indexed
import Limitless.Lib.Pool
import Limitless.Lib.Lockstep
import Limitless.Lib.RowLock
import Limitless.Lib.LockOrder
import Limitless.Lib.Lines
import Limitless.Lib.Splitlines
import Limitless.Lib.JsonString
import Limitless.Lib.Inflate
import Limitless.Lib.SlidingWindow
import Limitless.Fixtures
import Limitless.Settings
import Limitless.Store.Schema
import Limitless.Store.Allowance
import Limitless.Store.Balance
import Limitless.Store.Seed
import Limitless.Store.Serial
import Limitless.Store.Records
import Limitless.Store.Upsert
import Limitless.Store.Locking
import Limitless.Accounts.Basic
import Limitless.Accounts.Isolation
import Limitless.Accounts.Contention
import Limitless.Provider.Ledger
import Limitless.Provider.Service
import Limitless.Provider.Fixture
import Limitless.Provider.Schedules
import Limitless.Provider.Inheritance
import Limitless.Expansion.Records
import Limitless.Expansion.Reader
import Limitless.Expansion.Ceilings
import Limitless.Expansion.Outcome
import Limitless.Expansion.Chunking
import Limitless.Expansion.Termination
import Limitless.Expansion.Members
import Limitless.Expansion.Cost
import Limitless.Vulnerable.Shapes
import Limitless.Secure.Capacity
import Limitless.Secure.Slots
import Limitless.Secure.Task
import Limitless.Secure.World
import Limitless.Secure.History
import Limitless.Secure.Accounting
import Limitless.Secure.Invariant
import Limitless.Secure.Solvency
import Limitless.Secure.Settlement
import Limitless.Secure.Reconciliation
import Limitless.Secure.Admitted
import Limitless.Secure.Transactions
import Limitless.Secure.Partition
import Limitless.Secure.Refinement
import Limitless.Secure.Occupancy
import Limitless.Secure.Refusal
import Limitless.Secure.Admission
import Limitless.Secure.Bounds
import Limitless.Secure.Ownership
import Limitless.Secure.Pages
import Limitless.Secure.Solo
import Limitless.Secure.Charge
import Limitless.Secure.Packaging
import Limitless.Secure.Posted
import Limitless.Audit.Json
import Limitless.Audit.Events
import Limitless.Audit.Gate
import Limitless.Secure.Surface
import Limitless.Common.Routes
import Limitless.Secure.Connections
import Limitless.Secure.Disclosure
import Limitless.Secure.Reads
import Limitless.Secure.Jobs
import Limitless.Harness.Config
import Limitless.Vulnerable.HalfFixes
import Limitless.Vulnerable.RateLimiter
import Limitless.Vulnerable.Database
import Limitless.Vulnerable.Task
import Limitless.Vulnerable.World
import Limitless.Vulnerable.Books
import Limitless.Vulnerable.Steps
import Limitless.Vulnerable.Invariant
import Limitless.Vulnerable.Enrich
import Limitless.Vulnerable.Pool
import Limitless.Vulnerable.Drain
import Limitless.Vulnerable.Billing
import Limitless.Vulnerable.Agreement
import Limitless.Vulnerable.Import
import Limitless.Vulnerable.Bundle
import Limitless.Vulnerable.Counters
import Limitless.Vulnerable.Connections
import Limitless.Vulnerable.Occupancy
import Limitless.Vulnerable.Release
import Limitless.Harness.Burst
import Limitless.Harness.Engine
import Limitless.Harness.Honoured
import Limitless.Harness.Rounds
import Limitless.Harness.Verdict
import Limitless.Harness.FalseAlarm
import Limitless.Harness.Names
import Limitless.Harness.Ceiling
import Limitless.Harness.Controls
import Limitless.Harness.Undivided
import Limitless.Harness.Rotated
import Limitless.Harness.InFlight
import Limitless.Harness.Secured
import Limitless.Harness.Amplification
