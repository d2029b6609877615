import Mathlib.Data.Int.Notation

/-!
# The fictional fixtures

The constants and the name generators of `fixtures.py` that the store and its seeding read: the
price of a lookup, the whole budget, one tenant's partition of it, the tenants that hold one, and
the records every tenant starts with. Python's `%` and `//` at a positive divisor are `Int.emod`
and `Int.ediv`.
-/

namespace Limitless

/-- A tenant identifier, as the credential registry and the store spell it. -/
abbrev TenantId := String

namespace Fixtures

/-- `LOOKUP_PRICE_CENTS`. -/
def lookupPriceCents : Nat := 4

/-- `GLOBAL_SPEND_CAP_CENTS`: the whole fictional monthly budget. -/
def globalSpendCapCents : Int := 250000

/-- `TENANT_ALLOWANCE_CENTS`: one tenant's partition of that budget. -/
def tenantAllowanceCents : Int := 40000

/-- `SPEND_PERIOD_ID`: the billing period the cap belongs to. -/
def spendPeriodId : String := "HALYARD-2026-03"

/-- `PROVIDER_NAME`. -/
def providerName : String := "Coastwise Registry"

/-- `CURRENCY_LABEL`. -/
def currencyLabel : String := "fictional cents"

/-- `ATTACKER_TENANT_ID`. -/
def attackerTenantId : TenantId := "TEN-ORCHID"

/-- `BYSTANDER_TENANT_IDS`. -/
def bystanderTenantIds : List TenantId := ["TEN-BASIL", "TEN-WREN"]

/-- `EXPIRED_TENANT_ID`: a tenant with a credential and no allowance. -/
def expiredTenantId : TenantId := "TEN-EXPIRED"

/-- The identifiers of `TENANTS`, in order. -/
def tenantIds : List TenantId := attackerTenantId :: bystanderTenantIds ++ [expiredTenantId]

/-- `BILLABLE_TENANT_IDS`: the tenants that hold a spending allowance. -/
def billableTenantIds : List TenantId := tenantIds.filter (· ≠ expiredTenantId)

/-- `RECORDS_PER_TENANT`. -/
def recordsPerTenant : Nat := 400

/-- `_PREFIXES`. -/
def namePrefixes : List String :=
  ["Alder", "Bramble", "Cinder", "Dovetail", "Elmgrove", "Fennwick",
   "Gallowmere", "Hearthstone", "Ironvale", "Juniper", "Kelpwood", "Larkspur"]

/-- `_SUFFIXES`. -/
def nameSuffixes : List String :=
  ["Provisioning", "Cartage", "Shipworks", "Textiles", "Foundry", "Chandlery",
   "Coldstore", "Ropeworks", "Salvage", "Quarry"]

/-- `{number:0<width>d}`: the decimal digits, padded with zeros on the left. -/
def zeroPadded (width number : Nat) : String :=
  String.ofList (List.replicate (width - (toString number).length) '0') ++ toString number

/-- `record_id`: the identifier of a one-based index within a tenant. -/
def recordId (tenantId : TenantId) (index : Nat) : String :=
  tenantId ++ "-REC-" ++ zeroPadded 5 index

/-- `company_name`: a prefix, a suffix, and past the first hundred and twenty a series number. -/
def companyName (index : Int) : String :=
  let head := namePrefixes.getD ((index - 1) % namePrefixes.length).toNat ""
  let tail := nameSuffixes.getD (((index - 1) / namePrefixes.length) % nameSuffixes.length).toNat ""
  let series := (index - 1) / (namePrefixes.length * nameSuffixes.length)
  if series = 0 then head ++ " " ++ tail else head ++ " " ++ tail ++ " " ++ toString (series + 1)

end Fixtures

end Limitless
