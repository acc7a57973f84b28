import Goca.Lib.Table
import Goca.Web.Revocation

/-!
# The audit log and its pages

What `Audit` appends, `ListAuditPage` selects and `apiAudit` answers. Nothing deletes or changes an
entry, and the keys count up, so the log is kept in the order of its keys.
-/

set_option autoImplicit false

namespace Goca.Store

open Sql (Table)

/-- `AuditEntry` records one action. -/
structure AuditEntry where
  id : Nat := 0
  ts : Go.Time
  actor : String
  action : String
  target : String
  detail : String
  ip : String
  deriving Repr, DecidableEq

instance : Sql.Keyed AuditEntry := ⟨AuditEntry.id⟩

/-- The largest key of a table: that of a signed 64-bit integer. -/
def maxKey : Nat := 9223372036854775807

/-- The rows of `audit_log`, in the order of their keys, which count from one. -/
structure AuditLog where
  table : Table AuditEntry
  ascending : table.Ascending
  positive : ∀ a ∈ table.rows, 0 < a.id
  fits : table.seq ≤ maxKey

/-- The log of a new database. -/
def AuditLog.empty : AuditLog where
  table := .empty
  ascending := Table.ascending_empty
  positive := fun _ ha => absurd ha List.not_mem_nil
  fits := Nat.zero_le _

/-- `Audit` appends an entry to the audit log, as long as there is a key for it. -/
def AuditLog.audit (l : AuditLog) (now : Go.Time) (actor action target detail ip : String) :
    Except Go.Error Unit × AuditLog :=
  if h : l.table.seq < maxKey then
    (.ok (), {
      table := l.table.insert (fun id => { id, ts := now, actor, action, target, detail, ip })
        fun _ => rfl
      ascending := l.ascending.insert _ _
      positive := by
        intro a ha
        rcases Table.mem_insert.mp ha with ha | rfl
        · exact l.positive a ha
        · exact Nat.succ_pos _
      fits := h })
  else (.error (.driver "database or disk is full"), l)

/-- How many entries `ListAuditPage` selects at most: 100 where the limit is not positive, and never
more than 1000. -/
def clampLimit (limit : Int) : Int :=
  let limit := if limit ≤ 0 then 100 else limit
  if 1000 < limit then 1000 else limit

/-- The entries that `ListAuditPage` selects: newest first, behind an entry or from the start. -/
def AuditLog.select (l : AuditLog) (beforeID limit : Int) : List AuditEntry :=
  let found := if 0 < beforeID then l.table.rows.filter fun a => (a.id : Int) < beforeID
    else l.table.rows
  found.reverse.take (clampLimit limit).toNat

/-- `ListAuditPage` returns one page of audit entries, or why the query failed. -/
def listAuditPage (fault : Option Go.Error) (l : AuditLog) (beforeID limit : Int) :
    Except Go.Error (List AuditEntry) :=
  match fault with
  | some e => .error e
  | none => .ok (l.select beforeID limit)

end Goca.Store

namespace Goca.Web

open Goca.Store (AuditEntry AuditLog listAuditPage)

/-- The JSON answer of `apiAudit`. -/
structure AuditPage where
  entries : List AuditEntry
  nextCursor : String
  deriving Repr, DecidableEq

/-- The cursor of the following page: the smallest key of this one, where it has as many entries as
were asked for. -/
def nextCursor (entries : List AuditEntry) (limit : Int) : String :=
  match entries.getLast? with
  | some a => if (entries.length : Int) = limit then toString a.id else ""
  | none => ""

/-- `apiAudit` serves a page of the audit log, by the two parameters of its query. -/
def apiAudit (fault : Option Go.Error) (l : AuditLog) (limit cursor : String) :
    Except Go.Error AuditPage := do
  let limit := atoiDefault limit 100
  let cursor := atoiDefault cursor 0
  let entries ← listAuditPage fault l cursor limit
  .ok ⟨entries, nextCursor entries limit⟩

end Goca.Web
