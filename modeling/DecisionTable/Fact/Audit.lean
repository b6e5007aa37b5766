import DecisionTable.Fact.Basic
import DecisionTable.RuleName

/-!
# Fact — Audit

The record that a fact keeps of the rules that were applied to it: an array under an audit field,
where equal entries stand once.  What stands there and is no array is replaced.
-/

namespace DecisionTable

namespace Json

/-- Keeps the first of equal values; `kept` are those that stand already. -/
def keepFirst (kept : List Json) : List Json → List Json
  | [] => kept
  | v :: vs => if kept.any fun k => k.same v then keepFirst kept vs else keepFirst (kept ++ [v]) vs

/-- Each value once. -/
def dedup (vs : List Json) : List Json :=
  keepFirst [] vs

end Json

namespace Fact

/-- The field where applied rules are recorded unless another one is chosen. -/
def defaultAuditField : String := "AppliedRules"

/-- The entries under an audit field: the items of an array, and none otherwise. -/
def auditEntries (f : Fact) (auditField : String) : List Json :=
  match f.get? auditField with
  | some (.array items) => items
  | _ => []

/-- Adds the entry of a rule under an audit field, where every entry stands once. -/
def record (f : Fact) (auditField : String) (name : RuleName) : Fact :=
  f.insert auditField (.array (Json.dedup (f.auditEntries auditField ++ [.text name.text])))

theorem auditEntries_congr {f g : Fact} {auditField : String}
    (h : f.get? auditField = g.get? auditField) :
    f.auditEntries auditField = g.auditEntries auditField := by
  rw [auditEntries, auditEntries, h]

end Fact

end DecisionTable
