import DecisionTable.RuleSet.Basic

/-!
# Engine — Store

Where rule sets are kept.  `Backend` is the interface of a store; `Store` keeps rule sets in
memory, by class and in the order of their first arrival, and a rule set takes the place of an
earlier one of its class with the same id.
-/

namespace DecisionTable

/-- Why a store does not answer. -/
inductive StoreError where
  | unavailable (reason : String)
  | other (reason : String)
  deriving DecidableEq

/-- The wording of a refusal. -/
def StoreError.message : StoreError → String
  | .unavailable reason => "rule set store unavailable: " ++ reason
  | .other reason => "rule set store error: " ++ reason

/-- A store with states `σ`: it lists the rule sets of a class, and takes one in. -/
structure Backend (σ : Type) where
  load : String → ExceptT StoreError (StateM σ) (List RuleSet)
  save : RuleSet → ExceptT StoreError (StateM σ) Unit

/-- Rule sets by class. -/
structure Store where
  buckets : SortedMap (List RuleSet)
  deriving DecidableEq

namespace Store

/-- The store without rule sets. -/
def empty : Store :=
  ⟨.empty⟩

/-- The rule sets of a class. -/
def load (s : Store) (className : String) : List RuleSet :=
  (s.buckets.get? className).getD []

/-- Puts a rule set in the place of the one with its id, or at the end. -/
def place (rs : RuleSet) : List RuleSet → List RuleSet
  | [] => [rs]
  | r :: bucket => if r.id = rs.id then rs :: bucket else r :: place rs bucket

/-- Takes a rule set in. -/
def save (s : Store) (rs : RuleSet) : Store :=
  ⟨s.buckets.insert rs.metadata.classKey (place rs (s.load rs.metadata.classKey))⟩

/-- The number of rule sets. -/
def size (s : Store) : Nat :=
  (s.buckets.entries.flatMap fun e => e.2).length

/-- The store in memory as a backend; it never refuses. -/
def backend : Backend Store where
  load className := do return (← get).load className
  save rs := modify fun s => s.save rs

@[simp] theorem load_empty (className : String) : empty.load className = [] := rfl

theorem load_save_self (s : Store) (rs : RuleSet) :
    (s.save rs).load rs.metadata.classKey = place rs (s.load rs.metadata.classKey) := by
  rw [load, save, SortedMap.get?_insert_self, Option.getD_some]

/-- A save changes nothing in another class. -/
theorem load_save_of_ne {rs : RuleSet} {className : String}
    (h : rs.metadata.classKey ≠ className) (s : Store) :
    (s.save rs).load className = s.load className := by
  simp only [load, save, SortedMap.get?_insert_of_ne h]

end Store

namespace Backend

variable {σ : Type}

/-- A backend that refuses loads, saves or both, where a refusal is given. -/
def failing (b : Backend σ) (onLoad onSave : Option StoreError) : Backend σ where
  load className := match onLoad with
    | some e => throw e
    | none => b.load className
  save rs := match onSave with
    | some e => throw e
    | none => b.save rs

end Backend

end DecisionTable
