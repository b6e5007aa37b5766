import DecisionTable.Network.Basic

/-!
# Network — Walk

Walking the rules of a network in order, each against the fact as it stands when its turn comes.  A
rule that holds is handed to the caller, who may change the fact and may stop the walk.  The
outcomes of the tests are kept between the rules, and after each firing only the tests on fields
whose value is no longer the same are run again.
-/

namespace DecisionTable

/-- What a firing leaves: the fact, the caller's own state, and the failure that stops the walk. -/
structure Reply (σ ε : Type) where
  fact : Fact
  state : σ
  failure : Option ε

namespace Network

/-- The values and outcomes as last seen. -/
structure Memory where
  values : Array (Option Json)
  outcomes : Array Outcome

/-- Whether a field holds what it held. -/
def unchanged : Option Json → Option Json → Bool
  | none, none => true
  | some v, some w => v.same w
  | _, _ => false

/-- Runs the tests of a slot again. -/
def rerun (net : Network) (values : Array (Option Json)) (slot : Nat) (outcomes : Array Outcome) :
    Array Outcome :=
  (net.readers[slot]?.getD #[]).foldl
    (fun outcomes i => outcomes.setIfInBounds i (net.outcomeAt values i)) outcomes

/-- Looks again at the field of a slot. -/
def refreshSlot (net : Network) (fact : Fact) (slot : Nat) (field : String) (m : Memory) : Memory :=
  if unchanged (fact.get? field) (m.values[slot]?.getD none) then m
  else
    let values := m.values.setIfInBounds slot (fact.get? field)
    { values, outcomes := net.rerun values slot m.outcomes }

/-- Looks again at all fields. -/
def refresh (net : Network) (fact : Fact) (m : Memory) : Memory :=
  net.fields.items.toList.zipIdx.foldl
    (fun m entry => net.refreshSlot fact entry.2 entry.1 m) m

variable {σ ε : Type}

/-- Walks joins, with what was last seen. -/
def walk (net : Network) (fire : Activation → Fact → σ → Reply σ ε) :
    List Join → Memory → Fact → σ → Reply σ ε
  | [], _, fact, state => ⟨fact, state, none⟩
  | join :: joins, m, fact, state =>
    if joinHolds m.outcomes join then
      match net.activation? join with
      | none => walk net fire joins m fact state
      | some activation =>
        let reply := fire activation fact state
        match reply.failure with
        | some _ => reply
        | none => walk net fire joins (net.refresh reply.fact m) reply.fact reply.state
    else
      walk net fire joins m fact state

/-- Hands every rule that holds when its turn comes to `fire`, until a failure. -/
def run (net : Network) (fire : Activation → Fact → σ → Reply σ ε) (fact : Fact) (state : σ) :
    Reply σ ε :=
  let values := net.values fact
  net.walk fire net.joins.toList ⟨values, net.outcomes values⟩ fact state

end Network

end DecisionTable
