import DecisionTable.Proofs.Network.Memory
import DecisionTable.RuleSet.Draft

/-!
# Network — Walking on what was last seen

* `Walk.inTurn`: the walk that tests every rule on the fact as it stands when its turn comes.
* `Walk.along`: the walk that tests every rule on a view, which a look at the fact renews after
  each firing.  The walk over a network is the one whose look is `View.refresh`
  (`Compiles.run_eq_along`).
* `run_eq_inTurn_iff`: the walk over a network calls the callback as the walk in turn does exactly
  if every rule, when its turn comes, holds of the fact as it holds of what was last seen
  (`Walk.UpToDate`).  A callback may break this: `run_overlooks_sign_of_zero`.
* `Walk.Candid.upToDate`: a callback that replaces no value by one that is the same but not
  identical does not.
-/

namespace DecisionTable

variable {σ ε : Type}

namespace Walk

/-- Walks rules, each tested on the fact as it stands when its turn comes, until a failure. -/
def inTurn (fire : Activation → Fact → σ → Reply σ ε) : List Activation → Fact → σ → Reply σ ε
  | [], fact, state => ⟨fact, state, none⟩
  | a :: as, fact, state =>
    if a.ruleSet.holds a.rule fact then
      let reply := fire a fact state
      match reply.failure with
      | some _ => reply
      | none => inTurn fire as reply.fact reply.state
    else
      inTurn fire as fact state

/-- Walks rules, each tested on a view, until a failure; after a firing, `look` says what of the
fact comes into view. -/
def along (look : View → Fact → View) (fire : Activation → Fact → σ → Reply σ ε) :
    List Activation → View → Fact → σ → Reply σ ε
  | [], _, fact, state => ⟨fact, state, none⟩
  | a :: as, view, fact, state =>
    if a.holdsOn view then
      let reply := fire a fact state
      match reply.failure with
      | some _ => reply
      | none => along look fire as (look view reply.fact) reply.fact reply.state
    else
      along look fire as view fact state

/-- The walk in turn has the whole fact in view. -/
def current (_ : View) (fact : Fact) : View := fact.get?

theorem along_current (fire : Activation → Fact → σ → Reply σ ε) (as : List Activation)
    (fact : Fact) (state : σ) : along current fire as fact.get? fact state
      = inTurn fire as fact state := by
  induction as generalizing fact state with
  | nil => rfl
  | cons a as ih =>
      rw [along, inTurn, ih]
      congr 1
      dsimp only
      cases (fire a fact state).failure with
      | some e => rfl
      | none => exact ih _ _

end Walk

/-! ### The walk over a network -/

namespace Network

theorem Consistent.walk_eq_along {net : Network} (h : net.Consistent)
    (fire : Activation → Fact → σ → Reply σ ε) {as : List Activation} {joins : List Join}
    (hj : List.Forall₂ net.Stands as joins) {m : Memory} {view : View} (hm : net.Shows m view)
    (fact : Fact) (state : σ) :
    net.walk fire joins m fact state = Walk.along View.refresh fire as view fact state := by
  induction hj generalizing m view fact state with
  | nil => rfl
  | @cons a join as joins ha _ ih =>
      rw [walk, Walk.along, ha.joinHolds_eq hm.outcomes, ha.activation?_eq, ih hm]
      congr 1
      dsimp only
      cases (fire a fact state).failure with
      | some e => rfl
      | none => exact ih (h.shows_refresh hm _) _ _

/-- **The walk over a network** is the walk over the registered rules on what was last seen. -/
theorem Compiles.run_eq_along {net : Network} {ruleSets : List RuleSet} (h : net.Compiles ruleSets)
    (fire : Activation → Fact → σ → Reply σ ε) (fact : Fact) (state : σ) :
    net.run fire fact state
      = Walk.along View.refresh fire (Activation.ofRuleSets ruleSets) fact.get? fact state :=
  h.consistent.walk_eq_along fire h.joins (h.consistent.shows_values fact) fact state

end Network

/-! ### When the two walks agree -/

namespace Walk

/-- The callback, with a note of every call: the rule and the fact that it was handed. -/
def noting (fire : Activation → Fact → σ → Reply σ ε) (a : Activation) (fact : Fact)
    (noted : σ × List (Activation × Fact)) : Reply (σ × List (Activation × Fact)) ε :=
  let reply := fire a fact noted.1
  ⟨reply.fact, (reply.state, noted.2 ++ [(a, fact)]), reply.failure⟩

/-- The names of the rules that were called. -/
def called (reply : Reply (σ × List (Activation × Fact)) ε) : List RuleName :=
  reply.state.2.map fun call => call.1.name

/-- When the turn of a rule comes, it holds of the fact exactly if it holds of what was last
seen. -/
def UpToDate (fire : Activation → Fact → σ → Reply σ ε) :
    List Activation → View → Fact → σ → Prop
  | [], _, _, _ => True
  | a :: as, seen, fact, state =>
    a.holdsOn seen = a.ruleSet.holds a.rule fact ∧
      if a.ruleSet.holds a.rule fact then
        let reply := fire a fact state
        reply.failure = none → UpToDate fire as (seen.refresh reply.fact) reply.fact reply.state
      else
        UpToDate fire as seen fact state

/-- The calls of a walk, the first of which goes to the first rule that holds on the view. -/
theorem exists_calls (look : View → Fact → View) (fire : Activation → Fact → σ → Reply σ ε)
    (as : List Activation) (view : View) (fact : Fact) (state : σ)
    (log : List (Activation × Fact)) :
    ∃ calls, (along look (noting fire) as view fact (state, log)).state.2 = log ++ calls ∧
      calls.head? = (as.find? fun a => a.holdsOn view).map fun a => (a, fact) := by
  induction as generalizing view fact state log with
  | nil => exact ⟨[], by simp [along]⟩
  | cons a as ih =>
      rw [along, List.find?_cons]
      cases ha : a.holdsOn view with
      | false => exact ih view fact state log
      | true =>
          cases hf : (fire a fact state).failure with
          | some e => exact ⟨[(a, fact)], by simp [noting, hf]⟩
          | none =>
              -- what the rest calls does not matter: the first call is this one
              obtain ⟨calls, hc, -⟩ := ih (look view (fire a fact state).fact)
                (fire a fact state).fact (fire a fact state).state (log ++ [(a, fact)])
              exact ⟨(a, fact) :: calls, by simpa [noting, hf] using hc, rfl⟩

/-- Walks with the same calls agree on the first rule: if it holds on one of the views, it is
called first, and so it holds on the other. -/
theorem holdsOn_eq_of_calls {look₁ look₂ : View → Fact → View}
    {fire : Activation → Fact → σ → Reply σ ε} {a : Activation} {as : List Activation}
    {view₁ view₂ : View} {fact : Fact} {state : σ} {log : List (Activation × Fact)}
    (h : (along look₁ (noting fire) (a :: as) view₁ fact (state, log)).state.2
      = (along look₂ (noting fire) (a :: as) view₂ fact (state, log)).state.2) :
    a.holdsOn view₁ = a.holdsOn view₂ := by
  obtain ⟨calls₁, hc₁, hh₁⟩ := exists_calls look₁ fire (a :: as) view₁ fact state log
  obtain ⟨calls₂, hc₂, hh₂⟩ := exists_calls look₂ fire (a :: as) view₂ fact state log
  obtain rfl : calls₁ = calls₂ := List.append_cancel_left (hc₁.symm.trans (h.trans hc₂))
  have hfirst : ((a :: as).find? fun a => a.holdsOn view₁)
      = (a :: as).find? fun a => a.holdsOn view₂ :=
    Option.map_injective (fun _ _ he => (Prod.mk.inj he).1) (hh₁.symm.trans hh₂)
  have hfound : ∀ {bs : List Activation} {view : View},
      (bs.find? fun b => b.holdsOn view) = some a → a.holdsOn view = true :=
    fun he => List.find?_some (p := fun b => Activation.holdsOn b _) he
  rw [List.find?_cons, List.find?_cons] at hfirst
  cases h₁ : a.holdsOn view₁ with
  | true =>
      rw [h₁] at hfirst
      cases h₂ : a.holdsOn view₂ with
      | true => rfl
      | false =>
          rw [h₂] at hfirst
          exact (hfound hfirst.symm).symm.trans h₂
  | false =>
      rw [h₁] at hfirst
      cases h₂ : a.holdsOn view₂ with
      | false => rfl
      | true =>
          rw [h₂] at hfirst
          exact h₁.symm.trans (hfound hfirst)

/-- **The two walks make the same calls** exactly if the view is up to date at every turn. -/
theorem along_noting_eq_inTurn_iff (fire : Activation → Fact → σ → Reply σ ε)
    (as : List Activation) (seen : View) (fact : Fact) (state : σ)
    (log : List (Activation × Fact)) :
    along View.refresh (noting fire) as seen fact (state, log)
        = inTurn (noting fire) as fact (state, log)
      ↔ UpToDate fire as seen fact state := by
  induction as generalizing seen fact state log with
  | nil => exact ⟨fun _ => trivial, fun _ => rfl⟩
  | cons a as ih =>
      by_cases hv : a.holdsOn seen = a.ruleSet.holds a.rule fact
      · rw [along, inTurn, UpToDate, hv, eq_self, true_and]
        cases a.ruleSet.holds a.rule fact with
        | false => exact ih seen fact state log
        | true =>
            dsimp only [noting, if_true]
            cases (fire a fact state).failure with
            | some e => exact ⟨fun _ he => (nomatch he), fun _ => rfl⟩
            | none => exact (ih _ _ _ _).trans ⟨fun h _ => h, fun h => h rfl⟩
      · -- one of the walks calls the rule first, the other does not
        refine iff_of_false (fun he => hv ?_) (fun hu => hv hu.1)
        rw [← along_current] at he
        exact holdsOn_eq_of_calls (congrArg (fun reply => reply.state.2) he)

theorem along_refresh_of_upToDate {fire : Activation → Fact → σ → Reply σ ε}
    {as : List Activation} {seen : View} {fact : Fact} {state : σ}
    (h : UpToDate fire as seen fact state) :
    along View.refresh fire as seen fact state = inTurn fire as fact state := by
  induction as generalizing seen fact state with
  | nil => rfl
  | cons a as ih =>
      rw [UpToDate] at h
      rw [along, inTurn, h.1]
      cases hf : a.ruleSet.holds a.rule fact with
      | false =>
          rw [hf] at h
          exact ih h.2
      | true =>
          rw [hf] at h
          dsimp only [if_true] at h ⊢
          cases hr : (fire a fact state).failure with
          | some e => rfl
          | none => exact ih (h.2 hr)

/-- What a callback leaves in a field it did not fail on, if it is the same as before, is what was
there before. -/
def Candid (fire : Activation → Fact → σ → Reply σ ε) : Prop :=
  ∀ a fact state field, (fire a fact state).failure = none →
    Network.unchanged ((fire a fact state).fact.get? field) (fact.get? field) = true →
    (fire a fact state).fact.get? field = fact.get? field

/-- After a candid firing, the look at the fact brings all of it into view. -/
theorem Candid.refresh_eq {fire : Activation → Fact → σ → Reply σ ε} (h : Candid fire)
    {a : Activation} {fact : Fact} {state : σ} (hf : (fire a fact state).failure = none) :
    View.refresh fact.get? (fire a fact state).fact = (fire a fact state).fact.get? := by
  funext field
  rw [View.refresh]
  split
  · next hu => exact (h a fact state field hf hu).symm
  · rfl

/-- **A candid callback** always finds the view up to date. -/
theorem Candid.upToDate {fire : Activation → Fact → σ → Reply σ ε} (h : Candid fire)
    (as : List Activation) (fact : Fact) (state : σ) : UpToDate fire as fact.get? fact state := by
  induction as generalizing fact state with
  | nil => trivial
  | cons a as ih =>
      refine ⟨rfl, ?_⟩
      cases a.ruleSet.holds a.rule fact with
      | false => exact ih fact state
      | true =>
          intro hf
          rw [h.refresh_eq hf]
          exact ih _ _

end Walk

/-- **The walk over a network is not always the walk in turn.**  It makes the calls of the walk in
turn, with the facts they are handed, and ends as it does, exactly if every rule, when its turn
comes, holds of the fact as it holds of what was last seen of it. -/
theorem run_eq_inTurn_iff (ruleSets : List RuleSet) (fire : Activation → Fact → σ → Reply σ ε)
    (fact : Fact) (state : σ) :
    (Network.ofRuleSets ruleSets).run (Walk.noting fire) fact (state, [])
        = Walk.inTurn (Walk.noting fire) (Activation.ofRuleSets ruleSets) fact (state, [])
      ↔ Walk.UpToDate fire (Activation.ofRuleSets ruleSets) fact.get? fact state := by
  rw [(Network.compiles_ofRuleSets ruleSets).run_eq_along]
  exact Walk.along_noting_eq_inTurn_iff fire _ _ fact state []

/-- A rule without conditions, and a rule that asks `x` for a minus sign. -/
def RuleSet.signWatch : RuleSet :=
  let draft := (RuleSet.Draft.ofId "a").column "c" "x" "StartsWith"
  ((draft.rule [] [⟨"d", "y"⟩]).rule [⟨"c", "-"⟩] [⟨"d", "y"⟩]).build

/-- Leaves zero in `x`, of the given sign. -/
def Fact.zeroX (fact : Fact) (negative : Bool) : Fact :=
  fact.insert "x" (.number (.real (.zero negative)))

/-- A callback that leaves negative zero in `x`, and does not fail. -/
def Walk.negateX (_ : Activation) (fact : Fact) (_ : Unit) : Reply Unit Empty :=
  ⟨fact.zeroX true, (), none⟩

/-- The two zeros are the same value, but they read differently: after the first rule the second
holds of the fact, and the walk over the network does not see it. -/
theorem run_overlooks_sign_of_zero :
    Walk.called ((Network.ofRuleSets [RuleSet.signWatch]).run (Walk.noting Walk.negateX)
        (Fact.empty.zeroX false) ((), [])) = [⟨"a", "1"⟩] ∧
      Walk.called (Walk.inTurn (Walk.noting Walk.negateX) (Activation.ofRuleSets [RuleSet.signWatch])
        (Fact.empty.zeroX false) ((), [])) = [⟨"a", "1"⟩, ⟨"a", "2"⟩] := by
  rw [(Network.compiles_ofRuleSets [RuleSet.signWatch]).run_eq_along]
  exact ⟨rfl, rfl⟩

end DecisionTable
