import DecisionTable.Engine.Basic

/-!
# Engine — Runs

What an operation of an engine does on a state of its store: `x.run.run s` is its outcome and the
state that it leaves.

* `run_bind_of_ok`, `run_bind_of_error`, `run_lift_bind_of_ok` and their like: the run of an
  operation, from the runs of its parts.
* `ReadOnly`: an operation that leaves the store as it is.
* `Atomic`: an operation that leaves the store as it is if it fails.  What only reads before its
  last effect is atomic (`Atomic.bind`).
-/

namespace DecisionTable.Engine

variable {σ α β : Type}

/-! ### The parts of a run -/

theorem run_pure (a : α) (s : σ) : (pure a : EngineM σ α).run.run s = (.ok a, s) :=
  rfl

theorem run_lift {ε : Type} (wrap : ε → EngineError) (r : Except ε α) (s : σ) :
    (lift wrap r : EngineM σ α).run.run s = (r.mapError wrap, s) := by
  cases r <;> rfl

/-- What comes after a computation that gives a result. -/
theorem run_bind_of_ok {x : EngineM σ α} {a : α} {s s' : σ} (h : x.run.run s = (.ok a, s'))
    (f : α → EngineM σ β) : (x >>= f).run.run s = (f a).run.run s' := by
  rw [ExceptT.run_bind, StateT.run_bind, h]
  rfl

/-- Nothing comes after a computation that fails. -/
theorem run_bind_of_error {x : EngineM σ α} {err : EngineError} {s s' : σ}
    (h : x.run.run s = (.error err, s')) (f : α → EngineM σ β) :
    (x >>= f).run.run s = (.error err, s') := by
  rw [ExceptT.run_bind, StateT.run_bind, h]
  rfl

theorem run_lift_bind_of_ok {ε : Type} {r : Except ε α} {a : α} (h : r = .ok a)
    (wrap : ε → EngineError) (f : α → EngineM σ β) (s : σ) :
    (lift wrap r >>= f).run.run s = (f a).run.run s := by
  subst h
  rfl

theorem run_lift_bind_of_error {ε : Type} {r : Except ε α} {err : ε} (h : r = .error err)
    (wrap : ε → EngineError) (f : α → EngineM σ β) (s : σ) :
    (lift wrap r >>= f).run.run s = (.error (wrap err), s) := by
  subst h
  rfl

/-! ### Operations without effect -/

/-- The operation leaves the store as it is, whatever its outcome. -/
def ReadOnly (x : EngineM σ α) : Prop :=
  ∀ s, (x.run.run s).2 = s

namespace ReadOnly

theorem pure (a : α) : ReadOnly (pure a : EngineM σ α) :=
  fun _ => rfl

theorem throw (err : EngineError) : ReadOnly (throw err : EngineM σ α) :=
  fun _ => rfl

theorem lift {ε : Type} (wrap : ε → EngineError) (r : Except ε α) :
    ReadOnly (lift wrap r : EngineM σ α) :=
  fun s => by rw [run_lift]

theorem bind {x : EngineM σ α} {f : α → EngineM σ β} (hx : ReadOnly x)
    (hf : ∀ a, ReadOnly (f a)) : ReadOnly (x >>= f) := by
  intro s
  have hs := hx s
  rcases h : x.run.run s with ⟨outcome, s'⟩
  rw [h] at hs
  obtain rfl : s' = s := hs
  cases outcome with
  | error err => rw [run_bind_of_error h]
  | ok a => rw [run_bind_of_ok h, hf a]

end ReadOnly

/-! ### Operations without effect when they fail -/

/-- The operation leaves the store as it is if it fails. -/
def Atomic (x : EngineM σ α) : Prop :=
  ∀ s s' err, x.run.run s = (.error err, s') → s' = s

theorem ReadOnly.atomic {x : EngineM σ α} (h : ReadOnly x) : Atomic x := by
  intro s s' err hx
  have hs := h s
  rwa [hx] at hs

namespace Atomic

/-- Reading before an atomic operation keeps it atomic. -/
theorem bind {x : EngineM σ α} {f : α → EngineM σ β} (hx : ReadOnly x)
    (hf : ∀ a, Atomic (f a)) : Atomic (x >>= f) := by
  intro s s' err h
  have hs := hx s
  rcases hr : x.run.run s with ⟨outcome, s₁⟩
  rw [hr] at hs
  obtain rfl : s₁ = s := hs
  cases outcome with
  | error err' =>
      rw [run_bind_of_error hr] at h
      exact (Prod.mk.inj h).2.symm
  | ok a =>
      rw [run_bind_of_ok hr] at h
      exact hf a _ _ _ h

/-- An atomic operation may be followed by one that gives a result. -/
theorem result {x : EngineM σ α} (hx : Atomic x) (f : α → β) :
    Atomic (x >>= fun a => Pure.pure (f a)) := by
  intro s s' err h
  rcases hr : x.run.run s with ⟨outcome, s₁⟩
  cases outcome with
  | error err' =>
      rw [run_bind_of_error hr] at h
      obtain rfl : s₁ = s' := (Prod.mk.inj h).2
      exact hx _ _ _ hr
  | ok a =>
      rw [run_bind_of_ok hr, run_pure] at h
      cases h

end Atomic

end DecisionTable.Engine
