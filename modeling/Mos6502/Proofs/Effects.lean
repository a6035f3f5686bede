import Mathlib.Data.List.Forall2
import Mathlib.Order.RelClasses

/-!
# Actions as relations between states

An action that can fail ends in a state all the same. `Leaves R act` says that the state before and
the state after are related by `R`, however the action ends; it composes along sequences whenever
`R` does, so that a fact about a whole instruction follows from the same fact about its accesses.
-/

namespace Mos6502

variable {ε σ α β : Type}

/-- The state in which an action ends. -/
def finalState : EStateM.Result ε σ α → σ
  | .ok _ s | .error _ s => s

/-- The action has succeeded, with such an answer and in such a state. -/
def succeedsWith (p : α → σ → Bool) : EStateM.Result ε σ α → Bool
  | .ok a s => p a s
  | .error _ _ => false

/-- A check that was evaluated to `true` gives the result it has checked. -/
theorem exists_of_succeedsWith {p : α → σ → Bool} {r : EStateM.Result ε σ α}
    (h : succeedsWith p r = true) : ∃ a s, r = .ok a s ∧ p a s = true := by
  cases r with
  | ok a s => exact ⟨a, s, rfl, h⟩
  | error e s => cases h

def Succeeds (r : EStateM.Result ε σ α) : Prop := ∃ a s, r = .ok a s

instance (r : EStateM.Result ε σ α) : Decidable (Succeeds r) :=
  match r with
  | .ok a s => isTrue ⟨a, s, rfl⟩
  | .error _ _ => isFalse nofun

theorem Succeeds.eq_ok {r : EStateM.Result ε σ Unit} (h : Succeeds r) :
    r = .ok () (finalState r) := by
  obtain ⟨u, s, rfl⟩ := h
  rfl

/-- The action takes every state to a related one, whether it succeeds or fails. -/
def Leaves (R : σ → σ → Prop) (act : EStateM ε σ α) : Prop := ∀ s, R s (finalState (act s))

/-! ## Sequences -/

theorem bind_of_ok {act : EStateM ε σ α} {f : α → EStateM ε σ β} {s t : σ} {a : α}
    (h : act s = .ok a t) : (act >>= f) s = f a t := by
  change EStateM.bind act f s = _
  rw [EStateM.bind, h]

theorem bind_of_error {act : EStateM ε σ α} {f : α → EStateM ε σ β} {s t : σ} {e : ε}
    (h : act s = .error e t) : (act >>= f) s = .error e t := by
  change EStateM.bind act f s = _
  rw [EStateM.bind, h]

theorem get_bind_apply (f : σ → EStateM ε σ α) (s : σ) : (get >>= f) s = f s s := rfl

theorem modify_bind_apply (g : σ → σ) (f : PUnit → EStateM ε σ α) (s : σ) :
    (modify g >>= f) s = f ⟨⟩ (g s) := rfl

/-- A sequence succeeds exactly if both parts do, one behind the other. -/
theorem bind_eq_ok {act : EStateM ε σ α} {f : α → EStateM ε σ β} {s u : σ} {b : β} :
    (act >>= f) s = .ok b u ↔ ∃ a t, act s = .ok a t ∧ f a t = .ok b u := by
  cases h : act s with
  | ok a t => simp [bind_of_ok h, and_assoc]
  | error e t => simp [bind_of_error h]

/-- A result that is put in place of another does not change the state. -/
theorem finalState_bind_pure (act : EStateM ε σ α) (b : β) (s : σ) :
    finalState ((act >>= fun _ => pure b) s) = finalState (act s) := by
  cases h : act s with
  | ok a t => rw [bind_of_ok h]; rfl
  | error e t => rw [bind_of_error h]; rfl

theorem except_bind_eq_error {x : Except ε α} {f : α → Except ε β} {e : ε} :
    (x >>= f) = .error e ↔ x = .error e ∨ ∃ a, x = .ok a ∧ f a = .error e := by
  cases x with
  | ok a => simp [Bind.bind, Except.bind]
  | error e' => simp [Bind.bind, Except.bind]

theorem except_bind_eq_ok {x : Except ε α} {f : α → Except ε β} {b : β} :
    (x >>= f) = .ok b ↔ ∃ a, x = .ok a ∧ f a = .ok b := by
  cases x with
  | ok a => simp [Bind.bind, Except.bind]
  | error e => simp [Bind.bind, Except.bind]

theorem except_map_eq_ok {x : Except ε α} {f : α → β} {b : β} :
    x.map f = .ok b ↔ ∃ a, x = .ok a ∧ f a = b := by
  cases x <;> simp [Except.map]

theorem except_mapError_eq_ok {ε' : Type} {x : Except ε α} {g : ε → ε'} {a : α} :
    x.mapError g = .ok a ↔ x = .ok a := by
  cases x <;> simp [Except.mapError]

/-! ## Passes over a list -/

section MapM

variable {f : α → Except ε β}

theorem exists_mapM_ok_iff {l : List α} :
    (∃ bs, l.mapM f = .ok bs) ↔ ∀ a ∈ l, ∃ b, f a = .ok b := by
  induction l with
  | nil => exact ⟨fun _ a ha => (List.not_mem_nil ha).elim, fun _ => ⟨[], rfl⟩⟩
  | cons a rest ih =>
    simp only [List.mapM_cons, except_bind_eq_ok, List.forall_mem_cons, ← ih]
    constructor
    · rintro ⟨bs, b, hb, bs', hbs', -⟩
      exact ⟨⟨b, hb⟩, bs', hbs'⟩
    · rintro ⟨⟨b, hb⟩, bs, hbs⟩
      exact ⟨b :: bs, b, hb, bs, hbs, rfl⟩

theorem mapM_eq_ok_of_forall₂ {l : List α} {bs : List β}
    (h : List.Forall₂ (fun a b => f a = .ok b) l bs) : l.mapM f = .ok bs := by
  induction h with
  | nil => rfl
  | cons hfirst hrest ih => rw [List.mapM_cons, hfirst, ih]; rfl

/-- A pass that fails does so at the first element that fails. -/
theorem mapM_range_eq_error {f : Nat → Except ε β} {n : Nat} {e : ε}
    (h : (List.range n).mapM f = .error e) :
    ∃ k < n, (∀ j < k, ∃ b, f j = .ok b) ∧ f k = .error e := by
  induction n with
  | zero => cases h
  | succ n ih =>
    rw [List.range_succ, List.mapM_append, except_bind_eq_error] at h
    rcases h with hearlier | ⟨bs, hbs, hlast⟩
    · obtain ⟨k, hk, hbefore, hfail⟩ := ih hearlier
      exact ⟨k, Nat.lt_succ_of_lt hk, hbefore, hfail⟩
    · refine ⟨n, Nat.lt_succ_self n, fun j hj => ?_, ?_⟩
      · exact exists_mapM_ok_iff.mp ⟨bs, hbs⟩ j (List.mem_range.mpr hj)
      · cases hn : f n with
        | ok b => simp [hn, Bind.bind, Except.bind, Pure.pure, Except.pure] at hlast
        | error e' => simpa [hn, Bind.bind, Except.bind] using hlast

end MapM

/-! ## Frames -/

namespace Leaves

variable {R : σ → σ → Prop}

theorem modify {f : σ → σ} (h : ∀ s, R s (f s)) :
    Leaves R (modify f : EStateM ε σ PUnit) := h

theorem of_ok {act : EStateM ε σ α} (h : Leaves R act) {s t : σ} {a : α} (hok : act s = .ok a t) :
    R s t := by
  simpa only [hok, finalState] using h s

theorem of_error {act : EStateM ε σ α} (h : Leaves R act) {s t : σ} {e : ε}
    (herror : act s = .error e t) : R s t := by
  simpa only [herror, finalState] using h s

/-- Looking at the state first does not matter. -/
theorem get_bind {f : σ → EStateM ε σ α} (h : ∀ s, Leaves R (f s)) :
    Leaves R (get >>= f) := fun s => h s s

variable [IsPreorder σ R]

theorem pure (a : α) : Leaves R (pure a : EStateM ε σ α) := fun s => refl s

theorem throw (e : ε) : Leaves R (throw e : EStateM ε σ α) := fun s => refl s

theorem bind {act : EStateM ε σ α} {f : α → EStateM ε σ β} (hact : Leaves R act)
    (hf : ∀ a, Leaves R (f a)) : Leaves R (act >>= f) := by
  intro s
  have hfirst := hact s
  cases h : act s with
  | ok a t =>
    rw [h] at hfirst
    rw [bind_of_ok h]
    exact IsTrans.trans _ _ _ hfirst (hf a t)
  | error e t =>
    rw [h] at hfirst
    rwa [bind_of_error h]

end Leaves

end Mos6502
