import Mathlib.Order.Defs.Unbundled

/-!
# Programs that can lose power

A program transforms a state and ends in one of three ways: it returns a value,
it is cut by a loss of power, or one of its loops runs out of fuel. What a cut
leaves behind is a state like any other, so one judgement speaks about both the
returned and the interrupted executions.
-/

namespace SecureDeltaOta.Crash

variable {σ α β γ ε : Type}

/-- The end of one execution, with the state it leaves behind. -/
inductive Result (σ α : Type) where
  | done (value : α) (state : σ)
  | cut (state : σ)
  | spin (state : σ)

namespace Result

/-- The state an execution leaves behind, however it ends. -/
def state : Result σ α → σ
  | done _ s => s
  | cut s => s
  | spin s => s

/-- The returned value, if the execution was not interrupted. -/
def value? : Result σ α → Option α
  | done a _ => some a
  | cut _ => none
  | spin _ => none

@[simp] theorem state_done (a : α) (s : σ) : (done a s).state = s := rfl

@[simp] theorem state_cut (s : σ) : (cut s : Result σ α).state = s := rfl

@[simp] theorem state_spin (s : σ) : (spin s : Result σ α).state = s := rfl

/--
Total correctness with a crash condition: a returned value meets `Q`, a cut
leaves a state in `C`, and no loop runs out of fuel.
-/
def Ensures (r : Result σ α) (Q : α → σ → Prop) (C : σ → Prop) : Prop :=
  match r with
  | done a s => Q a s
  | cut s => C s
  | spin _ => False

@[simp] theorem ensures_done {a : α} {s : σ} {Q : α → σ → Prop} {C : σ → Prop} :
    (done a s).Ensures Q C ↔ Q a s := Iff.rfl

theorem Ensures.mono {r : Result σ α} {Q R : α → σ → Prop} {C D : σ → Prop}
    (h : r.Ensures R D) (hQ : ∀ a s, R a s → Q a s) (hC : ∀ s, D s → C s) :
    r.Ensures Q C := by
  cases r with
  | done a s => exact hQ a s h
  | cut s => exact hC s h
  | spin s => exact h

theorem Ensures.and {r : Result σ α} {Q R : α → σ → Prop} {C D : σ → Prop}
    (hQ : r.Ensures Q C) (hR : r.Ensures R D) :
    r.Ensures (fun a s => Q a s ∧ R a s) (fun s => C s ∧ D s) := by
  cases r with
  | done a s => exact ⟨hQ, hR⟩
  | cut s => exact ⟨hQ, hR⟩
  | spin s => exact hQ

/-- A fact about the state left behind, whatever the ending, joins any judgement. -/
theorem Ensures.and_state {r : Result σ α} {Q : α → σ → Prop} {C F : σ → Prop}
    (h : r.Ensures Q C) (hF : F r.state) :
    r.Ensures (fun a s => Q a s ∧ F s) (fun s => C s ∧ F s) := by
  cases r with
  | done a s => exact ⟨h, hF⟩
  | cut s => exact ⟨h, hF⟩
  | spin s => exact h

/-- What holds of every returned and of every interrupted execution holds of the state left. -/
theorem Ensures.state {r : Result σ α} {C : σ → Prop}
    (h : r.Ensures (fun _ s => C s) C) : C r.state := by
  cases r with
  | done a s => exact h
  | cut s => exact h
  | spin s => exact h.elim

end Result

/-- A program over the state `σ` returning `α`. -/
def Prog (σ α : Type) : Type := σ → Result σ α

namespace Prog

/-- Continue a result with the rest of the program; a cut ends everything. -/
def andThen (r : Result σ α) (k : α → Prog σ β) : Result σ β :=
  match r with
  | .done a s => k a s
  | .cut s => .cut s
  | .spin s => .spin s

instance : Monad (Prog σ) where
  pure a := fun s => .done a s
  bind m k := fun s => andThen (m s) k

theorem bind_apply (m : Prog σ α) (k : α → Prog σ β) (s : σ) :
    (m >>= k) s = andThen (m s) k := rfl

/-- Read a component of the state. -/
def read (f : σ → α) : Prog σ α := fun s => .done (f s) s

/-- Replace the state. -/
def modify (f : σ → σ) : Prog σ Unit := fun s => .done () (f s)

/-- Lose power here. -/
def halt : Prog σ α := fun s => .cut s

/-- The loop's fuel is used up although its guard still holds. -/
def spin : Prog σ α := fun s => .spin s

/-- Run a program as one operation: a cut inside leaves the state from before it. -/
def atomic (m : Prog σ α) : Prog σ α := fun s =>
  match m s with
  | .cut _ => .cut s
  | r => r

/-- A loop whose body either continues with a new value of the loop variables or leaves early. -/
def loop (guard : β → Bool) (body : β → Prog σ (Except ε β)) : Nat → β → Prog σ (Except ε β)
  | 0, b => if guard b then spin else pure (.ok b)
  | fuel + 1, b =>
      if guard b then
        body b >>= fun
          | .ok b' => loop guard body fuel b'
          | .error e => pure (.error e)
      else
        pure (.ok b)

/-- A loop with early returns, followed by the rest of the function. -/
def loopThen (guard : β → Bool) (body : β → Prog σ (Except α β)) (fuel : Nat) (b : β)
    (rest : β → Prog σ α) : Prog σ α :=
  loop guard body fuel b >>= fun
    | .ok b' => rest b'
    | .error a => pure a

end Prog

open Prog Result

/-! ## Rules for the judgement -/

@[simp] theorem ensures_pure {a : α} {s : σ} {Q : α → σ → Prop} {C : σ → Prop} :
    ((pure a : Prog σ α) s).Ensures Q C ↔ Q a s := Iff.rfl

@[simp] theorem ensures_read {f : σ → α} {s : σ} {Q : α → σ → Prop} {C : σ → Prop} :
    (Prog.read f s).Ensures Q C ↔ Q (f s) s := Iff.rfl

@[simp] theorem ensures_modify {f : σ → σ} {s : σ} {Q : Unit → σ → Prop} {C : σ → Prop} :
    (Prog.modify f s).Ensures Q C ↔ Q () (f s) := Iff.rfl

@[simp] theorem ensures_halt {s : σ} {Q : α → σ → Prop} {C : σ → Prop} :
    ((Prog.halt : Prog σ α) s).Ensures Q C ↔ C s := Iff.rfl

theorem ensures_bind {m : Prog σ α} {k : α → Prog σ β} {s : σ} {Q : β → σ → Prop}
    {C : σ → Prop} :
    ((m >>= k) s).Ensures Q C ↔ (m s).Ensures (fun a t => (k a t).Ensures Q C) C := by
  rw [Prog.bind_apply]
  cases m s <;> rfl

theorem Ensures.bind {m : Prog σ α} {k : α → Prog σ β} {s : σ} {R : α → σ → Prop}
    {Q : β → σ → Prop} {C D : σ → Prop} (hm : (m s).Ensures R D)
    (hk : ∀ a t, R a t → (k a t).Ensures Q C) (hC : ∀ t, D t → C t) :
    ((m >>= k) s).Ensures Q C :=
  ensures_bind.2 (hm.mono hk hC)

/-- The two exits of a loop: the guard fails with `b`, or the body leaves early with `e`. -/
def Exits (I : β → σ → Prop) (E : ε → σ → Prop) : Except ε β → σ → Prop
  | .ok b, s => I b s
  | .error e, s => E e s

@[simp] theorem exits_ok {I : β → σ → Prop} {E : ε → σ → Prop} {b : β} {s : σ} :
    Exits I E (.ok b) s ↔ I b s := Iff.rfl

/--
The rule for loops. The invariant `I` holds at each test of the guard, each
turn of the body decreases `measure`, and early exits meet `E`. Fuel that
covers the measure is never used up.
-/
theorem ensures_loop {guard : β → Bool} {body : β → Prog σ (Except ε β)} {I : β → σ → Prop}
    {E : ε → σ → Prop} {C : σ → Prop} (measure : β → Nat)
    (hpos : ∀ b s, guard b = true → I b s → 0 < measure b)
    (hbody : ∀ b s, guard b = true → I b s →
      (body b s).Ensures
        (Exits (fun b' t => I b' t ∧ measure b' < measure b) E) C) :
    ∀ fuel b s, measure b ≤ fuel → I b s →
      (Prog.loop guard body fuel b s).Ensures
        (Exits (fun b' t => I b' t ∧ guard b' = false) E) C := by
  intro fuel
  induction fuel with
  | zero =>
      intro b s hfuel hI
      cases hg : guard b with
      | false => simpa [Prog.loop, hg] using hI
      | true => exact absurd (hpos b s hg hI) (by omega)
  | succ fuel ih =>
      intro b s hfuel hI
      cases hg : guard b with
      | false => simpa [Prog.loop, hg] using hI
      | true =>
          simp only [Prog.loop, hg, if_true]
          refine Ensures.bind (hbody b s hg hI) ?_ (fun _ h => h)
          intro r t hr
          cases r with
          | ok b' =>
              have hless : measure b' < measure b := hr.2
              exact ih b' t (by omega) hr.1
          | error e => exact hr

theorem ensures_loopThen {guard : β → Bool} {body : β → Prog σ (Except α β)}
    {rest : β → Prog σ α} {I : β → σ → Prop} {Q : α → σ → Prop} {C : σ → Prop}
    (measure : β → Nat) (hpos : ∀ b s, guard b = true → I b s → 0 < measure b)
    (hbody : ∀ b s, guard b = true → I b s →
      (body b s).Ensures
        (Exits (fun b' t => I b' t ∧ measure b' < measure b) Q) C)
    (hrest : ∀ b s, guard b = false → I b s → (rest b s).Ensures Q C)
    {fuel : Nat} {b : β} {s : σ} (hfuel : measure b ≤ fuel) (hI : I b s) :
    (Prog.loopThen guard body fuel b rest s).Ensures Q C := by
  refine Ensures.bind (ensures_loop measure hpos hbody fuel b s hfuel hI) ?_ (fun _ h => h)
  intro r t hr
  cases r with
  | ok b' => exact hrest b' t hr.2 hr.1
  | error a => exact hr

/-! ## Frames

A program respects a preorder on states when every execution, cut or not, moves
up in it. Frame conditions are such preorders.
-/

/-- Every execution of `m` leaves a state related to the one it began in. -/
def Respects (R : σ → σ → Prop) (m : Prog σ α) : Prop :=
  ∀ s, R s (m s).state

section Respects

variable {R : σ → σ → Prop}

theorem Respects.mono {S : σ → σ → Prop} {m : Prog σ α} (h : Respects R m)
    (hRS : ∀ s t, R s t → S s t) : Respects S m :=
  fun s => hRS s _ (h s)

theorem Respects.ite {c : Prop} [Decidable c] {m k : Prog σ α} (hm : Respects R m)
    (hk : Respects R k) : Respects R (if c then m else k) := by
  split
  · exact hm
  · exact hk

variable [IsPreorder σ R]

theorem Respects.pure (a : α) : Respects R (Pure.pure a : Prog σ α) :=
  fun s => refl s

theorem Respects.read (f : σ → α) : Respects R (Prog.read f) :=
  fun s => refl s

theorem Respects.halt : Respects R (Prog.halt : Prog σ α) :=
  fun s => refl s

theorem Respects.bind {m : Prog σ α} {k : α → Prog σ β} (hm : Respects R m)
    (hk : ∀ a, Respects R (k a)) : Respects R (m >>= k) := by
  intro s
  have hfirst := hm s
  rw [Prog.bind_apply]
  cases hrun : m s with
  | done a t =>
      rw [hrun] at hfirst
      exact IsTrans.trans _ _ _ hfirst (hk a t)
  | cut t => rwa [hrun] at hfirst
  | spin t => rwa [hrun] at hfirst

theorem Respects.atomic {m : Prog σ α} (hm : Respects R m) : Respects R (Prog.atomic m) := by
  intro s
  have hrun := hm s
  unfold Prog.atomic
  cases h : m s with
  | done a t => rwa [h] at hrun
  | cut t => exact refl s
  | spin t => rwa [h] at hrun

theorem Respects.loop {guard : β → Bool} {body : β → Prog σ (Except ε β)}
    (hbody : ∀ b, guard b = true → Respects R (body b)) :
    ∀ fuel b, Respects R (Prog.loop guard body fuel b) := by
  intro fuel
  induction fuel with
  | zero =>
      intro b s
      unfold Prog.loop
      split <;> exact refl s
  | succ fuel ih =>
      intro b
      unfold Prog.loop
      split
      · next hguard =>
          refine Respects.bind (hbody b hguard) ?_
          intro r
          cases r with
          | ok b' => exact ih b'
          | error e => exact Respects.pure _
      · exact Respects.pure _

theorem Respects.loopThen {guard : β → Bool} {body : β → Prog σ (Except α β)}
    {rest : β → Prog σ α} (hbody : ∀ b, guard b = true → Respects R (body b))
    (hrest : ∀ b, Respects R (rest b))
    (fuel : Nat) (b : β) : Respects R (Prog.loopThen guard body fuel b rest) := by
  refine Respects.bind (Respects.loop hbody fuel b) ?_
  intro r
  cases r with
  | ok b' => exact hrest b'
  | error a => exact Respects.pure a

end Respects

-- from here on loops are reasoned about with the rules above and never unrolled
attribute [irreducible] Prog.loop

end SecureDeltaOta.Crash
