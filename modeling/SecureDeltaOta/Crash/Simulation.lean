import SecureDeltaOta.Crash.Program

/-!
# Programs that run in step

A program that records what it does is compared with one that does not. The two
end alike: both return, both are cut, or both leave with the same status; and
what is recorded stays sound to the end, however that end comes about. Beside
that there is a judgement on returned values alone.
-/

namespace SecureDeltaOta.Crash

open Prog

variable {σ τ α β α' β' ε status : Type}

/-! ## Two executions -/

namespace Result

/-- Two executions end alike, and neither runs out of fuel. -/
def Follows (r : Result σ α) (q : Result τ β) (R : α → β → σ → τ → Prop) (C : σ → τ → Prop) :
    Prop :=
  match r, q with
  | done a s, done b t => R a b s t
  | cut s, cut t => C s t
  | _, _ => False

theorem Follows.mono {r : Result σ α} {q : Result τ β} {R R' : α → β → σ → τ → Prop}
    {C C' : σ → τ → Prop} (h : r.Follows q R C) (hR : ∀ a b s t, R a b s t → R' a b s t)
    (hC : ∀ s t, C s t → C' s t) : r.Follows q R' C' := by
  cases r with
  | done a s =>
      cases q with
      | done b t => exact hR a b s t h
      | cut t => exact h.elim
      | spin t => exact h.elim
  | cut s =>
      cases q with
      | done b t => exact h.elim
      | cut t => exact hC s t h
      | spin t => exact h.elim
  | spin s => exact h.elim

/-- What two executions have in common holds of the first. -/
theorem Follows.ensures {r : Result σ α} {q : Result τ β} {R : α → β → σ → τ → Prop}
    {C : σ → τ → Prop} (h : r.Follows q R C) :
    r.Ensures (fun a s => ∃ b t, q = done b t ∧ R a b s t) (fun s => ∃ t, q = cut t ∧ C s t) := by
  cases r with
  | done a s =>
      cases q with
      | done b t => exact ⟨b, t, rfl, h⟩
      | cut t => exact h.elim
      | spin t => exact h.elim
  | cut s =>
      cases q with
      | done b t => exact h.elim
      | cut t => exact ⟨t, rfl, h⟩
      | spin t => exact h.elim
  | spin s => exact h.elim

end Result

open Result

theorem Follows.bind {m : Prog σ α} {k : α → Prog σ α'} {n : Prog τ β} {l : β → Prog τ β'} {s : σ}
    {t : τ} {R : α → β → σ → τ → Prop} {R' : α' → β' → σ → τ → Prop} {C C' : σ → τ → Prop}
    (hm : (m s).Follows (n t) R C)
    (hk : ∀ a b s' t', R a b s' t' → (k a s').Follows (l b t') R' C')
    (hC : ∀ s' t', C s' t' → C' s' t') : ((m >>= k) s).Follows ((n >>= l) t) R' C' := by
  rw [bind_apply, bind_apply]
  revert hm
  cases m s with
  | done a s' =>
      cases n t with
      | done b t' => exact fun h => hk a b s' t' h
      | cut t' => exact False.elim
      | spin t' => exact False.elim
  | cut s' =>
      cases n t with
      | done b t' => exact False.elim
      | cut t' => exact fun h => hC s' t' h
      | spin t' => exact False.elim
  | spin s' => exact False.elim

/-- The exits of two loops that run in step. -/
def Exits₂ {ε' : Type} (I : β → β' → σ → τ → Prop) (E : ε → ε' → σ → τ → Prop) :
    Except ε β → Except ε' β' → σ → τ → Prop
  | .ok b, .ok b', s, t => I b b' s t
  | .error e, .error e', s, t => E e e' s t
  | _, _, _, _ => False

theorem loop_stop {guard : β → Bool} {body : β → Prog σ (Except ε β)} {b : β}
    (h : guard b = false) (fuel : Nat) : Prog.loop guard body fuel b = pure (.ok b) := by
  cases fuel <;> simp [Prog.loop, h]

/-- Two loops whose guards agree run in step; the measure of the second bounds both. -/
theorem follows_loop {ε' : Type} {guard : β → Bool} {body : β → Prog σ (Except ε β)}
    {guard' : β' → Bool} {body' : β' → Prog τ (Except ε' β')} {I : β → β' → σ → τ → Prop}
    {E : ε → ε' → σ → τ → Prop} {C : σ → τ → Prop} (measure : β' → Nat)
    (hguard : ∀ b b' s t, I b b' s t → guard b = guard' b')
    (hpos : ∀ b b' s t, guard' b' = true → I b b' s t → 0 < measure b')
    (hbody : ∀ b b' s t, guard' b' = true → I b b' s t →
      (body b s).Follows (body' b' t)
        (Exits₂ (fun c c' u v => I c c' u v ∧ measure c' < measure b') E) C) :
    ∀ fuel fuel' b b' s t, measure b' ≤ fuel → measure b' ≤ fuel' → I b b' s t →
      (Prog.loop guard body fuel b s).Follows (Prog.loop guard' body' fuel' b' t)
        (Exits₂ (fun c c' u v => I c c' u v ∧ guard' c' = false) E) C := by
  intro fuel
  induction fuel with
  | zero =>
      intro fuel' b b' s t hfuel hfuel' hI
      have hstop : guard' b' = false := by
        cases hgo : guard' b' with
        | false => rfl
        | true => exact absurd (hpos b b' s t hgo hI) (by omega)
      rw [loop_stop ((hguard b b' s t hI).trans hstop), loop_stop hstop]
      exact ⟨hI, hstop⟩
  | succ fuel ih =>
      intro fuel' b b' s t hfuel hfuel' hI
      have hsame := hguard b b' s t hI
      cases hgo : guard' b' with
      | false =>
          rw [loop_stop (hsame.trans hgo), loop_stop hgo]
          exact ⟨hI, hgo⟩
      | true =>
          rw [hgo] at hsame
          have hmeasure := hpos b b' s t hgo hI
          cases fuel' with
          | zero => omega
          | succ fuel' =>
              unfold Prog.loop
              simp only [hgo, hsame, if_true]
              refine Follows.bind (hbody b b' s t hgo hI) ?_ (fun _ _ h => h)
              intro r r' u v hr
              cases r with
              | ok c =>
                  cases r' with
                  | ok c' =>
                      have hless : measure c' < measure b' := hr.2
                      exact ih fuel' c c' u v (by omega) (by omega) hr.1
                  | error e' => exact hr.elim
              | error e =>
                  cases r' with
                  | ok c' => exact hr.elim
                  | error e' => exact hr

/-! ## Returned values -/

/-- A sequence that returns does so in two parts. -/
theorem bind_done {m : Prog σ α} {k : α → Prog σ α'} {s t : σ} {b : α'}
    (h : (m >>= k) s = .done b t) : ∃ a u, m s = .done a u ∧ k a u = .done b t := by
  rw [bind_apply] at h
  cases hrun : m s with
  | done a u =>
      rw [hrun] at h
      exact ⟨a, u, rfl, h⟩
  | cut u =>
      rw [hrun] at h
      cases h
  | spin u =>
      rw [hrun] at h
      cases h

theorem done_bind {m : Prog σ α} {k : α → Prog σ α'} {s u : σ} {a : α} (h : m s = .done a u) :
    (m >>= k) s = k a u := by
  rw [bind_apply, h]
  rfl

/-- A loop whose guard fails is left. -/
theorem loopThen_exit {guard : β → Bool} {body : β → Prog σ (Except α β)} {fuel : Nat} {b : β}
    {rest : β → Prog σ α} {s : σ} (hguard : guard b = false) :
    Prog.loopThen guard body fuel b rest s = rest b s := by
  unfold Prog.loopThen
  rw [loop_stop hguard]
  rfl

/-- A loop goes on with what its body returns. -/
theorem loopThen_step {guard : β → Bool} {body : β → Prog σ (Except α β)} {fuel : Nat} {b c : β}
    {rest : β → Prog σ α} {s t : σ} (hguard : guard b = true)
    (hbody : body b s = .done (.ok c) t) :
    Prog.loopThen guard body (fuel + 1) b rest s = Prog.loopThen guard body fuel c rest t := by
  have hloop : Prog.loop guard body (fuel + 1) b s = Prog.loop guard body fuel c t := by
    rw [Prog.loop, if_pos hguard]
    exact done_bind hbody
  unfold Prog.loopThen
  rw [bind_apply, bind_apply, hloop]

/-- A loop whose body leaves early returns what the body says. -/
theorem loopThen_leave {guard : β → Bool} {body : β → Prog σ (Except α β)} {fuel : Nat} {b : β}
    {rest : β → Prog σ α} {s t : σ} {a : α} (hguard : guard b = true)
    (hbody : body b s = .done (.error a) t) :
    Prog.loopThen guard body (fuel + 1) b rest s = .done a t := by
  have hloop : Prog.loop guard body (fuel + 1) b s = .done (.error a) t := by
    rw [Prog.loop, if_pos hguard]
    exact done_bind hbody
  exact done_bind hloop

/-- Whatever the state is, a returned value meets `Q`. -/
def Returns (m : Prog σ α) (Q : α → Prop) : Prop :=
  ∀ s a t, m s = .done a t → Q a

section Returns

variable {Q : α → Prop} {Q' : α' → Prop}

theorem Returns.pure {a : α} (h : Q a) : Returns (Pure.pure a : Prog σ α) Q := by
  intro s b t hb
  cases hb
  exact h

theorem Returns.mono {Q'' : α → Prop} {m : Prog σ α} (h : Returns m Q) (hQ : ∀ a, Q a → Q'' a) :
    Returns m Q'' :=
  fun s a t ha => hQ a (h s a t ha)

theorem Returns.trivial (m : Prog σ α) : Returns m fun _ => True :=
  fun _ _ _ _ => True.intro

theorem Returns.bind {m : Prog σ α} {k : α → Prog σ α'} (hm : Returns m Q)
    (hk : ∀ a, Q a → Returns (k a) Q') : Returns (m >>= k) Q' := by
  intro s b t hb
  obtain ⟨a, u, hrun, hrest⟩ := bind_done hb
  exact hk a (hm s a u hrun) u b t hrest

theorem Returns.read {f : σ → α} (h : ∀ s, Q (f s)) : Returns (Prog.read f) Q := by
  intro s a t ha
  cases ha
  exact h s

theorem Returns.ite {c : Prop} [Decidable c] {m n : Prog σ α} (hm : c → Returns m Q)
    (hn : ¬ c → Returns n Q) : Returns (if c then m else n) Q := by
  by_cases hc : c
  · rw [if_pos hc]
    exact hm hc
  · rw [if_neg hc]
    exact hn hc

/-- The loop variables meet `I` at each test of the guard, and early exits meet `Q`. -/
theorem Returns.loopThen {guard : β → Bool} {body : β → Prog σ (Except α β)} {rest : β → Prog σ α}
    {I : β → Prop}
    (hbody : ∀ b, guard b = true → I b → Returns (body b) (fun
      | .ok b' => I b'
      | .error a => Q a))
    (hrest : ∀ b, guard b = false → I b → Returns (rest b) Q) (fuel : Nat) {b : β} (hI : I b) :
    Returns (Prog.loopThen guard body fuel b rest) Q := by
  have hloop : ∀ fuel b, I b → Returns (Prog.loop guard body fuel b) (fun
      | .ok b' => I b' ∧ guard b' = false
      | .error a => Q a) := by
    intro fuel
    induction fuel with
    | zero =>
        intro b hI
        cases hgo : guard b with
        | false =>
            rw [loop_stop hgo]
            exact Returns.pure ⟨hI, hgo⟩
        | true =>
            intro s a t ha
            simp only [Prog.loop, hgo, if_true] at ha
            cases ha
    | succ fuel ih =>
        intro b hI
        cases hgo : guard b with
        | false =>
            rw [loop_stop hgo]
            exact Returns.pure ⟨hI, hgo⟩
        | true =>
            simp only [Prog.loop, hgo, if_true]
            refine Returns.bind (hbody b hgo hI) ?_
            intro r hr
            cases r with
            | ok b' => exact ih b' hr
            | error a => exact Returns.pure hr
  refine Returns.bind (hloop fuel b hI) ?_
  intro r hr
  cases r with
  | ok b' => exact hrest b' hr.2 hr.1
  | error a => exact Returns.pure hr

end Returns

/-! ## Recording programs -/

/-- A state with a record of what was done, oldest entry first. -/
structure Traced (σ ε : Type) where
  state : σ
  trace : List ε

namespace Traced

def note (s : Traced σ ε) (e : ε) : Traced σ ε := { s with trace := s.trace ++ [e] }

@[simp] theorem note_trace (s : Traced σ ε) (e : ε) : (s.note e).trace = s.trace ++ [e] := rfl

end Traced

/-- A recording program that returns a value or leaves with a status. -/
abbrev Coded (σ ε status : Type) (α : Type) : Type := ExceptT status (Prog (Traced σ ε)) α

namespace Coded

/-- Write an entry into the record. -/
def note (e : ε) : Coded σ ε status Unit :=
  ExceptT.mk fun s => .done (.ok ()) (s.note e)

/-- Run a program on the state beneath the record. -/
def observe (m : Prog σ α) : Coded σ ε status α :=
  ExceptT.mk fun s =>
    match m s.state with
    | .done a t => .done (.ok a) { s with state := t }
    | .cut t => .cut { s with state := t }
    | .spin t => .spin { s with state := t }

/-- A loop whose body may leave with a status. -/
def whileLoop (guard : β → Bool) (body : β → Coded σ ε status β) (fuel : Nat) (b : β) :
    Coded σ ε status β :=
  ExceptT.mk (Prog.loop guard (fun b => (body b).run) fuel b)

/-- What the two programs return is related, or they leave with the same status. -/
def Agree (sound : List ε → Prop) (R : α → β → Traced σ ε → Prop) :
    Except status α → Except status β → Traced σ ε → Prop
  | .ok a, .ok b, s => R a b s
  | .error e, .error e', s => e = e' ∧ sound s.trace
  | _, _, _ => False

/-- A recording program runs in step with one that does not record. -/
def Steps (sound : List ε → Prop) (r : Result (Traced σ ε) (Except status α))
    (q : Result σ (Except status β)) (R : α → β → Traced σ ε → Prop) : Prop :=
  r.Follows q (fun a b s t => s.state = t ∧ Agree sound R a b s)
    (fun s t => s.state = t ∧ sound s.trace)

section Rules

variable {sound : List ε → Prop} {R : α → β → Traced σ ε → Prop}
  {R' : α' → β' → Traced σ ε → Prop} {s : Traced σ ε} {q : Result σ (Except status β)}

theorem Steps.pure {a : α} {b : β} (h : R a b s) :
    Steps sound ((Pure.pure a : Coded σ ε status α).run s)
      ((Pure.pure (.ok b) : Prog σ (Except status β)) s.state) R :=
  ⟨rfl, h⟩

theorem Steps.throw {e : status} (h : sound s.trace) :
    Steps sound ((throw e : Coded σ ε status α).run s)
      ((Pure.pure (.error e) : Prog σ (Except status β)) s.state) R :=
  ⟨rfl, rfl, h⟩

theorem Steps.mono {r : Result (Traced σ ε) (Except status α)} {R'' : α → β → Traced σ ε → Prop}
    (h : Steps sound r q R) (hR : ∀ a b t, R a b t → R'' a b t) : Steps sound r q R'' := by
  refine Result.Follows.mono h ?_ (fun _ _ h => h)
  rintro a b s t ⟨hs, hagree⟩
  refine ⟨hs, ?_⟩
  cases a with
  | ok a =>
      cases b with
      | ok b => exact hR _ _ _ hagree
      | error e => exact hagree.elim
  | error e =>
      cases b with
      | ok b => exact hagree.elim
      | error e => exact hagree

theorem Steps.bind {m : Coded σ ε status α} {k : α → Coded σ ε status α'}
    {n : Prog σ (Except status β)} {l : Except status β → Prog σ (Except status β')} {u : σ}
    (hm : Steps sound (m.run s) (n u) R)
    (hok : ∀ a b t, R a b t → Steps sound ((k a).run t) (l (.ok b) t.state) R')
    (herror : ∀ e, l (.error e) = Pure.pure (.error e)) :
    Steps sound ((m >>= k).run s) ((n >>= l) u) R' := by
  refine Crash.Follows.bind (m := m.run) (k := ExceptT.bindCont k) hm ?_ (fun _ _ h => h)
  rintro r r' t t' ⟨rfl, hagree⟩
  cases r with
  | ok a =>
      cases r' with
      | ok b => exact hok a b t hagree
      | error e => exact hagree.elim
  | error e =>
      cases r' with
      | ok b => exact hagree.elim
      | error e' =>
          obtain ⟨rfl, hsound⟩ := hagree
          rw [herror]
          exact ⟨rfl, rfl, hsound⟩

/-- The recording program goes on where the other one has returned. -/
theorem Steps.after {m : Coded σ ε status α} {k : α → Coded σ ε status α'}
    {R' : α' → β → Traced σ ε → Prop} (hm : Steps sound (m.run s) q R)
    (hk : ∀ a b t, R a b t →
      Steps sound ((k a).run t) ((Pure.pure (.ok b) : Prog σ (Except status β)) t.state) R') :
    Steps sound ((m >>= k).run s) q R' := by
  let n : Prog σ (Except status β) := fun _ => q
  have heq : (n >>= Pure.pure) s.state = q := by
    change andThen q Pure.pure = q
    cases q <;> rfl
  have hbind : Steps sound ((m >>= k).run s) ((n >>= Pure.pure) s.state) R' :=
    Steps.bind hm hk (fun _ => rfl)
  rwa [heq] at hbind

/-- An entry in the record is a step of the recording program alone. -/
theorem Steps.note {e : ε} {k : Unit → Coded σ ε status α}
    (h : Steps sound ((k ()).run (s.note e)) q R) :
    Steps sound ((note e >>= k).run s) q R :=
  h

theorem Steps.ite {c c' : Prop} [Decidable c] [Decidable c'] {m m' : Coded σ ε status α}
    {n n' : Prog σ (Except status β)} {u : σ} (hiff : c ↔ c')
    (hthen : c → c' → Steps sound (m.run s) (n u) R)
    (helse : ¬ c → ¬ c' → Steps sound (m'.run s) (n' u) R) :
    Steps sound ((if c then m else m').run s) ((if c' then n else n') u) R := by
  by_cases hc : c
  · rw [if_pos hc, if_pos (hiff.1 hc)]
    exact hthen hc (hiff.1 hc)
  · have hc' : ¬ c' := fun h => hc (hiff.2 h)
    rw [if_neg hc, if_neg hc']
    exact helse hc hc'

/-- A program on the state beneath runs in step with itself. -/
theorem follows_observe {m : Prog σ α} {C : σ → Prop} {Q : α → σ → Prop}
    (h : (m s.state).Ensures Q C) :
    ((observe m : Coded σ ε status α).run s).Follows (m s.state)
      (fun r b t u => r = .ok b ∧ t.state = u ∧ t.trace = s.trace ∧ Q b u)
      (fun t u => t.state = u ∧ t.trace = s.trace) := by
  unfold observe
  revert h
  simp only [ExceptT.run, ExceptT.mk]
  cases m s.state with
  | done a t => exact fun h => ⟨rfl, rfl, rfl, h⟩
  | cut t => exact fun _ => ⟨rfl, rfl⟩
  | spin t => exact False.elim

/-- The program that records observes one step of the other program. -/
theorem Steps.observe {m : Prog σ α} {k : α → Coded σ ε status α'}
    {l : α → Prog σ (Except status β')} {C : σ → Prop} {Q : α → σ → Prop}
    (h : (m s.state).Ensures Q C) (hsound : sound s.trace)
    (hk : ∀ a t, t.trace = s.trace → Q a t.state → Steps sound ((k a).run t) (l a t.state) R') :
    Steps sound ((observe m >>= k).run s) ((m >>= l) s.state) R' := by
  refine Crash.Follows.bind (m := (Coded.observe m).run) (k := ExceptT.bindCont k)
    (follows_observe h) ?_ ?_
  · rintro r b t u ⟨rfl, rfl, htrace, hQ⟩
    exact hk b t htrace hQ
  · rintro t u ⟨hstate, htrace⟩
    exact ⟨hstate, htrace ▸ hsound⟩

/-- Two loops in step, followed by the rest of the function. -/
theorem Steps.loopThen {γ γ' : Type} {guard : γ → Bool} {body : γ → Coded σ ε status γ}
    {guard' : γ' → Bool} {body' : γ' → Prog σ (Except (Except status β) γ')}
    {k : γ → Coded σ ε status α} {rest : γ' → Prog σ (Except status β)}
    {I : γ → γ' → Traced σ ε → Prop} (measure : γ' → Nat)
    (hguard : ∀ b b' t, I b b' t → guard b = guard' b')
    (hpos : ∀ b b' t, guard' b' = true → I b b' t → 0 < measure b')
    (hbody : ∀ b b' t, guard' b' = true → I b b' t →
      ∃ step : Prog σ (Except status γ'),
        (body' b' = step >>= fun r => Pure.pure (r.mapError .error)) ∧
        Steps sound ((body b).run t) (step t.state)
          (fun c c' t' => I c c' t' ∧ measure c' < measure b'))
    (hrest : ∀ b b' t, guard' b' = false → I b b' t →
      Steps sound ((k b).run t) (rest b' t.state) R)
    {fuel fuel' : Nat} {b : γ} {b' : γ'} {u : σ} (hu : s.state = u)
    (hfuel : measure b' ≤ fuel) (hfuel' : measure b' ≤ fuel') (hI : I b b' s) :
    Steps sound ((whileLoop guard body fuel b >>= k).run s)
      (Prog.loopThen guard' body' fuel' b' rest u) R := by
  subst hu
  refine Crash.Follows.bind (m := (whileLoop guard body fuel b).run) (k := ExceptT.bindCont k)
    (follows_loop (I := fun b b' s t => s.state = t ∧ I b b' s)
      (E := fun e e' s t => s.state = t ∧ e' = .error e ∧ sound s.trace)
      (C := fun s t => s.state = t ∧ sound s.trace) measure
      (fun b b' s t h => hguard b b' s h.2)
      (fun b b' s t hgo h => hpos b b' s hgo h.2) ?_ fuel fuel' b b' s s.state hfuel hfuel'
      ⟨rfl, hI⟩) ?_ (fun _ _ h => h)
  · rintro b b' t u hgo ⟨rfl, hI⟩
    obtain ⟨step, hstep, hsteps⟩ := hbody b b' t hgo hI
    rw [hstep]
    -- the body of the second loop wraps the status it leaves with
    unfold Steps at hsteps
    rw [bind_apply]
    revert hsteps
    cases (body b).run t with
    | done r t' =>
        cases step t.state with
        | done r' u =>
            rintro ⟨hstate, hagree⟩
            cases r with
            | ok c =>
                cases r' with
                | ok c' => exact ⟨⟨hstate, hagree.1⟩, hagree.2⟩
                | error e => exact hagree.elim
            | error e =>
                cases r' with
                | ok c' => exact hagree.elim
                | error e' => exact ⟨hstate, congrArg _ hagree.1.symm, hagree.2⟩
        | cut u => exact False.elim
        | spin u => exact False.elim
    | cut t' =>
        cases step t.state with
        | done r' u => exact False.elim
        | cut u => exact fun h => h
        | spin u => exact False.elim
    | spin t' => exact False.elim
  · intro r r' t u hr
    cases r with
    | ok c =>
        cases r' with
        | ok c' =>
            obtain ⟨⟨rfl, hI⟩, hstop⟩ := hr
            exact hrest c c' t hstop hI
        | error e => exact hr.elim
    | error e =>
        cases r' with
        | ok c' => exact hr.elim
        | error e' =>
            obtain ⟨rfl, rfl, hsound⟩ := hr
            exact ⟨rfl, rfl, hsound⟩

end Rules

end Coded

end SecureDeltaOta.Crash
