import Mathlib.Tactic

/-!
# Consistent overhead byte stuffing

A frame without zero bytes for an arbitrary message. The message is cut into
runs of nonzero bytes; each run is sent after a code, one more than its length.
A code below `0xFF` also stands for the zero that ended the run, a code `0xFF`
for a run of 254 bytes with no zero after it.
-/

namespace ByteStuffing

def fullRun : Nat := 254

/-- The code byte before a run. -/
def code (run : List UInt8) : UInt8 := UInt8.ofNat (run.length + 1)

/-- The frame of a message, when the bytes of `run` wait for their code. -/
def stuffRun : List UInt8 → List UInt8 → List UInt8
  | run, [] => code run :: run
  | run, b :: bs =>
      if b = 0 then code run :: run ++ stuffRun [] bs
      else if run.length + 1 = fullRun then code (run ++ [b]) :: (run ++ [b]) ++ stuffRun [] bs
      else stuffRun (run ++ [b]) bs

def stuff (message : List UInt8) : List UInt8 := stuffRun [] message

/--
The message of a frame. Any split into runs is accepted, also one that `stuff`
does not produce: a full run may be followed by an empty one.
-/
def unstuffRuns : Nat → List UInt8 → Option (List UInt8)
  | 0, _ => none
  | _ + 1, [] => some []
  | fuel + 1, c :: rest =>
      if c = 0 ∨ rest.length < c.toNat - 1 then none
      else
        let tail := rest.drop (c.toNat - 1)
        let zero := if c ≠ 0xFF ∧ tail ≠ [] then [0] else []
        (unstuffRuns fuel tail).map (rest.take (c.toNat - 1) ++ zero ++ ·)

def unstuff (frame : List UInt8) : Option (List UInt8) :=
  if frame = [] then none else unstuffRuns (frame.length + 1) frame

/-! ## Runs -/

/-- What a run that waits for its code satisfies. -/
structure Open (run : List UInt8) : Prop where
  short : run.length < fullRun
  nonzero : (0 : UInt8) ∉ run

theorem Open.nil : Open [] := ⟨by decide, by simp⟩

theorem Open.push {run : List UInt8} {b : UInt8} (h : Open run) (hb : b ≠ 0)
    (hroom : run.length + 1 ≠ fullRun) : Open (run ++ [b]) := by
  have hshort := h.short
  refine ⟨?_, ?_⟩
  · rw [List.length_append, List.length_singleton]
    omega
  · rw [List.mem_append, List.mem_singleton]
    exact not_or.2 ⟨h.nonzero, hb.symm⟩

theorem toNat_code {run : List UInt8} (h : run.length ≤ fullRun) :
    (code run).toNat = run.length + 1 := by
  have hbound : run.length + 1 < 256 := by
    unfold fullRun at h
    omega
  rw [code, UInt8.toNat_ofNat', Nat.mod_eq_of_lt hbound]

theorem code_ne_zero {run : List UInt8} (h : run.length ≤ fullRun) : code run ≠ 0 := by
  intro hzero
  have hcode := toNat_code h
  rw [hzero] at hcode
  simp at hcode

theorem code_ne_full {run : List UInt8} (h : Open run) : code run ≠ 0xFF := by
  intro hfull
  have hcode := toNat_code h.short.le
  have hshort := h.short
  rw [hfull] at hcode
  unfold fullRun at hshort
  simp at hcode
  omega

theorem code_full {run : List UInt8} (h : run.length = fullRun) : code run = 0xFF := by
  rw [code, h]
  rfl

theorem length_lt_stuffRun (run message : List UInt8) :
    run.length + message.length < (stuffRun run message).length := by
  induction message generalizing run with
  | nil => simp [stuffRun]
  | cons b bs ih =>
      have hrest := ih []
      have hpushed := ih (run ++ [b])
      rw [stuffRun]
      split_ifs
      all_goals
        simp only [List.length_append, List.length_cons, List.length_nil] at *
        omega

theorem stuffRun_ne_nil (run message : List UInt8) : stuffRun run message ≠ [] :=
  List.ne_nil_of_length_pos (Nat.zero_lt_of_lt (length_lt_stuffRun run message))

/-! ## Frames -/

/-- A frame has no zero byte. -/
theorem stuffRun_nonzero {run : List UInt8} (h : Open run) (message : List UInt8) :
    (0 : UInt8) ∉ stuffRun run message := by
  induction message generalizing run with
  | nil =>
      rw [stuffRun, List.mem_cons, not_or]
      exact ⟨(code_ne_zero h.short.le).symm, h.nonzero⟩
  | cons b bs ih =>
      rw [stuffRun]
      split_ifs with hb hfull
      · rw [List.mem_append, List.mem_cons, not_or, not_or]
        exact ⟨⟨(code_ne_zero h.short.le).symm, h.nonzero⟩, ih Open.nil⟩
      · have hrun : (run ++ [b]).length ≤ fullRun := by simp [hfull]
        simp only [List.mem_append, List.mem_cons, not_or]
        exact ⟨⟨(code_ne_zero hrun).symm, h.nonzero, Ne.symm hb, by simp⟩, ih Open.nil⟩
      · exact ih (h.push hb hfull)

/-- Beside the first code there is one byte for each byte, and one more for each full run. -/
theorem stuffRun_length_le {run : List UInt8} (h : Open run) (message : List UInt8) :
    (stuffRun run message).length ≤
      run.length + message.length + 1 + (run.length + message.length) / fullRun := by
  induction message generalizing run with
  | nil =>
      rw [stuffRun, List.length_cons, List.length_nil]
      exact Nat.le_add_right _ _
  | cons b bs ih =>
      have hshort := h.short
      have hrest := ih Open.nil
      rw [List.length_nil] at hrest
      unfold fullRun at *
      rw [stuffRun]
      split_ifs with hb hfull
      · rw [List.length_append, List.length_cons, List.length_cons]
        omega
      · rw [List.length_append, List.length_cons, List.length_append, List.length_singleton,
          List.length_cons]
        unfold fullRun at hfull
        omega
      · have hpushed := ih (h.push hb hfull)
        rw [List.length_append, List.length_singleton] at hpushed
        rw [List.length_cons]
        omega

theorem stuff_nonzero (message : List UInt8) : (0 : UInt8) ∉ stuff message :=
  stuffRun_nonzero Open.nil message

theorem stuff_length_le (message : List UInt8) :
    (stuff message).length ≤ message.length + 1 + message.length / fullRun := by
  have h := stuffRun_length_le Open.nil message
  simpa only [stuff, List.length_nil, Nat.zero_add] using h

/-! ## Reading a frame -/

/-- One run of a frame. -/
theorem unstuffRuns_run {run tail : List UInt8} (h : run.length ≤ fullRun) (fuel : Nat) :
    unstuffRuns (fuel + 1) (code run :: run ++ tail) =
      (unstuffRuns fuel tail).map
        (run ++ (if code run ≠ 0xFF ∧ tail ≠ [] then [0] else []) ++ ·) := by
  have hcode : (code run).toNat - 1 = run.length := by
    rw [toNat_code h]
    omega
  rw [List.cons_append, unstuffRuns, hcode, if_neg]
  · rw [List.take_left, List.drop_left]
  · rw [List.length_append, not_or]
    exact ⟨code_ne_zero h, by omega⟩

/-- A frame is read back as its message. -/
theorem unstuffRuns_stuffRun {run message : List UInt8} (h : Open run) {fuel : Nat}
    (hfuel : message.length + 1 < fuel) :
    unstuffRuns fuel (stuffRun run message) = some (run ++ message) := by
  induction message generalizing run fuel with
  | nil =>
      obtain ⟨fuel, rfl⟩ : ∃ k, fuel = k + 2 := ⟨fuel - 2, by omega⟩
      rw [stuffRun, ← List.append_nil (code run :: run), unstuffRuns_run h.short.le]
      simp [unstuffRuns]
  | cons b bs ih =>
      obtain ⟨fuel, rfl⟩ : ∃ k, fuel = k + 1 := ⟨fuel - 1, by omega⟩
      rw [List.length_cons] at hfuel
      rw [stuffRun]
      split_ifs with hb hfull
      · -- the run ends with the zero that its code stands for
        rw [unstuffRuns_run h.short.le, ih Open.nil (by omega),
          if_pos ⟨code_ne_full h, stuffRun_ne_nil _ _⟩, hb]
        simp
      · have hlength : (run ++ [b]).length = fullRun := by simp [hfull]
        rw [unstuffRuns_run hlength.le, ih Open.nil (by omega), code_full hlength]
        simp
      · rw [ih (h.push hb hfull) (by omega)]
        simp

/-- More fuel than the frame has bytes changes nothing. -/
theorem unstuffRuns_fuel {frame : List UInt8} {fuel fuel' : Nat} (h : frame.length < fuel)
    (h' : frame.length < fuel') : unstuffRuns fuel frame = unstuffRuns fuel' frame := by
  induction fuel generalizing frame fuel' with
  | zero => omega
  | succ fuel ih =>
      obtain ⟨fuel', rfl⟩ : ∃ k, fuel' = k + 1 := ⟨fuel' - 1, by omega⟩
      cases frame with
      | nil => rfl
      | cons c rest =>
          rw [List.length_cons] at h h'
          have hshorter : (rest.drop (c.toNat - 1)).length ≤ rest.length := by simp
          have htail : unstuffRuns fuel (rest.drop (c.toNat - 1)) =
              unstuffRuns fuel' (rest.drop (c.toNat - 1)) :=
            ih (by omega) (by omega)
          simp only [unstuffRuns, htail]

theorem unstuff_stuff (message : List UInt8) : unstuff (stuff message) = some message := by
  have hne : stuff message ≠ [] := stuffRun_ne_nil [] message
  have hread : unstuffRuns ((stuff message).length + message.length + 2) (stuff message) =
      some message :=
    unstuffRuns_stuffRun Open.nil (by omega)
  rw [unstuff, if_neg hne, ← hread]
  exact unstuffRuns_fuel (by omega) (by omega)

/-- A frame is not longer than its message allows, whichever way it is split into runs. -/
theorem length_le_of_unstuffRuns {fuel : Nat} {frame message : List UInt8}
    (h : unstuffRuns fuel frame = some message) :
    frame.length ≤ message.length + 1 + message.length / fullRun := by
  induction fuel generalizing frame message with
  | zero => cases h
  | succ fuel ih =>
      cases frame with
      | nil => simp
      | cons c rest =>
          rw [unstuffRuns, Option.ite_none_left_eq_some, not_or, not_lt] at h
          obtain ⟨⟨hzero, hroom⟩, hmap⟩ := h
          obtain ⟨message', htail, rfl⟩ := Option.map_eq_some_iff.1 hmap
          have hrest := ih htail
          have hcode : c.toNat ≠ 0 := fun h0 => hzero (UInt8.toNat_inj.1 h0)
          simp only [List.length_drop] at hrest
          simp only [List.length_append, List.length_take, List.length_cons]
          unfold fullRun at *
          split_ifs with hsep
          · simp only [List.length_singleton]
            omega
          · rw [not_and_or, not_not, not_not] at hsep
            rcases hsep with rfl | hlast
            · have hfull : (0xFF : UInt8).toNat = 255 := rfl
              simp only [hfull] at hroom hrest ⊢
              simp only [List.length_nil]
              omega
            · have hlength := List.drop_eq_nil_iff.1 hlast
              simp only [List.length_nil]
              omega

theorem length_le_of_unstuff {frame message : List UInt8} (h : unstuff frame = some message) :
    frame.length ≤ message.length + 1 + message.length / fullRun := by
  rw [unstuff, Option.ite_none_left_eq_some] at h
  exact length_le_of_unstuffRuns h.2

end ByteStuffing
