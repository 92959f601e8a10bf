/-!
# Computations that can fail

Inversion of `Except` computations, so that a proof can take a successful or a failed computation
apart one step at a time, and the runs of sequences of computations that also carry a state, which a
failure does not undo.
-/

namespace MarkovCheck.Outcome

variable {ε β γ : Type}

theorem bind_eq_ok {x : Except ε β} {f : β → Except ε γ} {c : γ} :
    (x >>= f) = .ok c ↔ ∃ b, x = .ok b ∧ f b = .ok c := by
  cases x with
  | ok b =>
    constructor
    · intro returned
      exact ⟨b, rfl, returned⟩
    · rintro ⟨b', same, returned⟩
      cases same
      exact returned
  | error e =>
    constructor
    · intro returned
      cases returned
    · rintro ⟨b', same, _⟩
      cases same

theorem map_eq_ok {x : Except ε β} {f : β → γ} {c : γ} :
    f <$> x = .ok c ↔ ∃ b, x = .ok b ∧ f b = c := by
  rw [map_eq_pure_bind, bind_eq_ok]
  simp only [pure, Except.pure, Except.ok.injEq]

theorem ok_bind (b : β) (f : β → Except ε γ) : ((.ok b : Except ε β) >>= f) = f b := rfl

def Fails (x : Except ε β) : Prop := ∃ e, x = .error e

theorem fails_error (e : ε) : Fails (.error e : Except ε β) := ⟨e, rfl⟩

theorem fails_iff {x : Except ε β} : Fails x ↔ ∀ b, x ≠ .ok b := by
  cases x with
  | ok b =>
    constructor
    · rintro ⟨e, same⟩
      cases same
    · intro never
      exact absurd rfl (never b)
  | error e =>
    constructor
    · intro _ b same
      cases same
    · intro _
      exact fails_error e

/-! ## Over lists -/

/-- A computation that succeeds on each element succeeds on all of them. -/
theorem mapM_eq_ok {f : β → Except ε γ} {g : β → γ} {xs : List β}
    (each : ∀ x ∈ xs, f x = .ok (g x)) : xs.toArray.mapM f = .ok (xs.map g).toArray := by
  have mapped : xs.mapM f = .ok (xs.map g) := by
    induction xs with
    | nil => rfl
    | cons x xs inductionHypothesis =>
      rw [List.mapM_cons, each x List.mem_cons_self,
        inductionHypothesis fun y member => each y (List.mem_cons_of_mem x member)]
      rfl
  rw [List.mapM_toArray, mapped]
  rfl

/-- A loop over consecutive numbers: what holds before the first step, and is carried from each
number to the next by a step that succeeds, holds after the last. -/
theorem foldlM_range'_eq_ok {σ : Type} {f : σ → Nat → Except ε σ} {holds : Nat → σ → Prop}
    {first : Nat} (count : Nat) {s : σ} (start : holds first s)
    (step : ∀ i, first ≤ i → i < first + count → ∀ s, holds i s →
      ∃ s', f s i = .ok s' ∧ holds (i + 1) s') :
    ∃ s', (List.range' first count).foldlM f s = .ok s' ∧ holds (first + count) s' := by
  induction count generalizing first s with
  | zero => exact ⟨s, rfl, start⟩
  | succ count inductionHypothesis =>
    obtain ⟨next, taken, kept⟩ := step first (Nat.le_refl first) (by omega) s start
    obtain ⟨last, rest, done⟩ := inductionHypothesis kept fun i later inside =>
      step i (by omega) (by omega)
    rw [List.range'_succ, List.foldlM_cons]
    refine ⟨last, bind_eq_ok.mpr ⟨next, taken, rest⟩, ?_⟩
    rwa [Nat.add_assoc, Nat.add_comm 1] at done

theorem filterM_eq_ok {p : β → Except ε Bool} {q : β → Bool} {xs : List β}
    (each : ∀ x ∈ xs, p x = .ok (q x)) : xs.filterM p = .ok (xs.filter q) := by
  -- `filterM` collects in reverse, so the induction is on the list with any elements kept before.
  have collected (kept : List β) :
      xs.filterAuxM p kept = .ok ((xs.filter q).reverse ++ kept) := by
    induction xs generalizing kept with
    | nil => rfl
    | cons x xs inductionHypothesis =>
      have rest := inductionHypothesis fun y member => each y (List.mem_cons_of_mem x member)
      refine bind_eq_ok.mpr ⟨q x, each x List.mem_cons_self, ?_⟩
      cases decided : q x with
      | true => simpa [decided] using rest (x :: kept)
      | false => simpa [decided] using rest kept
  refine bind_eq_ok.mpr ⟨_, collected [], ?_⟩
  rw [List.append_nil, List.reverse_reverse]
  rfl

/-! ## With a state -/

section State

variable {σ : Type} {x : ExceptT ε (StateM σ) β} {f : β → ExceptT ε (StateM σ) γ} {s s' : σ}

theorem run_bind_ok {b : β} (done : x.run s = (.ok b, s')) :
    (x >>= f).run s = (f b).run s' := by
  rw [ExceptT.run_bind]
  simp only [bind, StateT.bind, done]

theorem run_bind_error {e : ε} (failed : x.run s = (.error e, s')) :
    (x >>= f).run s = (.error e, s') := by
  rw [ExceptT.run_bind]
  simp only [bind, StateT.bind, failed]
  rfl

end State

end MarkovCheck.Outcome
