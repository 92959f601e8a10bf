import MarkovCheck.Chain.Options
import MarkovCheck.Proofs.Outcome

/-!
# Asking for the signal to stop

The signal decides whether a computation ends early, never what it returns. So a computation that
returns would have returned the same if it had asked less often before it began, or if the signal
had come later; and it would have asked equally often. Without a signal nothing depends on how often
was asked.

* `Polling.Follows`: what returns under one signal also returns under a later one
* `Polling.Steady`: what does not depend on how often was asked before
* `Polling.value_bind`: a sequence of calls, if what follows is steady
-/

namespace MarkovCheck

theorem Options.isCancelled_mono {α : Type} (o : Options α) {polls polls' : Nat}
    (earlier : polls ≤ polls') (told : o.isCancelled polls = true) :
    o.isCancelled polls' = true := by
  rw [isCancelled, Option.any_eq_true] at told ⊢
  obtain ⟨vain, given, passed⟩ := told
  exact ⟨vain, given, decide_eq_true (Nat.le_trans (of_decide_eq_true passed) earlier)⟩

theorem Options.not_isCancelled {α : Type} (o : Options α) (running : o.cancelledAfter = none)
    (polls : Nat) : o.isCancelled polls = false := by
  rw [isCancelled, running]
  rfl

/-- A signal that is found was given. -/
theorem Options.exists_cancelledAfter {α : Type} {o : Options α} {polls : Nat}
    (told : o.isCancelled polls = true) : ∃ vain, o.cancelledAfter = some vain := by
  rw [isCancelled, Option.any_eq_true] at told
  obtain ⟨vain, given, _⟩ := told
  exact ⟨vain, given⟩

namespace Polling

variable {α β γ : Type} {x y : Polling α β} {f g : β → Polling α γ} {o wide : Options α}

/-! ## Single steps -/

theorem run_bind_eq_ok {c : γ} {before after : Nat} :
    (x >>= f).run before = .ok (c, after) ↔ ∃ b between,
      x.run before = .ok (b, between) ∧ (f b).run between = .ok (c, after) := by
  rw [StateT.run_bind, Outcome.bind_eq_ok, Prod.exists]

theorem run_lift_eq_ok {r : Except (Error α) β} {b : β} {before after : Nat} :
    (liftM r : Polling α β).run before = .ok (b, after) ↔ r = .ok b ∧ after = before := by
  cases r with
  | error e =>
    constructor
    · intro returned
      cases returned
    · rintro ⟨returned, _⟩
      cases returned
  | ok b' =>
    constructor
    · intro returned
      cases returned
      exact ⟨rfl, rfl⟩
    · rintro ⟨same, rfl⟩
      cases same
      rfl

theorem run_poll_eq_ok {u : Unit} {before after : Nat} :
    o.poll.run before = .ok (u, after) ↔
      o.isCancelled before = false ∧ after = before + 1 := by
  simp only [Options.poll, StateT.run]
  cases o.isCancelled before with
  | true => simp
  | false => simp [eq_comm]

theorem run'_bind_lift (r : Except (Error α) β) (polls : Nat) :
    ((liftM r : Polling α β) >>= f).run' polls = r >>= fun b => (f b).run' polls := by
  cases r <;> rfl

theorem run'_bind_poll (x : Polling α β) (polls : Nat) :
    (o.poll >>= fun _ => x).run' polls =
      if o.isCancelled polls then .error .cancelled else x.run' (polls + 1) := by
  change Prod.fst <$> (o.poll.run polls >>= fun r => x.run r.2) = _
  simp only [Options.poll, StateT.run]
  split
  · rfl
  · rfl

theorem value_bind_lift (r : Except (Error α) β) :
    ((liftM r : Polling α β) >>= f).value = r >>= fun b => (f b).value :=
  run'_bind_lift r 0

theorem run'_eq_error {e : Error α} {polls : Nat} (failed : x.run polls = .error e) :
    x.run' polls = .error e := by
  change Prod.fst <$> x.run polls = _
  rw [failed]
  rfl

theorem value_eq_ok {b : β} : x.value = .ok b ↔ ∃ after, x.run 0 = .ok (b, after) := by
  refine (Outcome.map_eq_ok (x := x.run 0)).trans ?_
  simp only [Prod.exists, exists_and_right, exists_eq_right]

/-! ## Later signals -/

/-- Whatever the first computation returns, the second one returns if it has not asked more often
before it begins, and both ask equally often. -/
def Follows (x y : Polling α β) : Prop :=
  ∀ b before after, x.run before = .ok (b, after) →
    ∃ asked, after = before + asked ∧
      ∀ earlier ≤ before, y.run earlier = .ok (b, earlier + asked)

theorem follows_lift (r : Except (Error α) β) : Follows (liftM r : Polling α β) (liftM r) := by
  intro b before after returned
  obtain ⟨value, rfl⟩ := run_lift_eq_ok.mp returned
  exact ⟨0, rfl, fun earlier _ => run_lift_eq_ok.mpr ⟨value, rfl⟩⟩

theorem follows_pure (b : β) : Follows (pure b : Polling α β) (pure b) := follows_lift (.ok b)

theorem follows_throw (e : Error α) (y : Polling α β) : Follows (throw e) y :=
  fun _ _ _ returned => nomatch returned

theorem follows_poll
    (later : ∀ polls, wide.isCancelled polls = true → o.isCancelled polls = true) :
    Follows o.poll wide.poll := by
  intro u before after returned
  obtain ⟨untold, rfl⟩ := run_poll_eq_ok.mp returned
  refine ⟨1, rfl, fun earlier atMost => run_poll_eq_ok.mpr ⟨?_, rfl⟩⟩
  rw [← Bool.not_eq_true] at untold ⊢
  exact fun told => untold (later before (wide.isCancelled_mono atMost told))

theorem Follows.bind (first : Follows x y) (second : ∀ b, Follows (f b) (g b)) :
    Follows (x >>= f) (y >>= g) := by
  intro c before after returned
  obtain ⟨b, between, start, rest⟩ := run_bind_eq_ok.mp returned
  obtain ⟨asked, rfl, start'⟩ := first b before between start
  obtain ⟨more, rfl, rest'⟩ := second b _ _ _ rest
  refine ⟨asked + more, Nat.add_assoc _ _ _, fun earlier atMost => run_bind_eq_ok.mpr ?_⟩
  refine ⟨b, earlier + asked, start' earlier atMost, ?_⟩
  rw [← Nat.add_assoc]
  exact rest' (earlier + asked) (Nat.add_le_add_right atMost asked)

theorem Follows.value_of_run (follows : Follows x y) {b : β} {before after : Nat}
    (returned : x.run before = .ok (b, after)) : y.value = .ok b := by
  obtain ⟨asked, _, again⟩ := follows b before after returned
  exact value_eq_ok.mpr ⟨_, again 0 (Nat.zero_le before)⟩

theorem Follows.value (follows : Follows x y) {b : β} (returned : x.value = .ok b) :
    y.value = .ok b := by
  obtain ⟨after, run⟩ := value_eq_ok.mp returned
  exact follows.value_of_run run

/-- A sequence that returns is a sequence of calls that return. -/
theorem value_bind_eq_ok (follows : ∀ b, Follows (f b) (f b)) {c : γ}
    (returned : (x >>= f).value = .ok c) : ∃ b, x.value = .ok b ∧ (f b).value = .ok c := by
  obtain ⟨after, run⟩ := value_eq_ok.mp returned
  obtain ⟨b, between, start, rest⟩ := run_bind_eq_ok.mp run
  exact ⟨b, value_eq_ok.mpr ⟨between, start⟩, (follows b).value_of_run rest⟩

theorem value_map_eq_ok {g : β → γ} {c : γ}
    (returned : (x >>= fun b => pure (g b)).value = .ok c) : ∃ b, x.value = .ok b ∧ c = g b := by
  obtain ⟨b, start, result⟩ := value_bind_eq_ok (fun b => follows_pure (g b)) returned
  cases result
  exact ⟨b, start, rfl⟩

theorem value_both_eq_ok {δ : Type} {z : Polling α γ} (follows : Follows z z) {g : β → γ → δ}
    {d : δ} (returned : (x >>= fun b => z >>= fun c => pure (g b c)).value = .ok d) :
    ∃ b c, x.value = .ok b ∧ z.value = .ok c ∧ d = g b c := by
  obtain ⟨b, start, rest⟩ :=
    value_bind_eq_ok (fun b => follows.bind fun c => follows_pure (g b c)) returned
  obtain ⟨c, end_, result⟩ := value_map_eq_ok rest
  exact ⟨b, c, start, end_, result⟩

/-! ## No signal -/

/-- What the computation ends with does not depend on how often was asked before. -/
def Steady (x : Polling α β) : Prop := ∀ polls, x.run' polls = x.value

theorem steady_lift (r : Except (Error α) β) : Steady (liftM r : Polling α β) := by
  intro polls
  cases r <;> rfl

theorem steady_pure (b : β) : Steady (pure b : Polling α β) := steady_lift (.ok b)

theorem steady_throw (e : Error α) : Steady (throw e : Polling α β) := steady_lift (.error e)

theorem steady_poll (running : o.cancelledAfter = none) : Steady o.poll := by
  intro polls
  change Prod.fst <$> (if _ then _ else _) = Prod.fst <$> (if _ then _ else _)
  rw [o.not_isCancelled running, o.not_isCancelled running]
  rfl

theorem run'_bind (steady : ∀ b, Steady (f b)) (polls : Nat) :
    (x >>= f).run' polls = x.run' polls >>= fun b => (f b).value := by
  change Prod.fst <$> (x.run polls >>= fun r => (f r.1).run r.2) = (Prod.fst <$> x.run polls) >>= _
  cases x.run polls with
  | error e => rfl
  | ok r => exact steady r.1 r.2

theorem value_bind (steady : ∀ b, Steady (f b)) :
    (x >>= f).value = x.value >>= fun b => (f b).value :=
  run'_bind steady 0

theorem Steady.bind (first : Steady x) (second : ∀ b, Steady (f b)) : Steady (x >>= f) := by
  intro polls
  rw [value_bind second, run'_bind second, first polls]

theorem value_lift (r : Except (Error α) β) : (liftM r : Polling α β).value = r := by
  cases r <;> rfl

end Polling

end MarkovCheck
