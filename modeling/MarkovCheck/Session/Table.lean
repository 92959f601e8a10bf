/-!
# Named values

A table of values by name, in which a later value replaces an earlier one of the same name.
-/

namespace MarkovCheck

structure Table (β : Type) where
  entries : List (String × β)

namespace Table

variable {β : Type}

def empty : Table β := ⟨[]⟩

def find? (t : Table β) (name : String) : Option β := t.entries.lookup name

def put (t : Table β) (name : String) (value : β) : Table β :=
  ⟨(name, value) :: t.entries.filter fun e => e.1 ≠ name⟩

@[simp] theorem find?_put_self (t : Table β) (name : String) (value : β) :
    (t.put name value).find? name = some value := by
  simp [find?, put]

theorem lookup_filter_ne (entries : List (String × β)) {name other : String} (h : other ≠ name) :
    (entries.filter fun e => e.1 ≠ name).lookup other = entries.lookup other := by
  have apart : (other == name) = false := by simpa using h
  induction entries with
  | nil => rfl
  | cons e entries inductionHypothesis =>
    obtain ⟨key, value⟩ := e
    by_cases same : key = name
    · subst same
      rw [List.filter_cons_of_neg (by simp), List.lookup_cons, apart]
      exact inductionHypothesis
    · rw [List.filter_cons_of_pos (by simpa using same), List.lookup_cons, List.lookup_cons,
        inductionHypothesis]

/-- Giving a name a value leaves the other names alone. -/
theorem find?_put_of_ne (t : Table β) {name other : String} (value : β) (h : other ≠ name) :
    (t.put name value).find? other = t.find? other := by
  have apart : (other == name) = false := by simpa using h
  rw [find?, put, List.lookup_cons, apart]
  exact lookup_filter_ne t.entries h

end Table

end MarkovCheck
