import Mathlib.Data.List.Nodup

/-!
# Tables that an event log describes

An append-only log mixes the events of many subjects.  `about k` are the events of one of them, and
`replay k` folds them from a state in which nothing is known.  A table is `Sourced` when the replay
of the events about a row tells what is to be seen of the row; rows that the log does not speak of
are left out by `speaks`.  The rules below are one for each thing a transaction does: it appends an
event and adds a row, or it appends an event and changes the row the event is about.
-/

namespace EventLog

variable {ε κ σ ρ : Type*} [DecidableEq κ]

/-- The events about one subject, in the order of the log. -/
def about (subject : ε → Option κ) (k : κ) (log : List ε) : List ε :=
  log.filter fun e => subject e = some k

/-- What the events about a subject tell of it. -/
def replay (subject : ε → Option κ) (apply : Option σ → ε → Option σ) (k : κ) (log : List ε) :
    Option σ := (about subject k log).foldl apply none

variable {subject : ε → Option κ} {apply : Option σ → ε → Option σ} {k : κ} {e : ε} {log : List ε}

theorem about_append_self (h : subject e = some k) :
    about subject k (log ++ [e]) = about subject k log ++ [e] := by
  unfold about
  rw [List.filter_append, List.filter_singleton, decide_eq_true h]
  rfl

theorem about_append_of_ne (h : subject e ≠ some k) :
    about subject k (log ++ [e]) = about subject k log := by
  unfold about
  rw [List.filter_append, List.filter_singleton, decide_eq_false h]
  exact List.append_nil _

theorem replay_append_self (h : subject e = some k) :
    replay subject apply k (log ++ [e]) = apply (replay subject apply k log) e := by
  unfold replay
  rw [about_append_self h, List.foldl_append]
  rfl

theorem replay_append_of_ne (h : subject e ≠ some k) :
    replay subject apply k (log ++ [e]) = replay subject apply k log := by
  unfold replay
  rw [about_append_of_ne h]

/-! ## Tables -/

variable {key : ρ → κ} {view : ρ → σ} {speaks : ρ → Prop} {rows rows' : List ρ}

/-- The log tells what is to be seen of every row it speaks of. -/
def Sourced (subject : ε → Option κ) (apply : Option σ → ε → Option σ) (key : ρ → κ) (view : ρ → σ)
    (speaks : ρ → Prop) (log : List ε) (rows : List ρ) : Prop :=
  ∀ r ∈ rows, speaks r → replay subject apply (key r) log = some (view r)

/-- A new row comes with an event that tells of it whatever the log says of its key. -/
theorem Sourced.add (h : Sourced subject apply key view speaks log rows) {row : ρ}
    (hkey : ∀ r ∈ rows, key r ≠ key row) (hsubject : subject e = some (key row))
    (happly : ∀ current, apply current e = some (view row)) :
    Sourced subject apply key view speaks (log ++ [e]) (rows ++ [row]) := by
  intro r hr hspeaks
  rcases List.mem_append.1 hr with hr | hr
  · have hne : subject e ≠ some (key r) := by
      rw [hsubject]
      exact fun heq => hkey r hr (Option.some.inj heq).symm
    rw [replay_append_of_ne hne]
    exact h r hr hspeaks
  · obtain rfl := List.mem_singleton.1 hr
    rw [replay_append_self hsubject]
    exact happly _

/-- A changed row comes with an event that tells of the change.  The event may lean on what the log
said of the old row, where it spoke of it. -/
theorem Sourced.change (h : Sourced subject apply key view speaks log rows) {old new : ρ}
    (hold : old ∈ rows) (hsubject : subject e = some (key old)) (hkey : key new = key old)
    (hrows : ∀ r ∈ rows', r = new ∨ r ∈ rows ∧ key r ≠ key old)
    (happly : speaks new → ∀ current, (speaks old → current = some (view old)) →
      apply current e = some (view new)) :
    Sourced subject apply key view speaks (log ++ [e]) rows' := by
  intro r hr hspeaks
  rcases hrows r hr with rfl | ⟨hr, hne⟩
  · rw [hkey, replay_append_self hsubject]
    exact happly hspeaks _ (h old hold)
  · have hother : subject e ≠ some (key r) := by
      rw [hsubject]
      exact fun heq => hne (Option.some.inj heq).symm
    rw [replay_append_of_ne hother]
    exact h r hr hspeaks

end EventLog
