import Mathlib.Data.List.Basic

/-!
# Transactions that are rolled back

The statements of a transaction write to a working copy one after another.  An error stops them
where they are, with part of the writes done; the rollback then restores the rows from before the
transaction, and otherwise the working copy becomes the rows.
* `execute_of_ok`, `execute_of_error`: the statements are the loop that threads the working copy.
* `transact_of_ok`, `transact_of_error`: a transaction makes all of its writes or none.
-/

namespace Library.Session

variable {ε ρ σ : Type*}

/-- Runs the statements on the working copy; an error leaves what was written so far. -/
def execute : List (σ → Except ε σ) → σ → σ × Option ε
  | [], working => (working, none)
  | statement :: statements, working =>
    match statement working with
    | .ok written => execute statements written
    | .error error => (working, some error)

/-- A transaction: it opens a working copy of the rows, and commits it or rolls back. -/
def transact (opening : ρ → σ) (closing : σ → ρ) (statements : List (σ → Except ε σ)) (rows : ρ) :
    ρ × Option ε :=
  match execute statements (opening rows) with
  | (working, none) => (closing working, none)
  | (_, some error) => (rows, some error)

variable {statements : List (σ → Except ε σ)} {working last : σ} {error : ε}

theorem execute_of_ok
    (h : statements.foldlM (fun working statement => statement working) working = .ok last) :
    execute statements working = (last, none) := by
  induction statements generalizing working with
  | nil =>
    cases h
    rfl
  | cons statement statements ih =>
    rw [List.foldlM_cons] at h
    unfold execute
    cases hstatement : statement working with
    | ok written =>
      rw [hstatement] at h
      exact ih h
    | error error =>
      rw [hstatement] at h
      cases h

theorem execute_of_error
    (h : statements.foldlM (fun working statement => statement working) working = .error error) :
    ∃ written, execute statements working = (written, some error) := by
  induction statements generalizing working with
  | nil => cases h
  | cons statement statements ih =>
    rw [List.foldlM_cons] at h
    unfold execute
    cases hstatement : statement working with
    | ok written =>
      rw [hstatement] at h
      exact ih h
    | error other =>
      rw [hstatement] at h
      cases h
      exact ⟨working, rfl⟩

variable {opening : ρ → σ} {closing : σ → ρ} {rows : ρ}

theorem transact_of_ok (h : statements.foldlM (fun working statement => statement working)
    (opening rows) = .ok last) :
    transact opening closing statements rows = (closing last, none) := by
  rw [transact, execute_of_ok h]

theorem transact_of_error (h : statements.foldlM (fun working statement => statement working)
    (opening rows) = .error error) :
    transact opening closing statements rows = (rows, some error) := by
  obtain ⟨written, hexecute⟩ := execute_of_error h
  rw [transact, hexecute]

end Library.Session
