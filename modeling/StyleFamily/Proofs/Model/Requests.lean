import Mathlib.Data.List.Induction

/-!
# Requests one after another

A state that takes one request after another gives one answer to each, from what the requests
before it left behind.
-/
namespace StyleFamily
namespace Requests

variable {κ σ α : Type} (step : κ → StateM σ α) (start : σ)

/-- The answers to requests. -/
def answers (requests : List κ) : List α := ((requests.mapM step).run start).1

/-- The state that requests lead to. -/
def reached (requests : List κ) : σ := ((requests.mapM step).run start).2

theorem answers_append (requests later : List κ) : answers step start (requests ++ later) =
    answers step start requests ++ answers step (reached step start requests) later := by
  rw [answers, List.mapM_append]
  rfl

theorem reached_append (requests later : List κ) : reached step start (requests ++ later) =
    reached step (reached step start requests) later := by
  rw [reached, List.mapM_append]
  rfl

theorem answers_cons (request : κ) (later : List κ) : answers step start (request :: later) =
    ((step request).run start).1 :: answers step ((step request).run start).2 later := by
  rw [answers, List.mapM_cons]
  rfl

theorem reached_cons (request : κ) (later : List κ) : reached step start (request :: later) =
    reached step ((step request).run start).2 later := by
  rw [reached, List.mapM_cons]
  rfl

theorem answers_snoc (requests : List κ) (request : κ) :
    answers step start (requests ++ [request]) =
      answers step start requests ++ [((step request).run (reached step start requests)).1] := by
  rw [answers_append, answers_cons]
  rfl

theorem reached_snoc (requests : List κ) (request : κ) :
    reached step start (requests ++ [request]) =
      ((step request).run (reached step start requests)).2 := by
  rw [reached_append, reached_cons]
  rfl

theorem length_answers (requests : List κ) :
    (answers step start requests).length = requests.length := by
  induction requests using List.reverseRecOn with
  | nil => rfl
  | append_singleton requests request ih =>
    rw [answers_snoc, List.length_append, List.length_append, ih]
    rfl

/-- A request is answered from the state that the requests before it led to. -/
theorem answer_eq (requests : List κ) (request : κ) (later : List κ) :
    (answers step start (requests ++ request :: later))[requests.length]? =
      some ((step request).run (reached step start requests)).1 := by
  have hlength := length_answers step start requests
  rw [answers_append, answers_cons, List.getElem?_append_right (Nat.le_of_eq hlength), hlength,
    Nat.sub_self, List.getElem?_cons_zero]

end Requests
end StyleFamily
