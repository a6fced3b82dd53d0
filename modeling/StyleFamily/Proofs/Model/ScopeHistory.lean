import Mathlib.Data.List.DropRight
import StyleFamily.Model.Scope
import StyleFamily.Proofs.Model.Requests

/-!
# The history of a scope

A value that equals the current one is not kept, so what a scope holds depends on all calls since
the last reset. Main statement: after any calls on a fresh scope the current value is the one that
was provided last since the last reset, every answer says whether the current value changed, and a
value is kept exactly if one of the calls since the last reset changed it.
-/
namespace StyleFamily
namespace Scope

/-- A call on a scope. -/
inductive Call (α : Type)
  | provide (value : α)
  | reset
deriving DecidableEq

/-- The value that a call provides. -/
def Call.value? : Call α → Option α
  | .provide value => some value
  | .reset => none

section
variable {α : Type} [BEq α]

/-- One call; the answer says whether the current value changed. -/
def call (scope : Scope α) : Call α → Bool × Scope α
  | .provide value => scope.provide value
  | .reset => scope.reset

/-- Calls one after another, with their answers. -/
def serve (calls : List (Call α)) : StateM (Scope α) (List Bool) :=
  calls.mapM fun call => modifyGet fun scope => scope.call call

/-- The answers to calls on a fresh scope. -/
def answersTo (default : α) (calls : List (Call α)) : List Bool :=
  ((serve calls).run { default }).1

/-- A fresh scope after calls. -/
def after (default : α) (calls : List (Call α)) : Scope α := ((serve calls).run { default }).2

/-- The calls since the last reset, with their answers. -/
def recent (default : α) (calls : List (Call α)) : List (Call α × Bool) :=
  (calls.zip (answersTo default calls)).rtakeWhile (·.1.value?.isSome)

/-- The value provided last since the last reset, or the default if none was. -/
def lastProvided (default : α) (calls : List (Call α)) : α :=
  ((calls.rtakeWhile (·.value?.isSome)).getLast?.bind Call.value?).getD default

variable (scope : Scope α)

theorem default_call (request : Call α) : (scope.call request).2.default = scope.default := by
  cases request with
  | provide value =>
    rw [call, provide]
    split <;> rfl
  | reset => rfl

theorem isOverridden_call (request : Call α) :
    (scope.call request).2.isOverridden =
      (request.value?.isSome && (scope.isOverridden || (scope.call request).1)) := by
  cases request with
  | provide value =>
    rw [call, provide]
    split <;> simp [isOverridden, Call.value?]
  | reset => rfl

/-- A value that is kept although it equals the default is dropped without a change. -/
theorem reset_of_current (h : (scope.current == scope.default) = true) :
    scope.reset.1 = false := by
  rcases scope with ⟨default, _ | kept⟩
  · rfl
  · have hkept : (kept == default) = true := h
    simp [reset, bne, hkept]

variable [ReflBEq α]

theorem current_call (request : Call α) :
    ((scope.call request).2.current == request.value?.getD scope.default) = true := by
  cases request with
  | provide value =>
    rw [call, provide]
    split
    · next hsame => exact hsame
    · exact beq_self_eq_true value
  | reset => exact beq_self_eq_true scope.default

/-- An answer compares the current value with the one before. -/
theorem answer_call (request : Call α) :
    (scope.call request).1 = (scope.current != (scope.call request).2.current) := by
  cases request with
  | provide value =>
    rw [call, provide]
    split
    · simp [bne]
    · next hother => exact (Bool.not_eq_eq_eq_not.mpr (Bool.eq_false_iff.mpr hother)).symm
  | reset => rcases scope with ⟨default, _ | kept⟩ <;> simp [call, reset, current, bne]

end

section
variable {α : Type} [BEq α] (default : α) (calls : List (Call α)) (request : Call α)

theorem after_snoc :
    after default (calls ++ [request]) = ((after default calls).call request).2 :=
  Requests.reached_snoc _ _ calls request

theorem answersTo_snoc : answersTo default (calls ++ [request]) =
    answersTo default calls ++ [((after default calls).call request).1] :=
  Requests.answers_snoc _ _ calls request

theorem length_answersTo : (answersTo default calls).length = calls.length :=
  Requests.length_answers _ _ calls

theorem answersTo_getElem? (later : List (Call α)) :
    (answersTo default (calls ++ request :: later))[calls.length]? =
      some ((after default calls).call request).1 :=
  Requests.answer_eq _ _ calls request later

theorem default_after : (after default calls).default = default := by
  induction calls using List.reverseRecOn with
  | nil => rfl
  | append_singleton calls request ih => rw [after_snoc, default_call, ih]

theorem recent_snoc : recent default (calls ++ [request]) =
    if request.value?.isSome then
      recent default calls ++ [(request, ((after default calls).call request).1)]
    else [] := by
  have hlength : calls.length = (answersTo default calls).length :=
    (length_answersTo default calls).symm
  rw [recent, answersTo_snoc, List.zip_append hlength]
  split
  · next hp => exact List.rtakeWhile_concat_pos _ _ _ hp
  · next hp => exact List.rtakeWhile_concat_neg _ _ _ hp

omit [BEq α] in
theorem lastProvided_snoc :
    lastProvided default (calls ++ [request]) = request.value?.getD default := by
  cases request with
  | provide value =>
    rw [lastProvided, List.rtakeWhile_concat_pos _ _ _ rfl, List.getLast?_concat]
    rfl
  | reset =>
    rw [lastProvided, List.rtakeWhile_concat_neg _ _ _ Bool.false_ne_true]
    rfl

theorem isOverridden_after :
    (after default calls).isOverridden = (recent default calls).any (·.2) := by
  induction calls using List.reverseRecOn with
  | nil => rfl
  | append_singleton calls request ih =>
    rw [after_snoc, isOverridden_call, recent_snoc, ih]
    cases request with
    | provide value => simp [Call.value?]
    | reset => rfl

theorem current_after [ReflBEq α] :
    ((after default calls).current == lastProvided default calls) = true := by
  induction calls using List.reverseRecOn with
  | nil => exact beq_self_eq_true default
  | append_singleton calls request _ =>
    have hcurrent := current_call (after default calls) request
    rw [default_after] at hcurrent
    rwa [after_snoc, lastProvided_snoc]

/-- A scope that is led to another value and back keeps the default as a value of its own. -/
theorem kept_default [EquivBEq α] {value : α} (h : (default == value) = false) :
    after default (calls ++ [.provide value, .provide default]) = ⟨default, some default⟩ := by
  have hlist : calls ++ [.provide value, .provide default] =
      calls ++ [.provide value] ++ [.provide default] := by simp
  have haway := current_after default (calls ++ [.provide value])
  rw [lastProvided_snoc] at haway
  have hother : ((after default (calls ++ [.provide value])).current == default) = false := by
    rw [Bool.eq_false_iff]
    intro hback
    have hsame : (default == value) = true := BEq.trans (BEq.symm hback) haway
    exact absurd (h.symm.trans hsame) Bool.false_ne_true
  rw [hlist, after_snoc, call, provide, if_neg (by simp [hother]), default_after]

/-- After any calls on a fresh scope, the current value is the last one that was provided since the
last reset, each answer says whether the current value changed, and a value is kept exactly if a
call since the last reset changed the current one. The kept value may be the default itself, and
then a reset changes nothing. -/
theorem answers_follow_changes [EquivBEq α] :
    ((after default calls).current == lastProvided default calls) = true ∧
      (answersTo default calls).length = calls.length ∧
      (∀ earlier request later, calls = earlier ++ request :: later →
        (answersTo default calls)[earlier.length]? =
          some ((after default earlier).current !=
            (after default (earlier ++ [request])).current)) ∧
      ((after default calls).isOverridden = true ↔
        ∃ value, (.provide value, true) ∈ recent default calls) ∧
      (((after default calls).current == default) = true →
        (answersTo default (calls ++ [.reset])).getLast? = some false) ∧
      ∀ value, (default == value) = false →
        after default (calls ++ [.provide value, .provide default]) =
          ⟨default, some default⟩ := by
  refine ⟨current_after default calls, length_answersTo default calls, ?_, ?_, ?_, fun value h =>
    kept_default default calls h⟩
  · rintro earlier request later rfl
    rw [answersTo_getElem?, answer_call, after_snoc]
  · rw [isOverridden_after, List.any_eq_true]
    constructor
    · rintro ⟨⟨request, answer⟩, hm, rfl⟩
      have hprovided := @List.mem_rtakeWhile_imp (Call α × Bool) (·.1.value?.isSome) _ _ hm
      cases request with
      | provide value => exact ⟨value, hm⟩
      | reset => exact absurd hprovided Bool.false_ne_true
    · rintro ⟨value, hm⟩
      exact ⟨_, hm, rfl⟩
  · intro hcurrent
    rw [answersTo_snoc, List.getLast?_concat]
    refine congrArg some (reset_of_current _ ?_)
    rwa [default_after]

end

/-- A scope that comes back to its default by way of another value, and is then reset. -/
theorem light_answers_follow_changes :
    let calls : List (Call String) := [.provide "dark", .provide "dark", .provide "light"]
    answersTo "light" (calls ++ [.reset]) = [true, false, true, false] ∧
      ((after "light" calls).current == "light") = true ∧
      (answersTo "light" calls)[1]? = some ("dark" != "dark") ∧
      (after "light" calls).isOverridden = true ∧
      (answersTo "light" (calls ++ [.reset])).getLast? = some false ∧
      after "light" (calls ++ [.provide "dark", .provide "light"]) = ⟨"light", some "light"⟩ := by
  intro calls
  obtain ⟨hcurrent, -, hanswer, hkept, hreset, haway⟩ := answers_follow_changes "light" calls
  have hlast : lastProvided "light" calls = "light" := by decide
  rw [hlast] at hcurrent
  exact ⟨by decide, hcurrent, hanswer [.provide "dark"] (.provide "dark") [.provide "light"] rfl,
    hkept.mpr ⟨"dark", by decide⟩, hreset hcurrent, haway "dark" (by decide)⟩

end Scope
end StyleFamily
