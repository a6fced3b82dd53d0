import Mathlib.Data.List.Nodup
import StyleFamily.Family.Pattern

/-!
# What the builder pattern generates

The functions of a group's two builders, member by member. A group is well named when its members
and the fields behind them have distinct names and none of them is called like the function that
ends the builder's work; the signatures of both builders are then distinct.
-/
namespace StyleFamily

/-- What tells two functions of one name apart: the types of their parameters. -/
def Function.signature (function : Function) : String × List TypeRef :=
  (function.name, function.parameters.map Parameter.type)

namespace Function

@[simp] theorem implementation_signature (function : Function) (body : Body) :
    (function.implementation body).signature = function.signature := rfl

@[simp] theorem implementation_name (function : Function) (body : Body) :
    (function.implementation body).name = function.name := rfl

@[simp] theorem implementation_parameters (function : Function) (body : Body) :
    (function.implementation body).parameters = function.parameters := rfl

@[simp] theorem implementation_returns (function : Function) (body : Body) :
    (function.implementation body).returns = function.returns := rfl

@[simp] theorem implementation_overrides (function : Function) (body : Body) :
    (function.implementation body).overrides = true := rfl

@[simp] theorem implementation_body (function : Function) (body : Body) :
    (function.implementation body).body = body := rfl

end Function

namespace PropertyGroup
variable (group : PropertyGroup)

@[simp] theorem setter_name (member : Member) : (group.setter member).name = member.name := by
  cases member <;> rfl

@[simp] theorem setter_returns (member : Member) :
    (group.setter member).returns = .named group.builder := by
  cases member <;> rfl

@[simp] theorem setter_body (member : Member) : (group.setter member).body = .abstract := by
  cases member <;> rfl

@[simp] theorem setter_isAbstract (member : Member) :
    (group.setter member).isAbstract = true := by
  rw [Function.isAbstract, setter_body]
  rfl

/-- The one function an overload consists of, if there is any. -/
theorem mem_overload {member : Member} {function : Function}
    (h : function ∈ group.overload member) :
    ∃ p, member = .flat p ∧ p.category = .color ∧ function.name = p.name ∧
      function.parameters = [⟨p.name, .value .color, false⟩] ∧
      function.returns = .named group.builder ∧ function.body = .promote p.name p.name := by
  cases member with
  | delegate d => simp [overload] at h
  | flat p =>
    rw [overload] at h
    split at h
    · next hc =>
      obtain rfl := List.mem_singleton.mp h
      exact ⟨p, rfl, hc, rfl, rfl, rfl, rfl⟩
    · simp at h

theorem filter_isAbstract_overload (member : Member) :
    (group.overload member).filter Function.isAbstract = [] := by
  rw [List.filter_eq_nil_iff]
  intro function hf
  obtain ⟨p, _, _, _, _, _, hb⟩ := group.mem_overload hf
  simp [Function.isAbstract, hb]

theorem filter_isAbstract_setters :
    group.setters.filter Function.isAbstract = group.members.map group.setter := by
  rw [setters, List.filter_flatMap]
  simp only [List.filter_cons, setter_isAbstract, ↓reduceIte, filter_isAbstract_overload]
  exact List.flatMap_pure_eq_map _ _

/-- The abstract setters are zipped with the members they set. -/
theorem abstractSetters_eq :
    group.abstractSetters = group.members.map fun member => (group.setter member, member) := by
  rw [abstractSetters, filter_isAbstract_setters]
  induction group.members with
  | nil => rfl
  | cons member rest ih => simpa using ih

/-- The nested builder implements the setters in the order of the members, then `build`. -/
theorem nestedBuilder_functions :
    group.nestedBuilder.functions =
      group.members.map (fun member => (group.setter member).implementation member.setterBody) ++
        [group.buildFunction.implementation group.buildBody] := by
  simp only [nestedBuilder, abstractSetters_eq, List.map_map]
  rfl

theorem buildBody_eq_singleton (h : group.members = []) :
    group.buildBody = .singleton group.defaultImpl := by
  simp [buildBody, h]

theorem buildBody_eq_construct (h : group.members ≠ []) :
    group.buildBody = .construct group.defaultImpl (group.members.map Member.argument) := by
  simp [buildBody, h]

theorem buildBody_not_abstract :
    (group.buildFunction.implementation group.buildBody).isAbstract = false := by
  rw [Function.isAbstract, Function.implementation_body, buildBody]
  split <;> rfl

/-- A group whose members, fields and functions can be told apart by name. -/
structure WellNamed (group : PropertyGroup) : Prop where
  members : (group.members.map Member.name).Nodup
  fields : (group.members.map fun member => member.field.name).Nodup
  build : ∀ member ∈ group.members, member.name ≠ MemberName.build

@[simp] theorem argument_property (member : Member) : member.argument.property = member.name := by
  cases member <;> rfl

variable {group}

theorem overload_signature {member : Member} {function : Function}
    (h : function ∈ group.overload member) :
    function.signature = (member.name, [.value .color]) := by
  obtain ⟨p, rfl, _, hn, hp, _, _⟩ := group.mem_overload h
  simp [Function.signature, hn, hp, Member.name]

/-- A setter never takes a plain color, so it differs from its overload. -/
theorem setter_signature_ne (member : Member) :
    (group.setter member).signature ≠ (member.name, [.value .color]) := by
  cases member with
  | delegate d => simp [Function.signature, setter, TypeRef.configure]
  | flat p => cases hc : p.category <;> simp [Function.signature, setter, hc, Category.valueType]

theorem setters_of_member_nodup (member : Member) :
    ((group.setter member :: group.overload member).map Function.signature).Nodup := by
  rw [List.map_cons, List.nodup_cons]
  constructor
  · intro hm
    obtain ⟨function, hf, he⟩ := List.mem_map.mp hm
    rw [overload_signature hf] at he
    exact setter_signature_ne member he.symm
  · cases member with
    | delegate d => simp [overload]
    | flat p =>
      rw [overload]
      split <;> simp

/-- The first half of the signature of a member's setter or overload is the member's name. -/
theorem signature_fst_of_mem {member : Member} {function : Function}
    (h : function ∈ group.setter member :: group.overload member) :
    function.signature.1 = member.name := by
  rcases List.mem_cons.mp h with rfl | h
  · exact group.setter_name member
  · rw [overload_signature h]

theorem setters_nodup (h : group.WellNamed) : (group.setters.map Function.signature).Nodup := by
  rw [setters, List.map_flatMap, List.nodup_flatMap]
  refine ⟨fun member _ => setters_of_member_nodup member, ?_⟩
  refine (List.pairwise_map.mp h.members).imp ?_
  intro a b hab signature ha hb
  obtain ⟨f, hf, rfl⟩ := List.mem_map.mp ha
  obtain ⟨g, hg, he⟩ := List.mem_map.mp hb
  rw [← signature_fst_of_mem hf, ← signature_fst_of_mem hg, he] at hab
  exact hab rfl

/-- A function beside `build` in either builder belongs to a member. -/
theorem mem_setters {function : Function} :
    function ∈ group.setters ↔
      ∃ member ∈ group.members,
        function = group.setter member ∨ function ∈ group.overload member := by
  simp [setters]

theorem name_of_mem_setters (h : group.WellNamed) {function : Function}
    (hf : function ∈ group.setters) : function.name ≠ MemberName.build := by
  obtain ⟨member, hm, hf⟩ := mem_setters.mp hf
  have hs : function.signature.1 = member.name := signature_fst_of_mem (List.mem_cons.mpr hf)
  intro he
  exact h.build member hm (hs.symm.trans he)

theorem contract_functions_nodup (h : group.WellNamed) :
    (group.contract.functions.map Function.signature).Nodup := by
  rw [contract, List.map_append, List.nodup_append]
  refine ⟨setters_nodup h, by simp, ?_⟩
  intro a ha b hb he
  obtain ⟨f, hf, rfl⟩ := List.mem_map.mp ha
  obtain rfl := List.mem_singleton.mp hb
  exact name_of_mem_setters h hf (congrArg Prod.fst he)

/-- Apart from the overloads these are the signatures of the interface. -/
theorem nestedBuilder_functions_nodup (h : group.WellNamed) :
    (group.nestedBuilder.functions.map Function.signature).Nodup := by
  have hc : group.nestedBuilder.functions.map Function.signature =
      (group.contract.functions.filter Function.isAbstract).map Function.signature := by
    rw [nestedBuilder_functions, contract, List.filter_append, filter_isAbstract_setters]
    simp [Function.isAbstract, buildFunction, Function.signature, Function.implementation]
  rw [hc]
  exact (contract_functions_nodup h).sublist (List.filter_sublist.map _)

end PropertyGroup
end StyleFamily
