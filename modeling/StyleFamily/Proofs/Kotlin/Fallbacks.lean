import StyleFamily.Proofs.Family.WellTyped
import StyleFamily.Proofs.Kotlin.Lossless
import StyleFamily.Proofs.Text.Cut

/-!
# What rendered builders fall back to

Inside each default implementation stands the class of its builder, and in that class one function
that ends the builder's work. Every flat member is handed over there as a field or, behind an elvis
operator, the default of its category; a delegate is handed over as what its builder builds.
-/
namespace StyleFamily
namespace Kotlin

/-- The rendered classes inside the default implementation of a triad. -/
def nestedBuilders (triad : Triad) : List ClassNode := (classNode triad.defaultImpl).nested

/-- The functions of a rendered class that end a builder's work. -/
def ClassNode.buildFunctions (node : ClassNode) : List FunctionNode :=
  node.functions.filter (·.name = MemberName.build)

/-- The expression behind the elvis operator of a value. -/
def fallback? (value : String) : Option String := (Text.cut? " ?: " value).map Prod.snd

/-- The default that a member falls back to; a delegate has none of its own. -/
def memberFallback? : Member → Option String
  | .flat p => some (spellValue p.category.defaultValue)
  | .delegate _ => none

/-- The value of a member's argument. -/
def argumentValue : Member → String
  | .flat p => safe p.name ++ " ?: " ++ spellValue p.category.defaultValue
  | .delegate d => safe (MemberName.builderField d.member) ++ "." ++ MemberName.build ++ "()"

theorem spellArgument_eq (member : Member) :
    spellArgument member.argument = (safe member.name, argumentValue member) := by
  cases member <;> rfl

/-- The elvis operator ends a name, for there is no blank in it. -/
theorem fallback?_append {name : String} (hn : isIdentifier name = true) (expression : String) :
    fallback? (safe name ++ " ?: " ++ expression) = some expression := by
  have hseparator : " ?: ".toList = ' ' :: ['?', ':', ' '] := by decide
  rw [fallback?, Text.cut?_append hseparator (notMem_safe hn (by decide) (by decide))]
  rfl

theorem fallback?_eq_none {value : String} (h : '?' ∉ value.toList) : fallback? value = none := by
  rw [fallback?, Text.cut?_eq_none (by decide) h]
  rfl

/-- What a delegate builds is handed over without an alternative. -/
theorem notMem_buildDelegate {d : Delegate} (hd : isIdentifier d.member = true) :
    '?' ∉ (argumentValue (.delegate d)).toList := by
  have hfield : '?' ∉ (safe (MemberName.builderField d.member)).toList :=
    notMem_safe (isIdentifier_append hd (by decide)) (by decide) (by decide)
  have hbuild : '?' ∉ ".".toList ∧ '?' ∉ MemberName.build.toList ∧ '?' ∉ "()".toList := by decide
  simp [argumentValue, hfield, hbuild]

theorem fallback?_argumentValue {member : Member} (hm : isIdentifier member.name = true) :
    fallback? (argumentValue member) = memberFallback? member := by
  cases member with
  | flat p => exact fallback?_append hm _
  | delegate d => exact fallback?_eq_none (notMem_buildDelegate hm)

theorem nestedBuilders_ofGroup (kind : TriadKind) (group : PropertyGroup) (doc : String) :
    nestedBuilders (Triad.ofGroup kind group doc) = [classNode group.nestedBuilder] := rfl

/-- A group whose members can be spelled beside the function that ends their builder's work. -/
structure Spellable (group : PropertyGroup) : Prop where
  names : ∀ member ∈ group.members, isIdentifier member.name = true
  build : ∀ member ∈ group.members, member.name ≠ MemberName.build

theorem spellable_of_mem {schema : Schema} (hw : schema.WellNamed) {group : PropertyGroup}
    (hg : group ∈ [styleGroup schema, colorsGroup schema, dimensionsGroup schema]) :
    Spellable group := by
  have hgroup : group.WellNamed := by
    simp only [List.mem_cons, List.not_mem_nil, or_false] at hg
    rcases hg with rfl | rfl | rfl
    · exact styleGroup_wellNamed hw
    · exact (holds_colors hw).wellNamed
    · exact (holds_dimensions hw).wellNamed
  exact ⟨fun member hm => (legible_of_mem hw hg hm).name, hgroup.build⟩

theorem buildFunctions_nestedBuilder {group : PropertyGroup} (h : Spellable group) :
    (classNode group.nestedBuilder).buildFunctions =
      [functionNode (group.buildFunction.implementation group.buildBody)] := by
  have hsafe : safe MemberName.build = MemberName.build := by decide
  have hfunctions : (classNode group.nestedBuilder).functions =
      group.nestedBuilder.functions.map functionNode := rfl
  have hsetters : (group.members.map fun member =>
      functionNode ((group.setter member).implementation member.setterBody)).filter
        (·.name = MemberName.build) = [] := by
    rw [List.filter_eq_nil_iff]
    intro f hf
    obtain ⟨member, hm, rfl⟩ := List.mem_map.mp hf
    have hname : (functionNode ((group.setter member).implementation member.setterBody)).name =
        safe member.name := congrArg safe (group.setter_name member)
    rw [hname, decide_eq_true_eq]
    intro he
    exact h.build member hm (safe_inj (h.names member hm) (by decide) (he.trans hsafe.symm))
  have hbuild : (functionNode (group.buildFunction.implementation group.buildBody)).name =
      MemberName.build := hsafe
  rw [ClassNode.buildFunctions, hfunctions, group.nestedBuilder_functions, List.map_append,
    List.map_map, List.filter_append]
  simp only [Function.comp_def, hsetters, List.map_cons, List.map_nil, List.nil_append,
    List.filter_cons, hbuild, decide_true, if_true, List.filter_nil]

/-- What the function that ends a builder's work is rendered with. -/
theorem bodyNode_buildBody (group : PropertyGroup) :
    bodyNode group.buildBody =
      if group.members = [] then .expression group.defaultImpl
      else .call group.defaultImpl
        (group.members.map fun member => (safe member.name, argumentValue member)) := by
  split
  · next hm =>
    rw [group.buildBody_eq_singleton hm]
    rfl
  · next hm =>
    rw [group.buildBody_eq_construct hm, bodyNode, List.map_map]
    simp only [Function.comp_def, spellArgument_eq]

end Kotlin
end StyleFamily
