import StyleFamily.Proofs.Kotlin.Keywords
import StyleFamily.Proofs.Kotlin.TidyNodes

/-!
# Tidy families

Where names are identifiers, types, members and bodies are phrases whatever they are made of, and
the texts that accompany the members of a group close what they open. So the three declarations of
a triad are tidy for every list of members, the empty one among them.
-/
namespace StyleFamily
namespace Kotlin
open Text Fragment

/-- Parentheses are only ever put around a whole type. -/
theorem phrase_type {type : TypeRef} (h : ∀ word ∈ typeWords type, word.Valid) :
    Phrase (spellType type) := by
  induction type with
  | value type => cases type <;> decide
  | named name => exact phrase_of_isIdentifier (h _ (List.mem_singleton_self _))
  | optional inner ih =>
    rw [spellType, optionalOf]
    split
    · exact Phrase.enclosed (by decide) (ih h).1
    · exact (ih h).before (by decide)
  | callback returns ih => exact Phrase.after (by decide) (ih h)
  | callbackOn receiver returns ihr ih =>
    obtain ⟨hreceiver, hreturns⟩ := List.forall_mem_append.mp h
    exact (ihr hreceiver).around (by decide) (ih hreturns)
  | styleBase => exact (by decide : Phrase "Style")
  | any => exact (by decide : Phrase "Any")
  | unit => exact (by decide : Phrase "Unit")

theorem phrase_initializer {initializer : Initializer}
    (h : ∀ word ∈ initializerWords initializer, word.Valid) :
    Phrase (spellInitializer initializer) := by
  cases initializer with
  | null => exact (by decide : Phrase "null")
  | newBuilder contract =>
    have hcontract : Phrase contract := phrase_of_isIdentifier (h _ List.mem_cons_self)
    exact (hcontract.around (by decide) (by decide : Phrase MemberName.factory)).before (by decide)

theorem phrased_property {p : PropertySpec} (h : ∀ word ∈ propertyWords p, word.Valid)
    (hd : ∀ text ∈ p.doc, Inert text) : (propertyNode p).Phrased := by
  obtain ⟨hhead, hvalue⟩ := List.forall_mem_append.mp h
  obtain ⟨hname, htype⟩ := List.forall_mem_cons.mp (List.forall_mem_append.mp hhead).2
  refine ⟨phrase_safe hname, phrase_type htype, fun text ht => ?_, hd⟩
  obtain ⟨initializer, hi, rfl⟩ := Option.map_eq_some_iff.mp ht
  exact phrase_initializer fun word hw =>
    hvalue word (List.mem_flatMap.mpr ⟨initializer, Option.mem_toList.mpr hi, hw⟩)

theorem phrased_parameter {p : Parameter} (h : ∀ word ∈ parameterWords p, word.Valid) :
    (parameterNode p).Phrased := by
  obtain ⟨hname, htype⟩ := List.forall_mem_cons.mp (List.forall_mem_append.mp h).1
  refine ⟨phrase_safe hname, phrase_type htype, fun text ht => ?_⟩
  rw [parameterNode] at ht
  split at ht
  · obtain rfl := Option.some.inj ht
    decide
  · cases ht

/-- An argument whose name and value are phrases. -/
def ArgumentPhrased (argument : Argument) : Prop :=
  Phrase (spellArgument argument).1 ∧ Phrase (spellArgument argument).2

/-- What is called or assigned stands between brackets of the body's own. -/
theorem phrased_body {body : Body} (h : ∀ word ∈ bodyWords body, word.Valid)
    (ha : ∀ className arguments, body = .construct className arguments →
      ∀ argument ∈ arguments, ArgumentPhrased argument) : (bodyNode body).Phrased := by
  have hmember : ∀ {name : String}, .member name ∈ bodyWords body → Phrase (safe name) :=
    fun hm => phrase_safe (h _ hm)
  cases body with
  | abstract => trivial
  | assignField field parameter =>
    have hassignment : Phrase (safe field ++ " = " ++ safe parameter) :=
      (hmember (by simp [bodyWords])).around (by decide) (hmember (by simp [bodyWords]))
    have happly : Phrase ("apply \x7b this." ++ (safe field ++ " = " ++ safe parameter) ++
        " \x7d") := Phrase.enclosed (by decide) hassignment.1
    simpa only [bodyNode, BodyNode.Phrased, String.append_assoc] using happly
  | promote target parameter =>
    have htarget : Phrase (safe target) := hmember (by simp [bodyWords])
    have hparameter : Phrase (safe parameter) := hmember (by simp [bodyWords])
    have hpromoted : Phrase (safe parameter ++ "." ++ asInteractive.name) :=
      hparameter.around (by decide) (by decide)
    have harguments : Inert ("(" ++ (safe parameter ++ "." ++ asInteractive.name) ++ "())") :=
      Inert.insert (by decide) hpromoted.1
    have hcall := htarget.before ⟨harguments, Ends.prepend (by decide) _⟩
    simpa only [bodyNode, BodyNode.Phrased, String.append_assoc] using hcall
  | configure builderField callback =>
    have hcallee : Phrase (safe builderField ++ "." ++ safe callback) :=
      (hmember (by simp [bodyWords])).around (by decide) (hmember (by simp [bodyWords]))
    have happly : Phrase ("apply \x7b " ++ (safe builderField ++ "." ++ safe callback) ++
        "() \x7d") := Phrase.enclosed (by decide) hcallee.1
    simpa only [bodyNode, BodyNode.Phrased, String.append_assoc] using happly
  | instantiate path =>
    by_cases hne : path = []
    · rw [hne]
      exact (by decide : Phrase "()")
    · exact (phrase_intercalate (by decide) hne fun name hn =>
        phrase_of_isIdentifier (h (.declared name) (List.mem_map_of_mem hn))).before (by decide)
  | construct className arguments =>
    exact ⟨phrase_of_isIdentifier (h _ List.mem_cons_self), fun argument hm => by
      obtain ⟨spec, hs, rfl⟩ := List.mem_map.mp hm
      exact ha className arguments rfl spec hs⟩
  | singleton object => exact phrase_of_isIdentifier (h _ (List.mem_singleton_self _))

theorem phrased_function {f : Function} (h : ∀ word ∈ functionWords f, word.Valid)
    (hd : ∀ text ∈ f.doc, Inert text)
    (ha : ∀ className arguments, f.body = .construct className arguments →
      ∀ argument ∈ arguments, ArgumentPhrased argument) : (functionNode f).Phrased := by
  obtain ⟨hhead, hbody⟩ := List.forall_mem_append.mp h
  obtain ⟨hfront, hreturns⟩ := List.forall_mem_append.mp hhead
  obtain ⟨hname, hparameters⟩ := List.forall_mem_cons.mp (List.forall_mem_append.mp hfront).2
  refine ⟨phrase_safe hname, phrase_type hreturns, hd, ?_, phrased_body hbody ha⟩
  exact List.forall_mem_map.mpr fun p hp =>
    phrased_parameter fun word hw => hparameters word (List.mem_flatMap.mpr ⟨p, hp, hw⟩)

/-- A group of an accepted component, whose documentation closes what it opens. -/
structure Captioned (schema : Schema) (group : PropertyGroup) : Prop
    extends Related schema group where
  named : schema.WellNamed
  builderDoc : Inert group.builderDoc
  names : ∀ member ∈ group.members, isIdentifier member.name = true
  docs : ∀ member ∈ group.members, Inert member.doc

theorem captioned_of_mem {schema : Schema} (hw : schema.WellNamed) {group : PropertyGroup}
    (hg : group ∈ [styleGroup schema, colorsGroup schema, dimensionsGroup schema]) :
    Captioned schema group := by
  have hrelated := related_of_mem hg
  have hresult := phrase_of_isIdentifier (isIdentifier_declared hw hrelated.result)
  have hbrackets : Inert ("Builder for [" ++ "]") := by decide
  have hcategory : ∀ category : Category, Inert category.description := by
    intro category
    cases category <;> decide
  exact ⟨hrelated, hw, builderDoc_of hg (by decide) (hbrackets.insert hresult.1),
    (spellable_of_mem hw hg).names,
    fun member hm => memberDoc_of hg hcategory (by decide) (by decide) hm⟩

theorem captioned_groups {schema : Schema} (hw : schema.WellNamed) :
    Captioned schema (styleGroup schema) ∧ Captioned schema (colorsGroup schema) ∧
      Captioned schema (dimensionsGroup schema) :=
  ⟨captioned_of_mem hw (by simp), captioned_of_mem hw (by simp), captioned_of_mem hw (by simp)⟩

section
variable {schema : Schema} {group : PropertyGroup} (h : Captioned schema group)
include h

/-- What has its origin in the component is spelled with identifiers. -/
theorem Captioned.valid {ws : List Word} (ht : Traced schema "" ws) : ∀ word ∈ ws, word.Valid :=
  fun word hm => valid_of_comesFrom h.named (ht word hm)

theorem Captioned.declared {name : String} (hn : name ∈ declaredNames (assemble schema)) :
    Phrase name := phrase_of_isIdentifier (isIdentifier_declared h.named hn)

/-- A function that constructs nothing has only its words and its documentation. -/
theorem phrased_of_traced {f : Function} (ht : Traced schema "" (functionWords f))
    (hd : ∀ text ∈ f.doc, Inert text)
    (hb : ∀ className arguments, f.body ≠ .construct className arguments) :
    (functionNode f).Phrased :=
  phrased_function (h.valid ht) hd fun className arguments hf => absurd hf (hb className arguments)

section
variable {member : Member} (hm : member ∈ group.members)
include hm

theorem phrase_memberType : Phrase (spellType member.type) :=
  phrase_type (h.valid (traced_type h.toRelated hm))

theorem phrased_setter : (functionNode (group.setter member)).Phrased := by
  have hname := (phrase_of_isIdentifier (h.names member hm)).1
  refine phrased_of_traced h (traced_setter h.toRelated hm) ?_ fun _ _ hb => by simp at hb
  cases member with
  | flat p =>
    rintro text ⟨⟩
    exact (by decide : Inert ("Sets [" ++ "]")).insert hname
  | delegate d =>
    have hpath : Inert (group.result ++ "." ++ d.member) :=
      ((h.declared h.result).1.append (by decide)).append hname
    have hdoc : Inert ("Configures [" ++ (group.result ++ "." ++ d.member) ++ "]") :=
      Inert.insert (by decide) hpath
    rintro text ⟨⟩
    simpa only [String.append_assoc] using hdoc

theorem phrased_overload {f : Function} (hf : f ∈ group.overload member) :
    (functionNode f).Phrased := by
  have hname := (phrase_of_isIdentifier (h.names member hm)).1
  have ht : Traced schema "" (functionWords f) := traced_overload h.toRelated hm hf
  cases member with
  | delegate d => simp [PropertyGroup.overload] at hf
  | flat p =>
    rw [PropertyGroup.overload] at hf
    split at hf
    · obtain rfl := List.mem_singleton.mp hf
      refine phrased_of_traced h ht ?_ fun _ _ hb => by simp at hb
      rintro text ⟨⟩
      exact (by decide : Inert ("Sets [" ++ "] from a plain color")).insert hname
    · simp at hf

theorem phrased_implementation :
    (functionNode ((group.setter member).implementation member.setterBody)).Phrased := by
  refine phrased_of_traced h (traced_implementation h.toRelated hm)
    (by simp [Function.implementation]) fun _ _ hb => ?_
  cases member <;> simp [Member.setterBody] at hb

/-- Defaults are spelled with brackets that are closed again. -/
theorem phrased_argument : ArgumentPhrased member.argument := by
  have hname := phrase_safe (h.names member hm)
  cases member with
  | flat p =>
    have hvalue : ∀ category : Category, Phrase (spellValue category.defaultValue) := by
      intro category
      cases category <;> decide +kernel
    exact ⟨hname, hname.around (by decide) (hvalue p.category)⟩
  | delegate d =>
    have hfield : Phrase (safe (MemberName.builderField d.member)) :=
      phrase_safe (h.valid (traced_argument h.toRelated hm)
        (.member (MemberName.builderField d.member)) (by simp [Member.argument, argumentWords]))
    exact ⟨hname, (hfield.around (by decide) (by decide : Phrase MemberName.build)).before
      (by decide)⟩

end

theorem phrased_factory (kind : TriadKind) :
    (functionNode (builderFactory kind group)).Phrased := by
  have hdoc : Inert ("Returns an instance of [" ++ group.builder ++ "]") :=
    Inert.insert (by decide) (h.declared h.builder).1
  refine phrased_of_traced h (traced_factory h.toRelated kind) ?_ fun _ _ hb => by
    simp [builderFactory] at hb
  rintro text ⟨⟩
  exact hdoc

/-- The function that ends the builder's work, in the nested builder. -/
theorem phrased_build :
    (functionNode (group.buildFunction.implementation group.buildBody)).Phrased := by
  refine phrased_function (h.valid (traced_build h.toRelated)) (by simp [Function.implementation])
    fun className arguments hb argument ha => ?_
  rw [Function.implementation_body] at hb
  by_cases hm : group.members = []
  · rw [group.buildBody_eq_singleton hm] at hb
    cases hb
  · rw [group.buildBody_eq_construct hm] at hb
    cases hb
    obtain ⟨member, hmember, rfl⟩ := List.mem_map.mp ha
    exact phrased_argument h hmember

theorem phrased_contract (kind : TriadKind) {doc : String} (hd : Inert doc) :
    (interfaceNode (Triad.ofGroup kind group doc).contract).Phrased := by
  refine ⟨h.declared h.result, ?_, ?_, ?_, ?_, by simp [interfaceNode, Triad.ofGroup], ?_⟩
  · rintro text ⟨⟩
    exact hd
  · exact List.forall_mem_singleton.mpr (by decide)
  · cases kind with
    | style => exact List.forall_mem_singleton.mpr (by decide)
    | colors | dimensions => exact List.forall_mem_nil _
  · refine List.forall_mem_map.mpr (List.forall_mem_map.mpr fun member hm => ?_)
    refine ⟨phrase_safe (h.names member hm), phrase_memberType h hm, by simp [propertyNode], ?_⟩
    rintro text ⟨⟩
    exact h.docs member hm
  · rintro functions ⟨⟩
    exact List.forall_mem_singleton.mpr (phrased_factory h kind)

theorem phrased_builder : (interfaceNode group.contract).Phrased := by
  have hresult := h.declared h.result
  have hbuild : (functionNode
      { group.buildFunction with doc := some ("Returns [" ++ group.result ++ "]") }).Phrased := by
    refine ⟨(by decide : Phrase (safe MemberName.build)), hresult, ?_, List.forall_mem_nil _,
      trivial⟩
    rintro text ⟨⟩
    exact (by decide : Inert ("Returns [" ++ "]")).insert hresult.1
  refine ⟨h.declared h.builder, ?_, List.forall_mem_nil _, List.forall_mem_nil _,
    List.forall_mem_nil _, List.forall_mem_map.mpr fun f hf => ?_,
    by simp [interfaceNode, PropertyGroup.contract]⟩
  · rintro text ⟨⟩
    exact h.builderDoc
  · rcases List.mem_append.mp hf with hs | hb
    · obtain ⟨member, hm, rfl | ho⟩ := PropertyGroup.mem_setters.mp hs
      · exact phrased_setter h hm
      · exact phrased_overload h hm ho
    · obtain rfl := List.mem_singleton.mp hb
      exact hbuild

theorem phrased_nestedBuilder : (classNode group.nestedBuilder).Phrased := by
  have hfunctions : ∀ f ∈ group.nestedBuilder.functions, (functionNode f).Phrased := by
    rw [group.nestedBuilder_functions, List.forall_mem_append, List.forall_mem_map,
      List.forall_mem_singleton]
    exact ⟨fun member hm => phrased_implementation h hm, phrased_build h⟩
  refine .mk (by decide : Phrase MemberName.nestedBuilder)
    (by simp [PropertyGroup.nestedBuilder, classNode]) (List.forall_mem_nil _)
    (List.forall_mem_singleton.mpr (h.declared h.builder)) ?_ (List.forall_mem_map.mpr hfunctions)
    (List.forall_mem_nil _)
  refine List.forall_mem_map.mpr (List.forall_mem_map.mpr fun member hm => ?_)
  refine phrased_property (h.valid (traced_field h.toRelated hm)) ?_
  cases member <;> simp [Member.field]

theorem phrased_defaultImplementation : (classNode group.defaultImplementation).Phrased := by
  refine .mk (h.declared h.defaultImpl) (by simp [PropertyGroup.defaultImplementation, classNode])
    ?_ (List.forall_mem_singleton.mpr (h.declared h.result)) (List.forall_mem_nil _)
    (List.forall_mem_nil _) (List.forall_mem_singleton.mpr (phrased_nestedBuilder h))
  refine List.forall_mem_map.mpr (List.forall_mem_map.mpr fun member hm => ?_)
  exact ⟨phrase_safe (h.names member hm), phrase_memberType h hm, by simp [propertyNode],
    by simp [propertyNode]⟩

theorem tidy_triad (kind : TriadKind) {doc : String} (hd : Inert doc) :
    ∀ declaration ∈ (Triad.ofGroup kind group doc).declarations,
      Tidy (declarationFragments declaration) := by
  simp only [Triad.declarations, List.forall_mem_cons, List.not_mem_nil, false_implies,
    implies_true, and_true]
  exact ⟨tidy_interface (phrased_contract h kind hd), tidy_interface (phrased_builder h),
    tidy_class (phrased_defaultImplementation h)⟩

end

end Kotlin
end StyleFamily
