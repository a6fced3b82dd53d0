import StyleFamily.Kotlin.Unit
import StyleFamily.Proofs.Files.Spelling
import StyleFamily.Proofs.Kotlin.Words

/-!
# The words of declarations

Beside each spelling of a declaration, the words it consists of, in their order and told apart by
what they stand for. As long as names are identifiers, the lines that a declaration lays out as have
exactly these words.
-/
namespace StyleFamily
namespace Kotlin
open Fragment

def typeWords : TypeRef → List Word
  | .value type => [.fixed (typeName type)]
  | .named name => [.declared name]
  | .optional inner => typeWords inner
  | .callback returns => typeWords returns
  | .callbackOn receiver returns => typeWords receiver ++ typeWords returns
  | .styleBase => [.fixed "Style"]
  | .any => [.fixed "Any"]
  | .unit => [.fixed "Unit"]

/-- The words of a value, which names no member. -/
def valueWords (value : Value) : List Word := (words (spellValue value)).map .fixed

theorem lexes_type {type : TypeRef} (h : ∀ word ∈ typeWords type, word.Valid) :
    Lexes (spellType type) (typeWords type) := by
  induction type with
  | value type => cases type <;> exact Lexes.word (by decide)
  | named name => exact Lexes.declared (h _ (List.mem_singleton_self _))
  | optional inner ih =>
    have hopening : Leads "(" [] := by decide
    have hclosing : Separates ")?" [] := by decide
    have hmark : Separates "?" [] := by decide
    rw [spellType, optionalOf]
    split
    · simpa [typeWords] using (Lexes.after hopening (ih h)).before hclosing
    · simpa [typeWords] using (ih h).before hmark
  | callback returns ih =>
    have harrow : Leads "() -> " [] := by decide
    simpa [spellType, typeWords] using Lexes.after harrow (ih h)
  | callbackOn receiver returns ihr ih =>
    have harrow : Separates ".() -> " [] := by decide
    obtain ⟨hreceiver, hreturns⟩ := List.forall_mem_append.mp h
    simpa [spellType, typeWords] using (ihr hreceiver).around harrow (ih hreturns)
  | styleBase => exact Lexes.word (by decide)
  | any => exact Lexes.word (by decide)
  | unit => exact Lexes.word (by decide)

def initializerWords : Initializer → List Word
  | .null => [.fixed "null"]
  | .newBuilder contract => [.declared contract, .fixed MemberName.factory]

/-- What stands before the name of a property. -/
def modifierWords (p : PropertySpec) : List String :=
  (if p.isPrivate then ["private"] else []) ++ (if p.overrides then ["override"] else []) ++
    (if p.isMutable then ["var"] else ["val"])

def propertyWords (p : PropertySpec) : List Word :=
  (modifierWords p).map .fixed ++ (.member p.name :: typeWords p.type) ++
    p.initializer.toList.flatMap initializerWords

def parameterWords (p : Parameter) : List Word :=
  .member p.name :: typeWords p.type ++ if p.defaultsToNull then [Word.fixed "null"] else []

theorem lexes_initializer {initializer : Initializer}
    (h : ∀ word ∈ initializerWords initializer, word.Valid) :
    Lexes (spellInitializer initializer) (initializerWords initializer) := by
  cases initializer with
  | null => exact Lexes.word (by decide)
  | newBuilder contract =>
    have hdot : Separates "." [] := by decide
    have hcall : Separates "()" [] := by decide
    have hfactory : Lexes MemberName.factory [.fixed MemberName.factory] := Lexes.word (by decide)
    have hcontract : Lexes contract [.declared contract] :=
      Lexes.declared (h _ List.mem_cons_self)
    simpa [spellInitializer, initializerWords] using (hcontract.around hdot hfactory).before hcall

/-- A value after an equals sign, if there is one. -/
def valueClause : Option String → String
  | some expression => " = " ++ expression
  | none => ""

theorem signature_property (p : PropertyNode) :
    p.signature = (if p.isPrivate then "private " else "") ++
      (if p.overrides then "override " else "") ++ (if p.isMutable then "var " else "val ") ++
        p.name ++ ": " ++ p.type ++ valueClause p.initializer := by
  rw [PropertyNode.signature]
  cases p.initializer <;> rfl

theorem text_parameter (p : ParameterNode) :
    p.text = p.name ++ ": " ++ p.type ++ valueClause p.default := by
  rw [ParameterNode.text]
  cases p.default <;> rfl

theorem opens_valueClause (text : Option String) : Opens (valueClause text) := by
  cases text with
  | none => decide
  | some expression => exact opens_append (by decide) (by decide) expression

/-- A name, its type and perhaps a value. -/
theorem lexes_typed {front : String} {ws value : List Word} {type : TypeRef} {text : Option String}
    (hf : Lexes front ws) (ht : ∀ word ∈ typeWords type, word.Valid)
    (hv : Lexes (valueClause text) value) :
    Lexes (front ++ ": " ++ spellType type ++ valueClause text)
      (ws ++ typeWords type ++ value) := by
  have hcolon : Separates ": " [] := by decide
  simpa using (hf.around hcolon (lexes_type ht)).append hv (.inr (opens_valueClause text))

theorem lexes_valueClause {expression : String} {ws : List Word} (h : Lexes expression ws) :
    Lexes (valueClause (some expression)) ws := by
  have hequals : Leads " = " [] := by decide
  simpa [valueClause] using Lexes.after hequals h

theorem leads_modifiers (p : PropertySpec) :
    Leads ((if p.isPrivate then "private " else "") ++ (if p.overrides then "override " else "") ++
      (if p.isMutable then "var " else "val ")) (modifierWords p) := by
  refine Leads.append (Leads.append ?_ ?_) ?_ <;> split <;> decide

theorem lexes_property {p : PropertySpec} (h : ∀ word ∈ propertyWords p, word.Valid) :
    Lexes (propertyNode p).signature (propertyWords p) := by
  obtain ⟨hhead, hinitializer⟩ := List.forall_mem_append.mp h
  obtain ⟨hname, htype⟩ := List.forall_mem_cons.mp (List.forall_mem_append.mp hhead).2
  have hfront := Lexes.after (leads_modifiers p) (Lexes.member hname)
  have hvalue : Lexes (valueClause (p.initializer.map spellInitializer))
      (p.initializer.toList.flatMap initializerWords) := by
    cases hp : p.initializer with
    | none => exact Lexes.empty
    | some initializer =>
      simp only [hp, Option.toList_some, List.flatMap_singleton] at hinitializer ⊢
      exact lexes_valueClause (lexes_initializer hinitializer)
  have hwords : propertyWords p = (modifierWords p).map Word.fixed ++ [Word.member p.name] ++
      typeWords p.type ++ p.initializer.toList.flatMap initializerWords := by
    simp [propertyWords]
  rw [signature_property, hwords]
  exact lexes_typed hfront htype hvalue

theorem lexes_parameter {p : Parameter} (h : ∀ word ∈ parameterWords p, word.Valid) :
    Lexes (parameterNode p).text (parameterWords p) := by
  obtain ⟨hhead, hdefault⟩ := List.forall_mem_append.mp h
  obtain ⟨hname, htype⟩ := List.forall_mem_cons.mp hhead
  have hvalue : Lexes (valueClause (if p.defaultsToNull then some "null" else none))
      (if p.defaultsToNull then [.fixed "null"] else []) := by
    split
    · exact lexes_valueClause (Lexes.word (by decide))
    · exact Lexes.empty
  rw [text_parameter]
  simpa [parameterNode, parameterWords] using lexes_typed (Lexes.member hname) htype hvalue

def argumentWords : Argument → List Word
  | .resolve property field _ fallback => [Word.member property, .member field] ++ valueWords fallback
  | .buildDelegate property builderField =>
    [.member property, .member builderField, .fixed MemberName.build]

def bodyWords : Body → List Word
  | .abstract => []
  | .assignField field parameter =>
    [.fixed "apply", .fixed "this", .member field, .member parameter]
  | .promote target parameter => [.member target, .member parameter, .fixed asInteractive.name]
  | .configure builderField callback =>
    [.fixed "apply", .member builderField, .member callback]
  | .instantiate path => path.map .declared
  | .construct className arguments => .declared className :: arguments.flatMap argumentWords
  | .singleton object => [.declared object]

/-- What stands before the name of a function. -/
def functionModifiers (f : Function) : List String :=
  (if f.overrides then ["override"] else []) ++ ["fun"]

/-- The words in the head of a function. -/
def headWords (f : Function) : List Word :=
  (functionModifiers f).map .fixed ++ (.member f.name :: f.parameters.flatMap parameterWords) ++
    typeWords f.returns

def functionWords (f : Function) : List Word := headWords f ++ bodyWords f.body

/-- A value whose spelling stays in its line. -/
def ArgumentPlain : Argument → Prop
  | .resolve _ _ _ fallback => Plain (spellValue fallback)
  | .buildDelegate _ _ => True

/-- A function whose documentation and values stay in their lines. -/
structure FunctionPlain (f : Function) : Prop where
  doc : ∀ text ∈ f.doc, Text.Unbroken text
  arguments : ∀ className arguments, f.body = .construct className arguments →
    ∀ argument ∈ arguments, ArgumentPlain argument

/-- The line of an argument. -/
theorem lexes_argument {argument : Argument} (h : ∀ word ∈ argumentWords argument, word.Valid)
    (hp : ArgumentPlain argument) :
    Lexes ((spellArgument argument).1 ++ " = " ++ (spellArgument argument).2 ++ ",")
      (argumentWords argument) := by
  have hequals : Separates " = " [] := by decide
  have hcomma : Separates "," [] := by decide
  cases argument with
  | resolve property field category fallback =>
    have helvis : Separates " ?: " [] := by decide
    have hproperty : isIdentifier property = true := h (.member property) (by simp [argumentWords])
    have hfield : isIdentifier field = true := h (.member field) (by simp [argumentWords])
    have hvalue : Lexes (spellValue fallback) (valueWords fallback) := Lexes.fixed hp rfl
    simpa [spellArgument, argumentWords] using ((Lexes.member hproperty).around hequals
      ((Lexes.member hfield).around helvis hvalue)).before hcomma
  | buildDelegate property builderField =>
    have hdot : Separates "." [] := by decide
    have hcall : Separates "()" [] := by decide
    have hproperty : isIdentifier property = true := h (.member property) (by simp [argumentWords])
    have hfield : isIdentifier builderField = true :=
      h (.member builderField) (by simp [argumentWords])
    have hbuild : Lexes MemberName.build [.fixed MemberName.build] := Lexes.word (by decide)
    simpa [spellArgument, argumentWords] using ((Lexes.member hproperty).around hequals
      (((Lexes.member hfield).around hdot hbuild).before hcall)).before hcomma

/-- The head of a function. -/
theorem lexes_head {f : Function} (h : ∀ word ∈ headWords f, word.Valid) :
    Lexes (functionNode f).signature (headWords f) := by
  have hopening : Separates "(" [] := by decide
  have hclosing : Separates "): " [] := by decide
  have hcomma : Separates ", " [] := by decide
  have hmodifiers : Leads ((if f.overrides then "override " else "") ++ "fun ")
      (functionModifiers f) := by
    refine Leads.append ?_ (by decide)
    split <;> decide
  obtain ⟨hhead, hreturns⟩ := List.forall_mem_append.mp h
  obtain ⟨hname, hparameters⟩ := List.forall_mem_cons.mp (List.forall_mem_append.mp hhead).2
  have hlist : Lexes (", ".intercalate (f.parameters.map fun p => (parameterNode p).text))
      (f.parameters.flatMap parameterWords) :=
    lexes_intercalate hcomma fun p hp =>
      lexes_parameter fun word hw => hparameters word (List.mem_flatMap.mpr ⟨p, hp, hw⟩)
  have hsignature : (functionNode f).signature =
      (if f.overrides then "override " else "") ++ "fun " ++ safe f.name ++ "(" ++
        ", ".intercalate (f.parameters.map fun p => (parameterNode p).text) ++ "): " ++
          spellType f.returns := by
    rw [FunctionNode.signature, functionNode, List.map_map]
    rfl
  rw [hsignature]
  simpa [headWords] using ((Lexes.after hmodifiers (Lexes.member hname)).around hopening
    hlist).around hclosing (lexes_type hreturns)

/-- A body that is one expression. -/
theorem lexes_expression {body : Body} {text : String} (hb : bodyNode body = .expression text)
    (h : ∀ word ∈ bodyWords body, word.Valid) : Lexes text (bodyWords body) := by
  cases body with
  | abstract => simp [bodyNode] at hb
  | construct className arguments => simp [bodyNode] at hb
  | assignField field parameter =>
    have happly : Leads "apply \x7b this." ["apply", "this"] := by decide
    have hequals : Separates " = " [] := by decide
    have hclosing : Separates " \x7d" [] := by decide
    have hfield : isIdentifier field = true := h (.member field) (by simp [bodyWords])
    have hparameter : isIdentifier parameter = true := h (.member parameter) (by simp [bodyWords])
    obtain rfl := BodyNode.expression.inj hb
    simpa [bodyWords] using ((Lexes.after happly (Lexes.member hfield)).around hequals
      (Lexes.member hparameter)).before hclosing
  | promote target parameter =>
    have hopening : Separates "(" [] := by decide
    have hdot : Separates "." [] := by decide
    have hclosing : Separates "())" [] := by decide
    have htarget : isIdentifier target = true := h (.member target) (by simp [bodyWords])
    have hparameter : isIdentifier parameter = true := h (.member parameter) (by simp [bodyWords])
    have hpromoted : Lexes asInteractive.name [.fixed asInteractive.name] :=
      Lexes.word (by decide)
    obtain rfl := BodyNode.expression.inj hb
    simpa [bodyWords] using (((Lexes.member htarget).around hopening
      (Lexes.member hparameter)).around hdot hpromoted).before hclosing
  | configure builderField callback =>
    have happly : Leads "apply \x7b " ["apply"] := by decide
    have hdot : Separates "." [] := by decide
    have hclosing : Separates "() \x7d" [] := by decide
    have hfield : isIdentifier builderField = true :=
      h (.member builderField) (by simp [bodyWords])
    have hcallback : isIdentifier callback = true := h (.member callback) (by simp [bodyWords])
    obtain rfl := BodyNode.expression.inj hb
    simpa [bodyWords] using ((Lexes.after happly (Lexes.member hfield)).around hdot
      (Lexes.member hcallback)).before hclosing
  | instantiate path =>
    have hdot : Separates "." [] := by decide
    have hcall : Separates "()" [] := by decide
    have hpath : Lexes (".".intercalate (path.map id))
        (path.flatMap fun name => [.declared name]) :=
      lexes_intercalate hdot fun name hn =>
        Lexes.declared (h (.declared name) (List.mem_map_of_mem hn))
    have hwords : path.flatMap (fun name => [Word.declared name]) = path.map .declared :=
      List.flatMap_pure_eq_map _ _
    obtain rfl := BodyNode.expression.inj hb
    rw [hwords] at hpath
    simpa [bodyWords] using hpath.before hcall
  | singleton object =>
    obtain rfl := BodyNode.expression.inj hb
    exact Lexes.declared (h _ (List.mem_singleton_self _))

/-- A function reads as its head and its body. -/
theorem reads_function {f : Function} (h : ∀ word ∈ functionWords f, word.Valid)
    (hp : FunctionPlain f) : Reads (functionNode f).fragments (functionWords f) := by
  have hequals : Separates " = " [] := by decide
  have hopening : Separates "(" [] := by decide
  have hclosing : Lexes ")" [] := ⟨by decide, by decide⟩
  obtain ⟨hhead, hbody⟩ := List.forall_mem_append.mp h
  have hdocs : Reads (Fragment.docs (functionNode f).doc) [] := Reads.docs hp.doc
  have hsignature := lexes_head hhead
  rw [FunctionNode.fragments, ← List.nil_append (functionWords f)]
  refine hdocs.append ?_
  have hnode : (functionNode f).body = bodyNode f.body := rfl
  rw [hnode, functionWords]
  cases hb : bodyNode f.body with
  | none =>
    have habstract : bodyWords f.body = [] := by
      cases hf : f.body <;> simp [hf, bodyNode, bodyWords] at hb ⊢
    rw [habstract, List.append_nil]
    exact Reads.line hsignature
  | expression text =>
    simpa using Reads.line (hsignature.around hequals (lexes_expression hb hbody))
  | call callee arguments =>
    obtain ⟨items, hf, rfl⟩ : ∃ items, f.body = .construct callee items ∧
        arguments = items.map spellArgument := by
      cases hf : f.body <;> simp_all [bodyNode]
    rw [hf] at hbody ⊢
    obtain ⟨hname, harguments⟩ := List.forall_mem_cons.mp hbody
    have hlines : Reads ((items.map spellArgument).map fun argument =>
        .line (argument.1 ++ " = " ++ argument.2 ++ ",")) (items.flatMap argumentWords) := by
      rw [List.map_map, ← List.flatMap_pure_eq_map]
      refine Reads.flatMap fun argument ha => Reads.line (lexes_argument ?_ ?_)
      · exact fun word hw => harguments word (List.mem_flatMap.mpr ⟨argument, ha, hw⟩)
      · exact hp.arguments _ _ hf argument ha
    have hcall := (hsignature.around hequals (Lexes.declared hname)).before hopening
    simpa [bodyWords] using Reads.block hcall hlines hclosing

/-- Supertypes after a colon, if there are any. -/
theorem lexes_supertypes {α : Type} {items : List α} {text : α → String} {ws : α → List Word}
    (h : ∀ item ∈ items, Lexes (text item) (ws item)) :
    Lexes (supertypeClause (items.map text)) (items.flatMap ws) ∧
      Opens (supertypeClause (items.map text)) := by
  have hcolon : Leads " : " [] := by decide
  have hcomma : Separates ", " [] := by decide
  cases items with
  | nil => exact ⟨Lexes.empty, (by decide : Opens "")⟩
  | cons item rest =>
    have hlist := lexes_intercalate hcomma h
    exact ⟨by simpa [supertypeClause] using Lexes.after hcolon hlist,
      opens_append (by decide) (by decide) _⟩

def interfaceWords (i : InterfaceSpec) : List Word :=
  (if i.immutable then [Word.fixed immutable.name] else []) ++
    ([Word.fixed "interface", .declared i.name] ++ i.supertypes.flatMap typeWords ++
      (i.properties.flatMap propertyWords ++ i.functions.flatMap functionWords ++
        i.companion.toList.flatMap fun functions =>
          [Word.fixed "companion", .fixed "object"] ++ functions.flatMap functionWords))

/-- An interface whose documentation and values stay in their lines. -/
structure InterfacePlain (i : InterfaceSpec) : Prop where
  doc : ∀ text ∈ i.doc, Text.Unbroken text
  properties : ∀ p ∈ i.properties, ∀ text ∈ p.doc, Text.Unbroken text
  functions : ∀ f ∈ i.functions, FunctionPlain f
  companion : ∀ functions ∈ i.companion, ∀ f ∈ functions, FunctionPlain f

theorem reads_property {p : PropertySpec} (h : ∀ word ∈ propertyWords p, word.Valid)
    (hp : ∀ text ∈ p.doc, Text.Unbroken text) :
    Reads (propertyNode p).fragments (propertyWords p) := by
  have hdocs : Reads (Fragment.docs (propertyNode p).doc) [] := Reads.docs hp
  exact hdocs.append (Reads.line (lexes_property h))

/-- Groups that are made item by item. -/
theorem reads_groups {α : Type} {items : List α} {fragments : α → List Fragment}
    {ws : α → List Word} (h : ∀ item ∈ items, Reads (fragments item) (ws item)) :
    List.Forall₂ Reads (items.map fragments) (items.map ws) := by
  rw [List.forall₂_map_left_iff, List.forall₂_map_right_iff, List.forall₂_same]
  exact h

theorem reads_functions {functions : List Function}
    (h : ∀ word ∈ functions.flatMap functionWords, word.Valid)
    (hp : ∀ f ∈ functions, FunctionPlain f) :
    List.Forall₂ Reads ((functions.map functionNode).map FunctionNode.fragments)
      (functions.map functionWords) := by
  rw [List.map_map]
  exact reads_groups fun f hf =>
    reads_function (fun word hw => h word (List.mem_flatMap.mpr ⟨f, hf, hw⟩)) (hp f hf)

theorem reads_companion {functions : List Function}
    (h : ∀ word ∈ functions.flatMap functionWords, word.Valid)
    (hp : ∀ f ∈ functions, FunctionPlain f) :
    Reads [Fragment.braced "companion object \x7b"
        (Fragment.separated ((functions.map functionNode).map FunctionNode.fragments))]
      ([Word.fixed "companion", .fixed "object"] ++ functions.flatMap functionWords) := by
  have hopening : Lexes "companion object \x7b" [.fixed "companion", .fixed "object"] :=
    ⟨by decide, by decide⟩
  have hclosing : Lexes "\x7d" [] := ⟨by decide, by decide⟩
  have hbody := Reads.separated (reads_functions h hp)
  rw [← List.flatMap_def] at hbody
  simpa [Fragment.braced] using Reads.block hopening hbody hclosing

/-- An interface is a block of its members and its companion. -/
theorem interface_fragments (i : InterfaceSpec) :
    (interfaceNode i).fragments = Fragment.docs i.doc ++
      (interfaceNode i).annotations.map (fun a => .line ("@" ++ a)) ++
      [.block ("interface " ++ i.name ++ supertypeClause (i.supertypes.map spellType) ++ " \x7b")
        (Fragment.separated (i.properties.map (fun p => (propertyNode p).fragments) ++
          (i.functions.map functionNode).map FunctionNode.fragments ++
          i.companion.toList.map fun functions => [Fragment.braced "companion object \x7b"
            (Fragment.separated ((functions.map functionNode).map FunctionNode.fragments))]))
        "\x7d"] := by
  have hcompanion : (interfaceNode i).companion = i.companion.map (·.map functionNode) := rfl
  have hproperties : (interfaceNode i).properties = i.properties.map propertyNode := rfl
  rw [InterfaceNode.fragments, hcompanion, hproperties, List.map_map]
  cases i.companion <;> rfl

theorem reads_interface {i : InterfaceSpec} (h : ∀ word ∈ interfaceWords i, word.Valid)
    (hp : InterfacePlain i) : Reads (interfaceNode i).fragments (interfaceWords i) := by
  have hinterface : Leads "interface " ["interface"] := by decide
  have hbrace : Separates " \x7b" [] := by decide
  have hclosing : Lexes "\x7d" [] := ⟨by decide, by decide⟩
  obtain ⟨_, hrest⟩ := List.forall_mem_append.mp h
  obtain ⟨hhead, hmembers⟩ := List.forall_mem_append.mp hrest
  obtain ⟨hname, hsupertypes⟩ := List.forall_mem_append.mp hhead
  obtain ⟨hfront, hcompanion⟩ := List.forall_mem_append.mp hmembers
  obtain ⟨hproperties, hfunctions⟩ := List.forall_mem_append.mp hfront
  have hdocs : Reads (Fragment.docs i.doc) [] := Reads.docs hp.doc
  have hannotations : Reads ((interfaceNode i).annotations.map fun a => .line ("@" ++ a))
      (if i.immutable then [.fixed immutable.name] else []) := by
    have hannotation : Lexes ("@" ++ immutable.name) [.fixed immutable.name] :=
      ⟨by decide, by decide⟩
    rw [interfaceNode]
    split
    · exact Reads.line hannotation
    · exact Reads.nil
  obtain ⟨hclause, hopens⟩ := lexes_supertypes fun type ht =>
    lexes_type fun word hw => hsupertypes word (List.mem_flatMap.mpr ⟨type, ht, hw⟩)
  have hopening := (((Lexes.after hinterface (Lexes.declared (hname (.declared i.name)
    (by simp)))).append hclause (.inr hopens)).before hbrace)
  have hbody := Reads.separated (List.rel_append (List.rel_append
    (reads_groups fun p hm => reads_property
      (fun word hw => hproperties word (List.mem_flatMap.mpr ⟨p, hm, hw⟩)) (hp.properties p hm))
    (reads_functions hfunctions hp.functions))
    (reads_groups fun functions hm => reads_companion
      (fun word hw => hcompanion word
        (List.mem_flatMap.mpr ⟨functions, hm, List.mem_append_right _ hw⟩))
      (hp.companion functions (Option.mem_toList.mp hm))))
  rw [List.flatten_append, List.flatten_append, ← List.flatMap_def, ← List.flatMap_def,
    ← List.flatMap_def] at hbody
  have hblock := Reads.block hopening hbody hclosing
  rw [interface_fragments, interfaceWords]
  simpa using (hdocs.append hannotations).append hblock

/-- What stands before the name of a class. -/
def classModifiers (isPrivate : Bool) (kind : ClassKind) : List String :=
  (if isPrivate then ["private"] else []) ++ match kind with
    | .plain => ["class"]
    | .data => ["data", "class"]
    | .dataObject => ["data", "object"]

mutual
def classWords : ClassSpec → List Word
  | ⟨name, _, isPrivate, kind, supertypes, constructor, properties, functions, inner⟩ =>
    (classModifiers isPrivate kind).map Word.fixed ++ [Word.declared name] ++
      constructor.flatMap propertyWords ++ supertypes.map Word.declared ++
      (properties.flatMap propertyWords ++ functions.flatMap functionWords ++
        (nestedWords inner).flatten)

def nestedWords : List ClassSpec → List (List Word)
  | [] => []
  | spec :: rest => classWords spec :: nestedWords rest
end

mutual
/-- A class whose documentation and values stay in their lines. -/
def ClassPlain : ClassSpec → Prop
  | ⟨_, documentation, _, _, _, _, properties, functions, inner⟩ =>
    (∀ text ∈ documentation, Text.Unbroken text) ∧
      (∀ p ∈ properties, ∀ text ∈ p.doc, Text.Unbroken text) ∧
      (∀ f ∈ functions, FunctionPlain f) ∧ AllClassesPlain inner

def AllClassesPlain : List ClassSpec → Prop
  | [] => True
  | spec :: rest => ClassPlain spec ∧ AllClassesPlain rest
end

theorem leads_heading (isPrivate : Bool) (kind : ClassKind) :
    Leads ((if isPrivate then "private " else "") ++ (flavorOf kind).keyword ++ " ")
      (classModifiers isPrivate kind) := by
  cases isPrivate <;> cases kind <;> decide

/-- A header with its body, if there is any. -/
theorem reads_withBody {header : String} {body : List Fragment} {hs bs : List Word}
    (hh : Lexes header hs) (hb : Reads body bs) :
    Reads [ClassNode.withBody header body] (hs ++ bs) := by
  have hbrace : Separates " \x7b" [] := by decide
  have hclosing : Lexes "\x7d" [] := ⟨by decide, by decide⟩
  rw [ClassNode.withBody]
  cases body with
  | nil =>
    have hwords : bs = [] := by simpa [allLines] using (hb.words 0).symm
    simpa [hwords] using Reads.line hh
  | cons fragment rest => simpa [Fragment.braced] using Reads.block (hh.before hbrace) hb hclosing

theorem lexes_declaredSupertypes {supertypes : List String}
    (h : ∀ supertype ∈ supertypes, isIdentifier supertype = true) :
    Lexes (supertypeClause supertypes) (supertypes.map .declared) ∧
      Opens (supertypeClause supertypes) := by
  have hwords : supertypes.flatMap (fun name => [Word.declared name]) = supertypes.map .declared :=
    List.flatMap_pure_eq_map _ _
  have hclause := lexes_supertypes fun name hn => Lexes.declared (h name hn)
  rwa [List.map_id', hwords] at hclause

/-- A class around its body: name, constructor and supertypes. -/
theorem reads_layout {text : Option String} {name : String} {isPrivate : Bool} {kind : ClassKind}
    {constructor : List PropertySpec} {supertypes : List String} {body : List Fragment}
    {bs : List Word} (hd : ∀ line ∈ text, Text.Unbroken line) (hn : isIdentifier name = true)
    (hc : ∀ word ∈ constructor.flatMap propertyWords, word.Valid)
    (hs : ∀ supertype ∈ supertypes, isIdentifier supertype = true) (hb : Reads body bs) :
    Reads (ClassNode.layout text (ClassNode.heading name (flavorOf kind) isPrivate)
        (constructor.map propertyNode) supertypes body)
      ((classModifiers isPrivate kind).map Word.fixed ++ [Word.declared name] ++
        constructor.flatMap propertyWords ++ supertypes.map Word.declared ++ bs) := by
  have hopening : Separates "(" [] := by decide
  have hcomma : Separates "," [] := by decide
  have hclosing : Leads ")" [] := by decide
  have hheading : Lexes (ClassNode.heading name (flavorOf kind) isPrivate)
      ((classModifiers isPrivate kind).map Word.fixed ++ [Word.declared name]) :=
    Lexes.after (leads_heading isPrivate kind) (Lexes.declared hn)
  obtain ⟨hclause, hopens⟩ := lexes_declaredSupertypes hs
  rw [ClassNode.layout]
  refine (Reads.docs hd).append ?_
  cases constructor with
  | nil => simpa using reads_withBody (hheading.append hclause (.inr hopens)) hb
  | cons first rest =>
    have hlines : Reads (((first :: rest).map propertyNode).map fun p => .line (p.signature ++ ","))
        ((first :: rest).flatMap propertyWords) := by
      rw [List.map_map, ← List.flatMap_pure_eq_map]
      refine Reads.flatMap fun p hm => Reads.line ?_
      have hp := lexes_property fun word hw => hc word (List.mem_flatMap.mpr ⟨p, hm, hw⟩)
      simpa using hp.before hcomma
    have hfirst := Reads.line (hheading.before hopening)
    have hlast := reads_withBody (Lexes.after hclosing hclause) hb
    simpa using (hfirst.append (Reads.nested hlines)).append hlast

mutual
theorem reads_class (spec : ClassSpec) (h : ∀ word ∈ classWords spec, word.Valid)
    (hp : ClassPlain spec) : Reads (classNode spec).fragments (classWords spec) := by
  obtain ⟨name, documentation, isPrivate, kind, supertypes, constructor, properties, functions,
    inner⟩ := spec
  rw [ClassPlain] at hp
  obtain ⟨hdoc, hpropertyDocs, hfunctionsPlain, hinner⟩ := hp
  rw [classWords] at h ⊢
  obtain ⟨hfront, hmembers⟩ := List.forall_mem_append.mp h
  obtain ⟨hhead, hsupertypes⟩ := List.forall_mem_append.mp hfront
  obtain ⟨hnames, hconstructor⟩ := List.forall_mem_append.mp hhead
  obtain ⟨hfields, hnested⟩ := List.forall_mem_append.mp hmembers
  obtain ⟨hproperties, hfunctions⟩ := List.forall_mem_append.mp hfields
  have hname : isIdentifier name = true := hnames (.declared name) (by simp)
  have hclause : ∀ supertype ∈ supertypes, isIdentifier supertype = true :=
    fun supertype hs => hsupertypes (.declared supertype) (List.mem_map_of_mem hs)
  have hfieldLines : Reads ((properties.map propertyNode).flatMap PropertyNode.fragments)
      (properties.flatMap propertyWords) := by
    rw [List.flatMap_map]
    exact Reads.flatMap fun p hm => reads_property
      (fun word hw => hproperties word (List.mem_flatMap.mpr ⟨p, hm, hw⟩)) (hpropertyDocs p hm)
  have hbody := Reads.separated (.cons hfieldLines (List.rel_append
    (reads_functions hfunctions hfunctionsPlain) (reads_nested inner hnested hinner)))
  rw [List.flatten_cons, List.flatten_append, ← List.flatMap_def, ← List.append_assoc] at hbody
  rw [classNode, ClassNode.fragments]
  exact reads_layout hdoc hname hconstructor hclause hbody

theorem reads_nested (specs : List ClassSpec)
    (h : ∀ word ∈ (nestedWords specs).flatten, word.Valid) (hp : AllClassesPlain specs) :
    List.Forall₂ Reads (ClassNode.groups (classNodes specs)) (nestedWords specs) := by
  cases specs with
  | nil => exact .nil
  | cons spec rest =>
    rw [AllClassesPlain] at hp
    rw [nestedWords, List.flatten_cons] at h
    obtain ⟨hspec, hrest⟩ := List.forall_mem_append.mp h
    rw [classNodes, ClassNode.groups, nestedWords]
    exact .cons (reads_class spec hspec hp.1) (reads_nested rest hrest hp.2)
end

def accessorWords (a : AccessorSpec) : List Word :=
  [.fixed "val", .declared a.name, .fixed "ProvidableCompositionLocal", .declared a.style,
    .fixed "compositionLocalOf", .fixed "structuralEqualityPolicy", .declared a.style,
    .fixed MemberName.factory, .fixed MemberName.build]

def declarationWords : Declaration → List Word
  | .ofInterface spec => interfaceWords spec
  | .ofClass spec => classWords spec

/-- The words of the line that names the package. -/
def packageWords (package : String) : List Word :=
  .fixed "package" :: (Text.splitAt '.' package).map .segment

/-- An import line brings no name of the component. -/
def importWords (line : String) : List Word := (words line).map .fixed

/-- The words of a unit, in their order. -/
def unitWords (artifacts : Artifacts) (package : String) : List Word :=
  packageWords package ++
    (Imports.lines ⟨unitSymbols artifacts⟩ package).flatMap importWords ++
    (accessorWords artifacts.accessor ++ artifacts.declarations.flatMap declarationWords)

def DeclarationPlain : Declaration → Prop
  | .ofInterface spec => InterfacePlain spec
  | .ofClass spec => ClassPlain spec

theorem reads_declaration {declaration : Declaration}
    (h : ∀ word ∈ declarationWords declaration, word.Valid) (hp : DeclarationPlain declaration) :
    Reads (declarationFragments declaration) (declarationWords declaration) := by
  cases declaration with
  | ofInterface spec => exact reads_interface h hp
  | ofClass spec => exact reads_class spec h hp

theorem reads_accessor {a : AccessorSpec} (hn : isIdentifier a.name = true)
    (hs : isIdentifier a.style = true) (hd : ∀ text ∈ a.doc, Text.Unbroken text) :
    Reads (accessorNode a).fragments (accessorWords a) := by
  have hval : Leads "val " ["val"] := by decide
  have hlocal : Separates ": ProvidableCompositionLocal<" ["ProvidableCompositionLocal"] := by
    decide
  have hequals : Separates "> =" [] := by decide
  have hopening : Leads "compositionLocalOf(structuralEqualityPolicy()) \x7b "
      ["compositionLocalOf", "structuralEqualityPolicy"] := by decide
  have hdot : Separates "." [] := by decide
  have hdotCall : Separates "()." [] := by decide
  have hcall : Separates "()" [] := by decide
  have hclosing : Separates " \x7d" [] := by decide
  have hfactory : Lexes MemberName.factory [.fixed MemberName.factory] := Lexes.word (by decide)
  have hbuild : Lexes MemberName.build [.fixed MemberName.build] := Lexes.word (by decide)
  have hfirst := ((Lexes.after hval (Lexes.declared hn)).around hlocal
    (Lexes.declared hs)).before hequals
  have hdefault := (((Lexes.declared hs).around hdot hfactory).around hdotCall hbuild).before hcall
  have hsecond := (Lexes.after hopening hdefault).before hclosing
  have hlines := (Reads.line hfirst).append (Reads.nested (Reads.line hsecond))
  exact (Reads.docs hd).append hlines

theorem lexes_segments {package : String} (h : packageFault? package = none) :
    Lexes package ((Text.splitAt '.' package).map .segment) := by
  have hdot : Separates "." [] := by decide
  have hwords : (Text.splitAt '.' package).flatMap (fun segment => [Word.segment segment]) =
      (Text.splitAt '.' package).map .segment := List.flatMap_pure_eq_map _ _
  have hsegments := lexes_intercalate hdot fun segment hs =>
    Lexes.segment (isIdentifier_of_package h segment hs)
  rwa [List.map_id', intercalate_splitAt, hwords] at hsegments

theorem lexes_package {package : String} (h : packageFault? package = none) :
    Lexes ("package " ++ package) (packageWords package) := by
  have hpackage : Leads "package " ["package"] := by decide
  exact Lexes.after hpackage (lexes_segments h)

/-- The lines of a unit hold its words and no others. -/
theorem codeWords_unitText {artifacts : Artifacts} {package : String}
    (hp : packageFault? package = none)
    (hi : ∀ line ∈ Imports.lines ⟨unitSymbols artifacts⟩ package, Plain line)
    (ha : isIdentifier artifacts.accessor.name = true ∧
      isIdentifier artifacts.accessor.style = true ∧
        ∀ text ∈ artifacts.accessor.doc, Text.Unbroken text)
    (hv : ∀ word ∈ artifacts.declarations.flatMap declarationWords, word.Valid)
    (hd : ∀ declaration ∈ artifacts.declarations, DeclarationPlain declaration) :
    codeWords (unitText artifacts package) =
      (unitWords artifacts package).map Word.spelled := by
  have hne : package ≠ "" := (inline_of_package hp).1
  obtain ⟨tail, htail⟩ : ∃ tail, generatedHeader.toList = '/' :: tail := ⟨_, rfl⟩
  have hheader : Reads [.line generatedHeader] [] := Reads.comment htail (by decide)
  have himports : Reads ((Imports.lines ⟨unitSymbols artifacts⟩ package).map .line)
      ((Imports.lines ⟨unitSymbols artifacts⟩ package).flatMap importWords) := by
    rw [← List.flatMap_pure_eq_map]
    exact Reads.flatMap fun line hl => Reads.line (Lexes.fixed (hi line hl) rfl)
  have hdeclarations := reads_groups fun declaration hm => reads_declaration
    (fun word hw => hv word (List.mem_flatMap.mpr ⟨declaration, hm, hw⟩)) (hd declaration hm)
  have hgroups := Reads.separated (.cons hheader (.cons (Reads.line (lexes_package hp))
    (.cons himports (.cons (reads_accessor ha.1 ha.2.1 ha.2.2) hdeclarations))))
  have hunit := codeWords_textOf hgroups
  rw [List.flatten_cons, List.flatten_cons, List.flatten_cons, List.flatten_cons, List.nil_append,
    ← List.flatMap_def, ← List.append_assoc] at hunit
  rw [unitText, FileNode.text]
  simp only [unitFile, hne, ↓reduceIte]
  exact hunit

end Kotlin
end StyleFamily
