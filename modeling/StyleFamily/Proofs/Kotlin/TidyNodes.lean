import StyleFamily.Proofs.Kotlin.Vocabulary
import StyleFamily.Proofs.Layout.Spacing

/-!
# Tidy declarations

A declaration whose names, types and expressions are phrases lays out as one paragraph, whichever
of its groups are empty: bodies are opened only if there is something in them, and what is opened
is closed in its turn.
-/
namespace StyleFamily
namespace Kotlin
open Text Fragment

theorem phrase_intercalate {separator : String} (hs : Inert separator) {texts : List String}
    (hne : texts ≠ []) (h : ∀ text ∈ texts, Phrase text) :
    Phrase (separator.intercalate texts) := by
  induction texts with
  | nil => exact absurd rfl hne
  | cons text rest ih =>
    obtain ⟨htext, hrest⟩ := List.forall_mem_cons.mp h
    rcases rest with _ | ⟨next, more⟩
    · simpa using htext
    · rw [String.intercalate_cons_cons]
      exact htext.around hs (ih (by simp) hrest)

/-- A name, its type and perhaps a value. -/
theorem phrase_typed {front type : String} {value : Option String} (hf : Phrase front)
    (ht : Phrase type) (hv : ∀ text ∈ value, Phrase text) :
    Phrase (front ++ ": " ++ type ++ valueClause value) := by
  have htyped := hf.around (by decide : Inert ": ") ht
  rcases value with _ | text
  · rwa [valueClause, String.append_empty]
  · rw [valueClause, ← String.append_assoc]
    exact htyped.around (by decide) (hv text rfl)

/-- Supertypes go after a name or after the parenthesis that closes a constructor. -/
theorem supertypeClause_cases {supertypes : List String} (h : ∀ name ∈ supertypes, Phrase name) :
    supertypeClause supertypes = "" ∨
      ∃ names, supertypeClause supertypes = " : " ++ names ∧ Phrase names := by
  rw [supertypeClause]
  by_cases hne : supertypes = []
  · exact .inl (by rw [hne]; rfl)
  · exact .inr ⟨_, if_neg (by simpa using hne), phrase_intercalate (by decide) hne h⟩

theorem phrase_supertypes {front : String} (hf : Phrase front) {supertypes : List String}
    (h : ∀ name ∈ supertypes, Phrase name) : Phrase (front ++ supertypeClause supertypes) := by
  rcases supertypeClause_cases h with he | ⟨names, he, hnames⟩
  · rwa [he, String.append_empty]
  · rw [he, ← String.append_assoc]
    exact hf.around (by decide) hnames

structure PropertyNode.Phrased (p : PropertyNode) : Prop where
  name : Phrase p.name
  type : Phrase p.type
  initializer : ∀ text ∈ p.initializer, Phrase text
  doc : ∀ text ∈ p.doc, Inert text

structure ParameterNode.Phrased (p : ParameterNode) : Prop where
  name : Phrase p.name
  type : Phrase p.type
  default : ∀ text ∈ p.default, Phrase text

def BodyNode.Phrased : BodyNode → Prop
  | .none => True
  | .expression text => Phrase text
  | .call callee arguments =>
    Phrase callee ∧ ∀ argument ∈ arguments, Phrase argument.1 ∧ Phrase argument.2

structure FunctionNode.Phrased (f : FunctionNode) : Prop where
  name : Phrase f.name
  returns : Phrase f.returns
  doc : ∀ text ∈ f.doc, Inert text
  parameters : ∀ p ∈ f.parameters, p.Phrased
  body : f.body.Phrased

theorem phrase_property {p : PropertyNode} (h : p.Phrased) : Phrase p.signature := by
  have hmodifiers : ∀ isPrivate overrides isMutable : Bool,
      Inert ((if isPrivate then "private " else "") ++ (if overrides then "override " else "") ++
        (if isMutable then "var " else "val ")) ∧
      Starts ((if isPrivate then "private " else "") ++ (if overrides then "override " else "") ++
        (if isMutable then "var " else "val ")) := by decide
  rw [signature_property]
  exact phrase_typed (Phrase.after (hmodifiers _ _ _) h.name) h.type h.initializer

theorem tidy_property {p : PropertyNode} (h : p.Phrased) : Tidy p.fragments :=
  tidy_docs h.doc (Tidy.line (phrase_property h))

theorem phrase_parameter {p : ParameterNode} (h : p.Phrased) : Phrase p.text := by
  rw [text_parameter]
  exact phrase_typed h.name h.type h.default

theorem phrase_function {f : FunctionNode} (h : f.Phrased) : Phrase f.signature := by
  have hmodifiers : ∀ overrides : Bool,
      Inert ((if overrides then "override " else "") ++ "fun ") ∧
        Starts ((if overrides then "override " else "") ++ "fun ") := by decide
  have hlist : Inert (", ".intercalate (f.parameters.map ParameterNode.text)) := by
    by_cases hne : f.parameters = []
    · rw [hne]
      decide
    · refine (phrase_intercalate (by decide) (by simpa using hne) ?_).1
      exact List.forall_mem_map.mpr fun p hp => phrase_parameter (h.parameters p hp)
  have hparameters := Inert.insert (by decide : Inert ("(" ++ "): ")) hlist
  rw [FunctionNode.signature]
  simpa only [String.append_assoc] using
    (Phrase.after (hmodifiers f.overrides) h.name).around hparameters h.returns

theorem tidy_function {f : FunctionNode} (h : f.Phrased) : Tidy f.fragments := by
  have hsignature := phrase_function h
  have hbody := h.body
  rw [FunctionNode.fragments]
  refine tidy_docs h.doc ?_
  cases hf : f.body with
  | none => exact Tidy.line hsignature
  | expression text =>
    rw [hf] at hbody
    exact Tidy.line (hsignature.around (by decide) hbody)
  | call callee arguments =>
    rw [hf] at hbody
    obtain ⟨hcallee, harguments⟩ := hbody
    have hlines : ∀ argument ∈ arguments,
        Phrase (argument.1 ++ " = " ++ argument.2 ++ ",") := fun argument ha =>
      ((harguments argument ha).1.around (by decide) (harguments argument ha).2).before (by decide)
    exact Tidy.block fun due => Spans.block
      (Spans.after (hsignature.around (by decide) hcallee) (by decide) rfl)
      (spans_lines hlines (')' :: due)) (Spans.line (by decide) (by decide) rfl)

/-- A header, with a body after it if there is any. -/
theorem spans_withBody {due left : List Char} {header : String} {body : List Fragment}
    (hu : Unbroken header) (he : Ends header) (hp : pending due header.toList = some left)
    (hb : ∀ due : List Char, due.count '}' ≠ 0 → Spans due due body) :
    Spans due left [ClassNode.withBody header body] := by
  rw [ClassNode.withBody]
  split
  · exact Spans.line hu he hp
  · have hclosing : Spans ('}' :: left) left [.line "\x7d"] :=
      Spans.line (by decide) (by decide) rfl
    refine Spans.block (Spans.line ?_ (Ends.prepend (by decide) _) ?_) (hb _ (by simp)) hclosing
    · exact unbroken_append.mpr ⟨hu, by decide⟩
    · rw [String.toList_append, pending_append, hp]
      rfl

theorem tidy_braced {front : String} {body : List Fragment} (h : Phrase front)
    (hb : ∀ due : List Char, due.count '}' ≠ 0 → Spans due due body) :
    Tidy [Fragment.braced (front ++ " \x7b") body] :=
  Tidy.block fun due => Spans.block (Spans.after h (by decide) rfl) (hb ('}' :: due) (by simp))
    (Spans.line (by decide) (by decide) rfl)

/-- Groups that are made item by item. -/
theorem tidy_groups {α : Type} {items : List α} {fragments : α → List Fragment}
    (h : ∀ item ∈ items, Tidy (fragments item)) :
    ∀ group ∈ items.map fragments, group ≠ [] → Tidy group :=
  List.forall_mem_map.mpr fun item hi _ => h item hi

/-- The parts of a class are phrases, and so are those of the classes inside it. -/
inductive ClassNode.Phrased : ClassNode → Prop
  | mk {node : ClassNode} (name : Phrase node.name) (doc : ∀ text ∈ node.doc, Inert text)
      (constructor : ∀ p ∈ node.constructor, p.Phrased)
      (supertypes : ∀ name ∈ node.supertypes, Phrase name)
      (properties : ∀ p ∈ node.properties, p.Phrased)
      (functions : ∀ f ∈ node.functions, f.Phrased)
      (nested : ∀ inner ∈ node.nested, ClassNode.Phrased inner) : ClassNode.Phrased node

structure InterfaceNode.Phrased (i : InterfaceNode) : Prop where
  name : Phrase i.name
  doc : ∀ text ∈ i.doc, Inert text
  annotations : ∀ name ∈ i.annotations, Phrase name
  supertypes : ∀ name ∈ i.supertypes, Phrase name
  properties : ∀ p ∈ i.properties, p.Phrased
  functions : ∀ f ∈ i.functions, f.Phrased
  companion : ∀ functions ∈ i.companion, ∀ f ∈ functions, f.Phrased

structure LocalNode.Phrased (l : LocalNode) : Prop where
  name : Phrase l.name
  type : Phrase l.type
  default : Phrase l.default
  doc : ∀ text ∈ l.doc, Inert text

theorem phrase_heading {name : String} (h : Phrase name) (flavor : ClassFlavor)
    (isPrivate : Bool) : Phrase (ClassNode.heading name flavor isPrivate) := by
  have hkeyword : Inert ((if isPrivate then "private " else "") ++ flavor.keyword ++ " ") ∧
      Starts ((if isPrivate then "private " else "") ++ flavor.keyword ++ " ") := by
    cases isPrivate <;> cases flavor <;> decide
  exact Phrase.after hkeyword h

/-- Without a constructor, a class is its header and its body; with one, the properties stand
between the parentheses and the body follows the closing one. -/
theorem tidy_layout {doc : Option String} {heading : String} {constructor : List PropertyNode}
    {supertypes : List String} {body : List Fragment} (hd : ∀ text ∈ doc, Inert text)
    (hh : Phrase heading) (hc : ∀ p ∈ constructor, p.Phrased)
    (hs : ∀ name ∈ supertypes, Phrase name)
    (hb : ∀ due : List Char, due.count '}' ≠ 0 → Spans due due body) :
    Tidy (ClassNode.layout doc heading constructor supertypes body) := by
  rw [ClassNode.layout]
  refine tidy_docs hd fun depth => ?_
  split
  · have hheader := phrase_supertypes hh hs
    refine ⟨?_, fun due => spans_withBody hheader.1.1 hheader.2.2 (hheader.1.2.pending_eq due) hb
      depth⟩
    rw [ClassNode.withBody]
    split <;> simp [Fragment.braced, allLines, linesOf]
  · have hclause : Unbroken (")" ++ supertypeClause supertypes) ∧
        Ends (")" ++ supertypeClause supertypes) ∧
          ∀ due, pending (')' :: due) (")" ++ supertypeClause supertypes).toList = some due := by
      rcases supertypeClause_cases hs with he | ⟨names, he, hnames⟩
      · rw [he]
        exact ⟨by decide, by decide, fun due => rfl⟩
      · have hafter : Inert (" : " ++ names) := Inert.append (by decide) hnames.1
        rw [he]
        refine ⟨unbroken_append.mpr ⟨by decide, hafter.1⟩,
          (hnames.2.2.prepend " : ").prepend ")", fun due => ?_⟩
        rw [String.toList_append, pending_append]
        exact hafter.2.pending_eq due
    refine ⟨by simp [allLines, linesOf], fun due => ?_⟩
    have hopening : Spans due (')' :: due) [.line (heading ++ "(")] :=
      Spans.after hh (by decide) rfl
    have hlines : Spans (')' :: due) (')' :: due)
        [.nested (constructor.map fun p => .line (p.signature ++ ","))] :=
      (spans_lines (fun p hp => (phrase_property (hc p hp)).before (by decide)) _).nested
    exact ((hopening.append hlines).append
      (spans_withBody hclause.1 hclause.2.1 (hclause.2.2 due) hb)) depth

theorem groups_eq_map (nodes : List ClassNode) :
    ClassNode.groups nodes = nodes.map ClassNode.fragments := by
  induction nodes with
  | nil => rfl
  | cons node rest ih => rw [ClassNode.groups, ih, List.map_cons]

theorem tidy_class {node : ClassNode} (h : node.Phrased) : Tidy node.fragments := by
  induction h with
  | @mk node name doc constructor supertypes properties functions nested ih =>
    obtain ⟨_, flavor, _, isPrivate, _, _, _, _, _⟩ := node
    rw [ClassNode.fragments, groups_eq_map]
    refine tidy_layout doc (phrase_heading name flavor isPrivate) constructor supertypes
      fun due hdue => spans_separated ?_ hdue
    rw [List.cons_append, List.forall_mem_cons, List.forall_mem_append]
    refine ⟨fun hne => Tidy.flatMap ?_ fun p hp => tidy_property (properties p hp),
      tidy_groups fun f hf => tidy_function (functions f hf), tidy_groups ih⟩
    rintro rfl
    exact hne rfl

theorem tidy_interface {i : InterfaceNode} (h : i.Phrased) : Tidy i.fragments := by
  have hcompanion : ∀ group ∈ i.companion.toList.map fun functions =>
      [Fragment.braced "companion object \x7b"
        (separated (functions.map FunctionNode.fragments))], group ≠ [] → Tidy group :=
    tidy_groups fun functions hf => tidy_braced (by decide : Phrase "companion object")
      fun due hdue => spans_separated (tidy_groups fun f hm => tidy_function
        (h.companion functions (Option.mem_toList.mp hf) f hm)) hdue
  have hheader := phrase_supertypes
    (Phrase.after (by decide : Inert "interface " ∧ Starts "interface ") h.name) h.supertypes
  have hblock := tidy_braced hheader fun due hdue => spans_separated (List.forall_mem_append.mpr
    ⟨List.forall_mem_append.mpr ⟨tidy_groups fun p hp => tidy_property (h.properties p hp),
      tidy_groups fun f hf => tidy_function (h.functions f hf)⟩, hcompanion⟩) hdue
  rw [InterfaceNode.fragments, List.append_assoc]
  refine tidy_docs h.doc ?_
  by_cases hne : i.annotations = []
  · rwa [hne, List.map_nil, List.nil_append]
  · rw [← List.flatMap_pure_eq_map]
    exact (Tidy.flatMap hne fun name hn => Tidy.line
      (Phrase.after (by decide) (h.annotations name hn))).append hblock

theorem tidy_local {l : LocalNode} (h : l.Phrased) : Tidy l.fragments := by
  have hdeclared : Phrase ("val " ++ l.name ++ ": ProvidableCompositionLocal<" ++ l.type ++
      "> =") := ((Phrase.after (by decide) h.name).around (by decide) h.type).before (by decide)
  have hdefault : Phrase ("compositionLocalOf(structuralEqualityPolicy()) \x7b " ++ l.default ++
      " \x7d") := Phrase.enclosed (by decide) h.default.1
  rw [LocalNode.fragments]
  exact tidy_docs h.doc ((Tidy.line hdeclared).append (Tidy.line hdefault).nested)

end Kotlin
end StyleFamily
