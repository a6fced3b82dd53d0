import StyleFamily.Proofs.Manifest.FirstFault
import StyleFamily.Proofs.Manifest.Search
import StyleFamily.Proofs.Text.ByteOrder

/-!
# Sound quotations

A span quotes a name in a text if both its ends lie between characters and the bytes from the one to
the other are those of the name. Whatever the text, the search for a name comes to such spans only.
The labels of a manifest's errors come from this search alone, so that they quote what the error is
about, even where they point at another occurrence of it than the faulty one.
-/
namespace StyleFamily
namespace Quotation

theorem length_bytes (text : String) : (Text.bytes text).length = byteLength text.toList := by
  rw [Text.bytes_eq, List.length_flatMap, byteLength]
  induction text.toList with
  | nil => rfl
  | cons c cs ih => rw [List.map_cons, List.sum_cons, ih, String.length_utf8EncodeChar,
      List.foldr_cons]

/-- The span starts and ends between characters of the text, and the bytes it covers are those of
the name. -/
structure Quotes (text name : String) (span : Span) : Prop where
  inside : span.stop ≤ text.utf8ByteSize
  start : (⟨span.offset⟩ : String.Pos.Raw).IsValid text
  stop : (⟨span.stop⟩ : String.Pos.Raw).IsValid text
  bytes : ((Text.bytes text).drop span.offset).take span.length = Text.bytes name

theorem StandsAt.quotes {text name : String} {offset : Nat}
    (h : StandsAt name.toList text.toList offset) :
    Quotes text name ⟨offset, byteLength name.toList⟩ := by
  obtain ⟨front, back, htext, rfl⟩ := h
  have hstring : text = String.ofList front ++ name ++ String.ofList back := by
    rw [← String.toList_inj, htext]
    simp
  have hfront : (Text.bytes (String.ofList front)).length = byteLength front := by
    rw [length_bytes, String.toList_ofList]
  constructor
  · rw [← byteLength_toList, htext, Span.stop]
    simp only [byteLength_append]
    omega
  · rw [← dropBytes_ne_none, htext, List.append_assoc, dropBytes_append]
    simp
  · rw [← dropBytes_ne_none, htext, Span.stop, ← byteLength_append, dropBytes_append]
    simp
  · have hbytes : Text.bytes text = Text.bytes (String.ofList front) ++
        (Text.bytes name ++ Text.bytes (String.ofList back)) := by
      rw [hstring]
      simp [Text.bytes_eq]
    rw [hbytes, ← hfront, List.drop_left, ← length_bytes, List.take_left]

theorem quotes_of_spanFrom? {text name : String} {start : Nat} {span : Span}
    (h : spanFrom? text.toList name start = some span) : Quotes text name span := by
  obtain ⟨hat, hlength, _⟩ := standsAt_of_spanFrom? h
  have hspan : span = ⟨span.offset, byteLength name.toList⟩ := by rw [← hlength]
  rw [hspan]
  exact hat.quotes

end Quotation

namespace ManifestError
open Quotation

/-- The name or package that an error is about. -/
def subject? : ManifestError → Option String
  | invalidPackage text _ _ | invalidName text _ _ _ | repeatedDeclaration text _
  | blankType text _ _ | repeatedParameter text _ _ _ => some text
  | unreadable _ | malformed _ | blankOwner => none

/-- The text that an error refuses as a name or as a package. -/
def misnomer? : ManifestError → Option String
  | invalidPackage text _ _ | invalidName text _ _ _ => some text
  | _ => none

/-- Every label of an error about a text quotes what the error is about. -/
structure SoundlyLabelled (text : String) (error : ManifestError) : Prop where
  quotes : ∀ label ∈ error.labels, ∃ name ∈ error.subject?, Quotes text name label.1
  misnomer : ∀ name ∈ error.misnomer?, error.labels ≠ [] ↔ name.toList <:+: text.toList
  /-- The second label of a repetition comes with the first one and after it, both after the name
  of the declaration. -/
  repetition : ∀ {parameter declaration first again},
    error = .repeatedParameter parameter declaration first again →
      (first = none → again = none) ∧ (∀ f ∈ first, ∀ a ∈ again, f.stop ≤ a.offset) ∧
        ∀ holder ∈ span? text.toList declaration, ∀ label ∈ error.labels,
          holder.stop ≤ label.1.offset

end ManifestError

namespace Quotation
variable {text : String}

theorem spanAfter?_eq_some {source : List Char} {name : String} {first : Option Span}
    {again : Span} : spanAfter? source name first = some again ↔
      ∃ f, first = some f ∧ spanFrom? source name f.stop = some again := by
  rw [spanAfter?, Option.bind_eq_some_iff]

theorem quotes_of_spanAfter? {name : String} {first : Option Span} {again : Span}
    (h : spanAfter? text.toList name first = some again) : Quotes text name again := by
  obtain ⟨f, _, hf⟩ := spanAfter?_eq_some.mp h
  exact quotes_of_spanFrom? hf

end Quotation

section
variable {text : String} {error : ManifestError}
open Quotation ManifestError

/-- An error with one label or none, that of a span which a search for its subject came to. -/
theorem soundlyLabelled_of_span {name : String} {remark : Option String} {span : Option Span}
    (hs : error.subject? = some name) (hl : error.labels = span.toList.map (·, remark))
    (hq : ∀ s ∈ span, Quotes text name s)
    (hm : ∀ n ∈ error.misnomer?, n = name ∧ span = span? text.toList name)
    (hr : ∀ p d first again, error ≠ .repeatedParameter p d first again) :
    error.SoundlyLabelled text where
  quotes label hlabel := by
    simp only [hl, List.mem_map, Option.mem_toList] at hlabel
    obtain ⟨s, hspan, rfl⟩ := hlabel
    exact ⟨name, hs, hq s hspan⟩
  misnomer n hn := by
    obtain ⟨rfl, rfl⟩ := hm n hn
    rw [hl, ← span?_ne_none]
    simp
  repetition he := absurd he (hr _ _ _ _)

theorem soundlyLabelled_invalidName {name : String} {named : Named} {fault : NameFault} :
    (ManifestError.invalidName name named fault (span? text.toList name)).SoundlyLabelled text :=
  soundlyLabelled_of_span rfl rfl (fun _ hs => quotes_of_spanFrom? hs)
    (fun _ hn => ⟨(Option.some.inj hn).symm, rfl⟩) (by simp)

/-- The labels of a repeated parameter, looked up after the name of its declaration. -/
theorem soundlyLabelled_repeatedParameter {parameter declaration : String} {first : Option Span}
    (hf : first = spanFrom? text.toList parameter
      (Manifest.parameterStart text.toList declaration)) :
    (ManifestError.repeatedParameter parameter declaration first
      (spanAfter? text.toList parameter first)).SoundlyLabelled text := by
  have hfirst : ∀ f, first = some f → Quotes text parameter f ∧
      Manifest.parameterStart text.toList declaration ≤ f.offset := fun f h =>
    ⟨quotes_of_spanFrom? (hf ▸ h), (standsAt_of_spanFrom? (hf ▸ h)).2.2⟩
  have hagain : ∀ a, spanAfter? text.toList parameter first = some a →
      ∃ f, first = some f ∧ f.stop ≤ a.offset ∧ Quotes text parameter a := by
    intro a h
    obtain ⟨f, hfirst, ha⟩ := spanAfter?_eq_some.mp h
    exact ⟨f, hfirst, (standsAt_of_spanFrom? ha).2.2, quotes_of_spanFrom? ha⟩
  constructor
  · intro label hlabel
    refine ⟨parameter, rfl, ?_⟩
    simp only [labels, List.mem_append, List.mem_map, Option.mem_toList] at hlabel
    rcases hlabel with ⟨f, h, rfl⟩ | ⟨a, h, rfl⟩
    · exact (hfirst f h).1
    · obtain ⟨_, _, _, hq⟩ := hagain a h
      exact hq
  · intro name hname
    cases hname
  · rintro _ _ _ _ ⟨⟩
    refine ⟨fun h => by rw [h]; rfl, ?_, ?_⟩
    · intro f h a ha
      obtain ⟨f', h', hle, _⟩ := hagain a ha
      obtain rfl := Option.some.inj (h'.symm.trans h)
      exact hle
    · intro holder hholder label hlabel
      have hstart : Manifest.parameterStart text.toList declaration = holder.stop := by
        rw [Manifest.parameterStart, hholder]
        rfl
      rw [← hstart]
      simp only [labels, List.mem_append, List.mem_map, Option.mem_toList] at hlabel
      rcases hlabel with ⟨f, h, rfl⟩ | ⟨a, h, rfl⟩
      · exact (hfirst f h).2
      · obtain ⟨f, h', hle, _⟩ := hagain a h
        have hf' := (hfirst f h').2
        simp only [Span.stop] at hle ⊢
        omega

theorem ParameterFault.Reported.soundlyLabelled {d : SourceDeclaration} {p : SourceParameter}
    {fault : ParameterFault} (h : fault.Reported text.toList d p error) :
    error.SoundlyLabelled text := by
  cases fault with
  | name =>
    obtain ⟨f, _, rfl⟩ := h
    exact soundlyLabelled_invalidName
  | blankType =>
    subst h
    exact soundlyLabelled_of_span rfl rfl (fun _ hs => quotes_of_spanFrom? hs) nofun (by simp)
  | repetition =>
    obtain ⟨_, hf, rfl⟩ := h
    exact soundlyLabelled_repeatedParameter hf

theorem DeclarationFault.Reported.soundlyLabelled {d : SourceDeclaration}
    {fault : DeclarationFault} (h : fault.Reported text.toList d error) :
    error.SoundlyLabelled text := by
  cases fault with
  | name =>
    obtain ⟨f, _, rfl⟩ := h
    exact soundlyLabelled_invalidName
  | repetition =>
    subst h
    exact soundlyLabelled_of_span rfl rfl (fun _ hs => quotes_of_spanAfter? hs) nofun (by simp)
  | parameter j fault =>
    obtain ⟨p, _, hr⟩ := h
    exact hr.soundlyLabelled

theorem ManifestFault.Reported.soundlyLabelled {manifest : Manifest} {fault : ManifestFault}
    (h : fault.Reported text.toList manifest error) : error.SoundlyLabelled text := by
  cases fault with
  | package =>
    obtain ⟨f, _, rfl⟩ := h
    exact soundlyLabelled_of_span rfl rfl (fun _ hs => quotes_of_spanFrom? hs)
      (fun _ hn => ⟨(Option.some.inj hn).symm, rfl⟩) (by simp)
  | owner =>
    subst h
    exact ⟨nofun, nofun, nofun⟩
  | declaration i fault =>
    obtain ⟨d, _, hr⟩ := h
    exact hr.soundlyLabelled

end

namespace Manifest
open Quotation

theorem isValid_of_spanFrom? {text name : String} {start : Nat} {span : Span}
    (h : spanFrom? text.toList name start = some span) :
    (⟨span.stop⟩ : String.Pos.Raw).IsValid text :=
  (quotes_of_spanFrom? h).stop

/-- Whatever the text and whatever is refused in it, the labels of the error quote what the error is
about, and no search cuts the text inside a character or beyond its end: the search for a parameter
starts between characters, and so does the search for a name after one that was found. -/
theorem labels_quote_subject (text : String) (manifest : Manifest) :
    (∀ error, manifest.validate text.toList = .error error → error.SoundlyLabelled text) ∧
    (∀ declaration, (⟨parameterStart text.toList declaration⟩ : String.Pos.Raw).IsValid text) ∧
    ∀ name start found, spanFrom? text.toList name start = some found →
      (⟨found.stop⟩ : String.Pos.Raw).IsValid text := by
  refine ⟨fun error h => ?_, fun declaration => ?_, fun _ _ _ h => isValid_of_spanFrom? h⟩
  · have hfinds := validate_finds text.toList manifest
    rw [h] at hfinds
    cases hfinds with
    | fault f _ _ hr => exact hr.soundlyLabelled
  · rw [parameterStart]
    cases hspan : span? text.toList declaration with
    | none => exact dropBytes_ne_none.mp (by simp [dropBytes])
    | some span => exact isValid_of_spanFrom? hspan

/-- A manifest with a character of two bytes before a parameter that is declared twice. -/
def accentedSource : String :=
  "# caf\u00e9\n[[declaration]]\nname = \"ChipProperties\"\n" ++
    "[[declaration.param]]\nname = \"icon\"\ntype = \"ShapeProperty\"\n" ++
    "[[declaration.param]]\nname = \"icon\"\ntype = \"ShapeProperty\"\n"

/-- What is reported of it. -/
def accentedError : ManifestError :=
  .repeatedParameter "icon" "ChipProperties" (some ⟨78, 4⟩) (some ⟨137, 4⟩)

theorem accented_labels_quote_subject : ∃ manifest, decode? accentedSource = some manifest ∧
    manifest.validate accentedSource.toList = .error accentedError ∧
      accentedError.SoundlyLabelled accentedSource := by
  let icon : SourceParameter := ⟨"icon", "ShapeProperty"⟩
  have hdecode : decode? accentedSource =
      some { declarations := [⟨"ChipProperties", [], [icon, icon]⟩] } := by decide +kernel
  have herror : validate accentedSource.toList
      { declarations := [⟨"ChipProperties", [], [icon, icon]⟩] } = .error accentedError := by
    decide +kernel
  exact ⟨_, hdecode, herror, (labels_quote_subject accentedSource _).1 _ herror⟩

end Manifest
end StyleFamily
