import ClassSieve.Condition
import ClassSieve.Proofs.Descriptor.Grammar

/-!
# Types as written in source

A parameter list can be given by the descriptors of its types or by the types as they stand in
source code. Reading the descriptors one by one and comparing them with a list of source types
agree, since the descriptors of two source types are equal as soon as one begins the other.
-/
namespace ClassSieve.Descriptor
open ClassFile Text

/-- A primitive type other than `void`, or a class name with separators of either kind. -/
structure SourceElement where
  text : String
  no_semicolon : ';' ∉ text.toList
  ne_void : text ≠ "void"
  no_dimension : ¬ ['[', ']'] <:+ text.toList

inductive SourceType where
  | element (element : SourceElement)
  | array (component : SourceType)

def SourceType.text : SourceType → String
  | .element e => e.text
  | .array component => component.text ++ "[]"

def SourceType.descriptor (type : SourceType) : String := ofSource type.text

theorem semicolon_not_mem_toInternal {name : String} (h : ';' ∉ name.toList) :
    ';' ∉ (ClassName.toInternal name).toList := by
  rw [ClassName.toInternal, String.toList_ofList, List.mem_map]
  rintro ⟨c, hc, hslashed⟩
  by_cases hdot : c = '.'
  · subst hdot
    exact absurd hslashed (by decide)
  · rw [ClassName.slashed, if_neg hdot] at hslashed
    exact h (hslashed ▸ hc)

theorem ofElement_spelling {letters : List Char} {name : String} (h : ';' ∉ name.toList)
    (hletters : ∀ letter, primitiveNames.lookup name = some letter → letter ∈ letters) :
    Spelling letters (ofElement name) := by
  rw [ofElement]
  split
  · next letter hlookup => exact .letter (hletters letter hlookup)
  · exact .object (semicolon_not_mem_toInternal h)

theorem mem_primitiveNames_of_lookup {name : String} {letter : Char}
    (h : primitiveNames.lookup name = some letter) : (name, letter) ∈ primitiveNames := by
  obtain ⟨before, after, hnames, -⟩ := List.lookup_eq_some_iff.1 h
  simp [hnames]

theorem ofReversed_spelling {cs : List Char} (h : ';' ∉ cs) :
    Spelling typeLetters (ofReversed cs) := by
  fun_induction ofReversed cs with
  | case1 component ih => exact .array (ih (by simpa using h))
  | case2 cs _ =>
    apply ofElement_spelling
    · simpa using h
    · intro letter hlookup
      have hletters : ∀ entry ∈ primitiveNames, entry.2 ∈ typeLetters := by decide
      exact hletters _ (mem_primitiveNames_of_lookup hlookup)

theorem ofSource_spelling {name : String} (h : ';' ∉ name.toList) :
    Spelling typeLetters (ofSource name).toList := by
  rw [ofSource, String.toList_ofList]
  exact ofReversed_spelling (by simpa using h)

theorem ofReversed_element {cs : List Char} (h : ¬ [']', '['] <+: cs) :
    ofReversed cs = ofElement (String.ofList cs.reverse) := by
  rw [ofReversed]
  rintro component rfl
  exact h ⟨component, rfl⟩

theorem SourceElement.ofSource_eq (element : SourceElement) :
    (ofSource element.text).toList = ofElement element.text := by
  have hreversed : ¬ [']', '['] <+: element.text.toList.reverse := by
    intro h
    exact element.no_dimension (by simpa using List.reverse_suffix.2 h)
  rw [ofSource, String.toList_ofList, ofReversed_element hreversed, List.reverse_reverse,
    String.ofList_toList]

theorem ofSource_array (component : String) :
    (ofSource (component ++ "[]")).toList = '[' :: (ofSource component).toList := by
  simp [ofSource, ofReversed]

theorem SourceType.spelling (type : SourceType) :
    Spelling primitiveLetters type.descriptor.toList := by
  induction type with
  | element element =>
    rw [SourceType.descriptor, SourceType.text, element.ofSource_eq]
    apply ofElement_spelling element.no_semicolon
    intro letter hlookup
    have hletters : ∀ entry ∈ primitiveNames, entry.1 ≠ "void" → entry.2 ∈ primitiveLetters := by
      decide
    exact hletters _ (mem_primitiveNames_of_lookup hlookup) element.ne_void
  | array component ih =>
    rw [SourceType.descriptor, SourceType.text, ofSource_array]
    exact .array ih

theorem takesExactly_iff {wanted : List String} {types : List (List Char)}
    (hwanted : ∀ name ∈ wanted, ';' ∉ name.toList)
    (htypes : ∀ cs ∈ types, Spelling typeLetters cs) (result : List Char) :
    takesExactly wanted (types.flatten ++ ')' :: result) = true ↔
      wanted.map (fun name => (ofSource name).toList) = types := by
  induction wanted generalizing types with
  | nil =>
    cases types with
    | nil => simp [takesExactly]
    | cons cs types =>
      have hhead : (cs ++ (types.flatten ++ ')' :: result)).head? ≠ some ')' := by
        intro h
        obtain ⟨tail, htail⟩ := List.head?_eq_some_iff.1 h
        exact (htypes cs (by simp)).ne_close htail
      simpa [takesExactly] using hhead
  | cons name wanted ih =>
    obtain ⟨hname, hwanted⟩ := List.forall_mem_cons.1 hwanted
    have hspelling := ofSource_spelling hname
    rw [takesExactly, List.map_cons]
    split
    · next rest hrest =>
      have happend := List.isPrefixOf?_eq_some_iff_append_eq.1 hrest
      cases types with
      -- No type is left, and no descriptor begins with a parenthesis.
      | nil => exact absurd happend hspelling.ne_close
      | cons cs types =>
        obtain ⟨hcs, hmore⟩ := List.forall_mem_cons.1 htypes
        rw [List.flatten_cons, List.append_assoc] at happend
        obtain ⟨rfl, rfl⟩ := hspelling.append_inj hcs happend
        rw [ih hwanted hmore, List.cons_inj_right]
    · next hnone =>
      constructor
      · intro h
        cases h
      · rintro rfl
        rw [List.flatten_cons, List.append_assoc,
          List.isPrefixOf?_eq_some_iff_append_eq.2 rfl] at hnone
        cases hnone

theorem parametersAre_iff {wanted : List String} {types : List (List Char)}
    (hwanted : ∀ name ∈ wanted, ';' ∉ name.toList)
    (htypes : ∀ cs ∈ types, Spelling typeLetters cs) {descriptor : String} {result : List Char}
    (hdescriptor : descriptor.toList = '(' :: (types.flatten ++ ')' :: result)) :
    parametersAre wanted descriptor = true ↔
      wanted.map (fun name => (ofSource name).toList) = types := by
  rw [parametersAre, hdescriptor]
  exact takesExactly_iff hwanted htypes result

theorem map_toList_inj {names others : List String} :
    names.map String.toList = others.map String.toList ↔ names = others :=
  (List.map_injective_iff.2 fun _ _ => String.toList_injective).eq_iff

section
variable (method : Method)

theorem holds_parameterCount (count : Nat) :
    { MethodCondition.any with parameterCount := some count }.holds method = true ↔
      count = method.parameters.length := by
  simp [MethodCondition.holds, MethodCondition.any, holdsIfAny]

theorem holds_parameters (wanted : List String) :
    { MethodCondition.any with parameters := some wanted }.holds method = true ↔
      parametersAre wanted method.descriptor = true := by
  simp [MethodCondition.holds, MethodCondition.any, holdsIfAny]

theorem holds_parameter (index : Nat) (name : String) :
    { MethodCondition.any with parameter := some ⟨index, name⟩ }.holds method = true ↔
      method.parameters[index]? = some (ofSource name) := by
  simp [MethodCondition.holds, MethodCondition.any, holdsIfAny]

end

/-- For a method whose parameters are written in source as `types`, the parameters read off the
descriptor, their number, and the conditions on all parameters and on a single one agree. -/
theorem source_types_agree (types : List SourceType) (result : String) (method : Method)
    (hdescriptor : method.descriptor =
      "(" ++ String.join (types.map SourceType.descriptor) ++ ")" ++ result) :
    method.parameters = types.map SourceType.descriptor ∧
      method.parameters.length = types.length ∧
      (∀ count, { MethodCondition.any with parameterCount := some count }.holds method = true ↔
        count = types.length) ∧
      (∀ wanted : List String, (∀ name ∈ wanted, ';' ∉ name.toList) →
        ({ MethodCondition.any with parameters := some wanted }.holds method = true ↔
          wanted.map ofSource = types.map SourceType.descriptor)) ∧
      (∀ index name, { MethodCondition.any with parameter := some ⟨index, name⟩ }.holds method =
          true ↔
        ∃ hindex : index < types.length, ofSource name = types[index].descriptor) := by
  let written := (types.map SourceType.descriptor).map String.toList
  have hspelling : ∀ cs ∈ written, Spelling primitiveLetters cs := by
    intro cs hcs
    obtain ⟨type, -, rfl⟩ : ∃ type ∈ types, type.descriptor.toList = cs := by
      simpa [written] using hcs
    exact type.spelling
  have hletters : method.descriptor.toList = '(' :: (written.flatten ++ ')' :: result.toList) := by
    simp [hdescriptor, written, String.toList_join, List.flatMap]
  have hparameters : method.parameters = types.map SourceType.descriptor := by
    rw [Method.parameters, parameters_append hspelling hletters]
    simp [written]
  have hlength : method.parameters.length = types.length := by rw [hparameters, List.length_map]
  refine ⟨hparameters, hlength, fun count => ?_, fun wanted hwanted => ?_, fun index name => ?_⟩
  · rw [holds_parameterCount, hlength]
  · have hwritten : wanted.map (fun name => (ofSource name).toList) =
        (wanted.map ofSource).map String.toList := by
      rw [List.map_map]
      rfl
    rw [holds_parameters,
      parametersAre_iff hwanted (fun cs hcs => (hspelling cs hcs).ofPrimitive) hletters, hwritten,
      map_toList_inj]
  · rw [holds_parameter, hparameters, List.getElem?_map, Option.map_eq_some_iff]
    constructor
    · rintro ⟨type, htype, heq⟩
      obtain ⟨hindex, rfl⟩ := List.getElem?_eq_some_iff.1 htype
      exact ⟨hindex, heq.symm⟩
    · rintro ⟨hindex, heq⟩
      exact ⟨types[index], List.getElem?_eq_getElem hindex, heq.symm⟩

def parenthesizedSource : SourceType :=
  .array (.element ⟨"a.b)c", by decide, by decide, by decide⟩)

def intSource : SourceType := .element ⟨"int", by decide, by decide, by decide⟩

theorem source_types_agree_parenthesized :
    let method : Method :=
      { access := ⟨1⟩, name := "m", descriptor := "([La/b)c;I)V", annotations := [] }
    method.parameters = ["[La/b)c;", "I"] ∧
      { MethodCondition.any with parameters := some ["a/b)c[]", "int"] }.holds method = true ∧
      { MethodCondition.any with parameters := some ["a/b)c[]", "int", "void"] }.holds method =
        false ∧
      { MethodCondition.any with parameter := some ⟨1, "int"⟩ }.holds method = true := by
  intro method
  obtain ⟨hparameters, -, -, hall, hone⟩ :=
    source_types_agree [parenthesizedSource, intSource] "V" method (by decide)
  refine ⟨hparameters.trans (by decide), (hall _ (by decide)).2 (by decide +kernel), ?_, ?_⟩
  · rw [← Bool.not_eq_true, hall _ (by decide)]
    decide +kernel
  · exact (hone 1 "int").2 ⟨by decide, by decide⟩

end ClassSieve.Descriptor
