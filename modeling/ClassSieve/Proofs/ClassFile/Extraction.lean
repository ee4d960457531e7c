import ClassSieve.Proofs.ClassFile.ClassLayout

/-!
# Extraction of outlines

A layout of a class file that can be read has an outline, and is read to it. Of attributes only the
types in tables of annotations matter, on methods and on the class, and only to a reader with
annotations of interest; layouts that are alike in the rest are read to the same outline.
-/
namespace ClassSieve.ClassFile
open ClassFile.Parser

/-- Whether the attribute has a name, and a table of annotations with types if it is named for
one. -/
def AttributeLayout.Readable (constants : List Constant) (item : AttributeLayout) : Prop :=
  ∃ raw, Constant.NamesRaw constants item.nameIndex raw ∧
    (raw = asciiBytes visibleAnnotations → ∃ annotations, item.Lists annotations ∧
      ∀ entry ∈ annotations, ∃ raw, Constant.NamesRaw constants entry.typeIndex raw)

def AttributesReadable (constants : List Constant) (interest : Interest)
    (attributes : List AttributeLayout) : Prop :=
  interest.isEmpty = false → ∀ item ∈ attributes, item.Readable constants

structure MemberLayout.Readable (constants : List Constant) (interest : Interest)
    (member : MemberLayout) : Prop where
  name : ∃ text, Constant.NamesText constants member.nameIndex text
  descriptor : ∃ text, Constant.NamesText constants member.descriptorIndex text
  attributes : AttributesReadable constants interest member.attributes

structure ClassLayout.Readable (layout : ClassLayout) (interest : Interest) (header : Header) :
    Prop where
  fits : layout.Fits
  header : layout.header.Describes header
  fields : ∀ field ∈ layout.fields, field.Readable layout.header.constants Interest.empty
  methods : ∀ method ∈ layout.methods, method.Readable layout.header.constants interest
  attributes : AttributesReadable layout.header.constants interest layout.attributes

section Existence
variable {constants : List Constant} {interest : Interest}

theorem exists_forall₂ {α β : Type} {R : α → β → Prop} {items : List α}
    (h : ∀ item ∈ items, ∃ found, R item found) : ∃ found, List.Forall₂ R items found := by
  induction items with
  | nil => exact ⟨[], .nil⟩
  | cons item rest ih =>
    rw [List.forall_mem_cons] at h
    obtain ⟨first, hfirst⟩ := h.1
    obtain ⟨found, hfound⟩ := ih h.2
    exact ⟨first :: found, .cons hfirst hfound⟩

theorem exists_records {types : List UInt16}
    (h : ∀ index ∈ types, ∃ raw, Constant.NamesRaw constants index raw) :
    ∃ names, Records constants interest types names := by
  induction types with
  | nil => exact ⟨[], .nil⟩
  | cons index types ih =>
    rw [List.forall_mem_cons] at h
    obtain ⟨raw, hraw⟩ := h.1
    obtain ⟨names, hnames⟩ := ih h.2
    by_cases hrecorded : ∃ name ∈ interest.names, annotationKey name = raw
    · obtain ⟨name, hname, rfl⟩ := hrecorded
      exact ⟨name :: names, .recorded hname hraw hnames⟩
    · exact ⟨names, .passed (fun name hname hkey => hrecorded ⟨name, hname, hkey⟩) hraw hnames⟩

theorem AttributeLayout.Readable.exists_tells {item : AttributeLayout}
    (h : item.Readable constants) : ∃ names, item.Tells constants interest names := by
  obtain ⟨raw, hraw, htable⟩ := h
  by_cases hvisible : raw = asciiBytes visibleAnnotations
  · subst hvisible
    obtain ⟨annotations, hlists, htypes⟩ := htable rfl
    obtain ⟨names, hnames⟩ : ∃ names, Records constants interest _ names :=
      exists_records (List.forall_mem_map.2 htypes)
    exact ⟨names, .table hraw hlists hnames⟩
  · exact ⟨[], .plain hraw hvisible⟩

theorem exists_annotates {attributes : List AttributeLayout}
    (h : AttributesReadable constants interest attributes) :
    ∃ names, Annotates constants interest attributes names := by
  cases hinterest : interest.isEmpty with
  | true => exact ⟨[], fun _ => rfl, fun h => absurd (hinterest.symm.trans h) Bool.noConfusion⟩
  | false =>
    have htells : ∀ item ∈ attributes, ∃ names, item.Tells constants interest names :=
      fun item hitem => (h hinterest item hitem).exists_tells
    obtain ⟨found, hfound⟩ := exists_forall₂ htells
    exact ⟨found.flatten, fun h => absurd (h.symm.trans hinterest) Bool.noConfusion,
      fun _ => ⟨found, hfound, rfl⟩⟩

theorem MemberLayout.Readable.exists_isMember {member : MemberLayout}
    (h : member.Readable constants interest) : ∃ name descriptor annotations,
      IsMember constants interest member member.access name descriptor annotations := by
  obtain ⟨name, hname⟩ := h.name
  obtain ⟨descriptor, hdescriptor⟩ := h.descriptor
  obtain ⟨annotations, hannotations⟩ := exists_annotates h.attributes
  exact ⟨name, descriptor, annotations, rfl, hname, hdescriptor, hannotations⟩

theorem MemberLayout.Readable.exists_field {member : MemberLayout}
    (h : member.Readable constants Interest.empty) : ∃ field, IsField constants member field := by
  obtain ⟨name, descriptor, annotations, hmember⟩ := h.exists_isMember
  obtain rfl : annotations = [] := hmember.annotations.unasked rfl
  exact ⟨⟨member.access, name, descriptor⟩, hmember⟩

theorem MemberLayout.Readable.exists_method {member : MemberLayout}
    (h : member.Readable constants interest) :
    ∃ method, IsMethod constants interest member method := by
  obtain ⟨name, descriptor, annotations, hmember⟩ := h.exists_isMember
  exact ⟨⟨member.access, name, descriptor, annotations⟩, hmember⟩

theorem ClassLayout.Readable.exists_describes {layout : ClassLayout} {header : Header}
    (h : layout.Readable interest header) :
    ∃ outline, outline.header = header ∧ layout.Describes interest outline := by
  obtain ⟨fields, hfields⟩ := exists_forall₂ fun field hfield =>
    (h.fields field hfield).exists_field
  obtain ⟨methods, hmethods⟩ := exists_forall₂ fun method hmethod =>
    (h.methods method hmethod).exists_method
  obtain ⟨annotations, hannotations⟩ := exists_annotates h.attributes
  exact ⟨⟨header, fields, methods, annotations⟩, rfl, h.header, hfields, hmethods, hannotations⟩

end Existence

/-! ### Bytes that do not matter -/

/-- Whether the attributes have one name and, where it is that of tables of annotations, begin with
tables of the same types. -/
structure AttributeLayout.Alike (constants : List Constant) (item other : AttributeLayout) :
    Prop where
  name : other.nameIndex = item.nameIndex
  tables : Constant.NamesRaw constants item.nameIndex (asciiBytes visibleAnnotations) →
    ∃ annotations others, item.Lists annotations ∧ other.Lists others ∧
      others.map (·.typeIndex) = annotations.map (·.typeIndex)

def AttributesAlike (constants : List Constant) (interest : Interest)
    (attributes others : List AttributeLayout) : Prop :=
  interest.isEmpty = false → List.Forall₂ (AttributeLayout.Alike constants) attributes others

structure MemberLayout.Alike (constants : List Constant) (interest : Interest)
    (member other : MemberLayout) : Prop where
  access : other.access = member.access
  name : other.nameIndex = member.nameIndex
  descriptor : other.descriptorIndex = member.descriptorIndex
  attributes : AttributesAlike constants interest member.attributes other.attributes

/-- Whether the layouts differ only in what a reader with annotations of interest does not look
at. -/
structure ClassLayout.Alike (interest : Interest) (layout other : ClassLayout) : Prop where
  header : other.header = layout.header
  fields : List.Forall₂ (MemberLayout.Alike layout.header.constants Interest.empty) layout.fields
    other.fields
  methods : List.Forall₂ (MemberLayout.Alike layout.header.constants interest) layout.methods
    other.methods
  attributes : AttributesAlike layout.header.constants interest layout.attributes other.attributes

section Likeness
variable {constants : List Constant} {interest : Interest}

def AnnotationTable.readTypes : Parser (List UInt16) :=
  counted do
    let index ← u2
    skipPairs levels
    return index

theorem AttributeLayout.Lists.readTypes {item : AttributeLayout}
    {annotations : List AnnotationLayout} (h : item.Lists annotations) :
    ∃ last, AnnotationTable.readTypes ⟨0, item.body, .truncated⟩ =
      .ok (annotations.map (·.typeIndex), last) := by
  obtain ⟨hcount, hlegal, extra, hbody⟩ := h
  have hread : Reads AnnotationTable.readTypes 0 (encodeCounted AnnotationLayout.encode annotations)
      (annotations.map (·.typeIndex)) := by
    refine reads_counted hcount (List.forall₂_map_right_iff.2 (List.forall₂_same.2 ?_))
    exact fun entry hentry pos => Reads.bind (.u2 _)
      (AnnotationTable.reads_pairs_of_legal (hlegal entry hentry)).map
  rw [hbody]
  exact ⟨_, hread extra .truncated⟩

theorem AttributeLayout.Lists.types_eq {item : AttributeLayout}
    {annotations others : List AnnotationLayout} (h : item.Lists annotations)
    (hothers : item.Lists others) :
    annotations.map (·.typeIndex) = others.map (·.typeIndex) := by
  -- One reader takes the types of either table from the same bytes.
  obtain ⟨last, hlast⟩ := h.readTypes
  obtain ⟨last', hlast'⟩ := hothers.readTypes
  exact congrArg Prod.fst (Except.ok.inj (hlast.symm.trans hlast'))

theorem AttributeLayout.Tells.of_alike {item other : AttributeLayout} {names : List String}
    (h : item.Tells constants interest names) (halike : item.Alike constants other) :
    other.Tells constants interest names := by
  cases h with
  | plain hname hother =>
    rw [← halike.name] at hname
    exact .plain hname hother
  | table hname hlists hrecords =>
    obtain ⟨annotations, others, hannotations, hothers, htypes⟩ := halike.tables hname
    -- The table that was recorded need not be the one that likeness is about.
    rw [hlists.types_eq hannotations, ← htypes] at hrecords
    rw [← halike.name] at hname
    exact .table hname hothers hrecords

theorem Annotates.of_alike {attributes others : List AttributeLayout} {names : List String}
    (h : Annotates constants interest attributes names)
    (halike : AttributesAlike constants interest attributes others) :
    Annotates constants interest others names :=
  ⟨h.unasked, fun hasked => (h.asked hasked).transfer (halike hasked) fun _ _ _ halike htells =>
    htells.of_alike halike⟩

theorem IsMember.of_alike {member other : MemberLayout} {access : AccessFlags}
    {name descriptor : String} {annotations : List String}
    (h : IsMember constants interest member access name descriptor annotations)
    (halike : member.Alike constants interest other) :
    IsMember constants interest other access name descriptor annotations := by
  obtain ⟨haccess, hname, hdescriptor, hattributes⟩ := halike
  refine ⟨h.access.trans haccess.symm, ?_, ?_, h.annotations.of_alike hattributes⟩
  · exact hname ▸ h.name
  · exact hdescriptor ▸ h.descriptor

theorem ClassLayout.Describes.of_alike {layout other : ClassLayout} {outline : Outline}
    (h : layout.Describes interest outline) (halike : ClassLayout.Alike interest layout other) :
    other.Describes interest outline := by
  obtain ⟨header, fields, methods, attributes⟩ := other
  obtain ⟨rfl, hfields, hmethods, hattributes⟩ := halike
  refine ⟨h.header, forall₂_transfer h.fields hfields ?_, forall₂_transfer h.methods hmethods ?_,
    h.annotations.of_alike hattributes⟩
  · exact fun _ _ _ halike hfield => IsMember.of_alike hfield halike
  · exact fun _ _ _ halike hmethod => IsMember.of_alike hmethod halike

end Likeness

namespace ClassLayout

/-- A layout that can be read is read to an outline that it means, with all members in their order,
and so is each layout like it. -/
theorem parseOutline_encode (layout : ClassLayout) (interest : Interest) (header : Header)
    (h : layout.Readable interest header) : ∃ outline, outline.header = header ∧
      layout.Describes interest outline ∧
      (∀ rest, parseOutline (layout.encode ++ rest) interest = .ok outline) ∧
      ∀ other, Alike interest layout other → other.Fits →
        ∀ rest, parseOutline (other.encode ++ rest) interest = .ok outline := by
  obtain ⟨outline, hheader, hdescribes⟩ := h.exists_describes
  refine ⟨outline, hheader, hdescribes, parseOutline_of_describes hdescribes h.fits, ?_⟩
  exact fun other halike hfits => parseOutline_of_describes (hdescribes.of_alike halike) hfits

def sampleConstants : List Constant :=
  [.text (asciiBytes "java/lang/Object"), .classRef 1, .text (asciiBytes "m"),
    .text (asciiBytes "()V"), .text (asciiBytes visibleAnnotations), .text (asciiBytes "La/X;")]

def sampleAnnotations : List AnnotationLayout := [⟨6, [(3, .nested 4 [(3, .array [])])]⟩, ⟨1, []⟩]

def sampleTable (extra : UInt8) : AttributeLayout :=
  ⟨5, encodeCounted AnnotationLayout.encode sampleAnnotations ++ [extra]⟩

def sampleFront : HeaderLayout := ⟨0, 52, sampleConstants, ⟨0x21⟩, 2, 0, []⟩

def sample (hidden extra : UInt8) : ClassLayout where
  header := sampleFront
  fields := [⟨⟨2⟩, 3, 6, [⟨0, [hidden]⟩]⟩]
  methods := [⟨⟨1⟩, 3, 4, [⟨3, [hidden]⟩, sampleTable extra]⟩]
  attributes := [sampleTable extra]

def sampleHeader : Header := ⟨0, 52, ⟨0x21⟩, "java/lang/Object", none, []⟩

theorem namesRaw_sample (n : Nat) {raw : Bytes} {index : UInt16}
    (h : sampleConstants = sampleConstants.take n ++ .text raw :: sampleConstants.drop (n + 1))
    (hindex : index.toNat = 1 + Constant.slotsOf (sampleConstants.take n)) :
    Constant.NamesRaw sampleConstants index raw :=
  ⟨_, _, h, hindex⟩

theorem describes_sampleFront : sampleFront.Describes sampleHeader where
  minor := rfl
  major := rfl
  oldest := by decide
  newest := by decide
  legal := by
    have hmajor : (45 : UInt16) ≤ 52 := by decide
    refine List.forall_mem_cons.2 ⟨Constant.legal_text hmajor (by decide +kernel), ?_⟩
    refine List.forall_mem_cons.2 ⟨Constant.legal_classRef 1 hmajor, ?_⟩
    refine List.forall_mem_cons.2 ⟨Constant.legal_text hmajor (by decide +kernel), ?_⟩
    refine List.forall_mem_cons.2 ⟨Constant.legal_text hmajor (by decide +kernel), ?_⟩
    refine List.forall_mem_cons.2 ⟨Constant.legal_text hmajor (by decide +kernel), ?_⟩
    exact List.forall_mem_singleton.2 (Constant.legal_text hmajor (by decide +kernel))
  slots := by decide
  access := rfl
  name := ⟨1, ⟨[_], _, rfl, rfl⟩, _, namesRaw_sample 0 rfl rfl, by decide +kernel⟩
  superName := fun h => absurd rfl h
  noSuper := fun _ => ⟨rfl, .inl rfl⟩
  interfaceCount := Nat.zero_le _
  interfaces := .nil

theorem fits_sample (hidden extra : UInt8) : (sample hidden extra).Fits := by
  have hhidden : [hidden].length < 0x100000000 := by simp
  have htable : (sampleTable extra).body.length < 0x100000000 := by
    rw [sampleTable, List.length_append, List.length_singleton]
    decide
  exact {
    fieldCount := by simp [sample]
    fields := List.forall_mem_singleton.2 ⟨by simp, List.forall_mem_singleton.2 hhidden⟩
    methodCount := by simp [sample]
    methods := List.forall_mem_singleton.2
      ⟨by simp, List.forall_mem_cons.2 ⟨hhidden, List.forall_mem_singleton.2 htable⟩⟩
    attributes := ⟨by simp [sample], List.forall_mem_singleton.2 htable⟩ }

theorem lists_sampleTable (extra : UInt8) : (sampleTable extra).Lists sampleAnnotations where
  count := by decide
  legal := by
    refine List.forall_mem_cons.2 ⟨⟨by decide, ?_, ?_⟩,
      List.forall_mem_singleton.2 ⟨by decide, trivial, fun _ h => by cases h⟩⟩
    · simp [ElementValue.LegalPairs, ElementValue.Legal, ElementValue.LegalItems]
    · simp [ElementValue.depth, ElementValue.depthOfPairs, ElementValue.depthOfItems]
  body := ⟨[extra], rfl⟩

theorem readable_sampleTable (extra : UInt8) : (sampleTable extra).Readable sampleConstants := by
  refine ⟨_, namesRaw_sample 4 rfl rfl, fun _ => ⟨_, lists_sampleTable extra, ?_⟩⟩
  exact List.forall_mem_cons.2 ⟨⟨_, namesRaw_sample 5 rfl rfl⟩,
    List.forall_mem_singleton.2 ⟨_, namesRaw_sample 0 rfl rfl⟩⟩

theorem readable_sample : (sample 1 2).Readable ⟨["a/X"]⟩ sampleHeader where
  fits := fits_sample 1 2
  header := describes_sampleFront
  fields := List.forall_mem_singleton.2
    ⟨⟨"m", _, namesRaw_sample 2 rfl rfl, by decide +kernel⟩,
      ⟨"La/X;", _, namesRaw_sample 5 rfl rfl, by decide +kernel⟩, fun h => by cases h⟩
  methods := List.forall_mem_singleton.2
    ⟨⟨"m", _, namesRaw_sample 2 rfl rfl, by decide +kernel⟩,
      ⟨"()V", _, namesRaw_sample 3 rfl rfl, by decide +kernel⟩,
      fun _ => List.forall_mem_cons.2
        ⟨⟨_, namesRaw_sample 2 rfl rfl, fun h => absurd h (by decide)⟩,
          List.forall_mem_singleton.2 (readable_sampleTable 2)⟩⟩
  attributes := fun _ => List.forall_mem_singleton.2 (readable_sampleTable 2)

theorem alike_sampleTable (extra other : UInt8) :
    AttributeLayout.Alike sampleConstants (sampleTable extra) (sampleTable other) :=
  ⟨rfl, fun _ => ⟨_, _, lists_sampleTable extra, lists_sampleTable other, rfl⟩⟩

theorem alike_sample : Alike ⟨["a/X"]⟩ (sample 1 2) (sample 3 4) where
  header := rfl
  fields := .cons ⟨rfl, rfl, rfl, fun h => by cases h⟩ .nil
  methods := by
    have hname : Constant.NamesRaw sampleConstants 3 (asciiBytes "m") := namesRaw_sample 2 rfl rfl
    have hplain : AttributeLayout.Alike sampleConstants ⟨3, [1]⟩ ⟨3, [3]⟩ :=
      ⟨rfl, fun hvisible => absurd (Pool.namesRaw_unique hname hvisible) (by decide)⟩
    exact .cons ⟨rfl, rfl, rfl, fun _ => .cons hplain (.cons (alike_sampleTable 2 4) .nil)⟩ .nil
  attributes := fun _ => .cons (alike_sampleTable 2 4) .nil

theorem parseOutline_encode_sample : (sample 1 2).Readable ⟨["a/X"]⟩ sampleHeader ∧
    Alike ⟨["a/X"]⟩ (sample 1 2) (sample 3 4) ∧
    parseOutline ((sample 3 4).encode ++ [5]) ⟨["a/X"]⟩ =
      .ok ⟨sampleHeader, [⟨⟨2⟩, "m", "La/X;"⟩], [⟨⟨1⟩, "m", "()V", ["a/X"]⟩], ["a/X"]⟩ := by
  obtain ⟨outline, -, -, hparse, hothers⟩ :=
    parseOutline_encode (sample 1 2) ⟨["a/X"]⟩ sampleHeader readable_sample
  refine ⟨readable_sample, alike_sample, ?_⟩
  rw [hothers (sample 3 4) alike_sample (fits_sample 3 4), ← hparse []]
  decide +kernel

end ClassLayout

end ClassSieve.ClassFile
