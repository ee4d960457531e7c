import ClassSieve.Proofs.ClassFile.AttributeReading
import ClassSieve.Proofs.ClassFile.ElementValues
import ClassSieve.Proofs.ClassFile.HeaderGrammar
import ClassSieve.Proofs.ClassFile.Restriction

/-!
# Class files by their layout

A `ClassLayout` is a class file as its parts are written: a header, members and attributes, where an
attribute is an index for its name and a body of any bytes. `Describes` says which outline a layout
means to a reader with annotations of interest, and a layout is read to the outline that it means.
-/
namespace ClassSieve.ClassFile
open ClassFile.Parser

structure AnnotationLayout where
  typeIndex : UInt16
  pairs : List (UInt16 × ElementValue)

namespace AnnotationLayout

def encode (entry : AnnotationLayout) : Bytes :=
  encodeU2 entry.typeIndex ++
    (encodeU2 (UInt16.ofNat entry.pairs.length) ++ ElementValue.encodePairs entry.pairs)

structure Legal (entry : AnnotationLayout) : Prop where
  count : entry.pairs.length ≤ 65535
  values : ElementValue.LegalPairs entry.pairs
  depth : ∀ pair ∈ entry.pairs, pair.2.depth ≤ 32

end AnnotationLayout

structure AttributeLayout where
  nameIndex : UInt16
  body : Bytes

namespace AttributeLayout

def encode (item : AttributeLayout) : Bytes :=
  encodeU2 item.nameIndex ++ encodeU4 (UInt32.ofNat item.body.length) ++ item.body

/-- Whether the body begins with a complete table of the annotations. -/
structure Lists (item : AttributeLayout) (annotations : List AnnotationLayout) : Prop where
  count : annotations.length ≤ 65535
  legal : ∀ entry ∈ annotations, entry.Legal
  body : ∃ extra, item.body = encodeCounted AnnotationLayout.encode annotations ++ extra

end AttributeLayout

structure MemberLayout where
  access : AccessFlags
  nameIndex : UInt16
  descriptorIndex : UInt16
  attributes : List AttributeLayout

def MemberLayout.encode (member : MemberLayout) : Bytes :=
  encodeU2 member.access.bits ++ (encodeU2 member.nameIndex ++ (encodeU2 member.descriptorIndex
    ++ encodeCounted AttributeLayout.encode member.attributes))

structure ClassLayout where
  header : HeaderLayout
  fields : List MemberLayout
  methods : List MemberLayout
  attributes : List AttributeLayout

namespace ClassLayout

def encodeMembers (layout : ClassLayout) : Bytes :=
  encodeCounted MemberLayout.encode layout.fields
    ++ (encodeCounted MemberLayout.encode layout.methods
    ++ encodeCounted AttributeLayout.encode layout.attributes)

def encode (layout : ClassLayout) : Bytes := layout.header.encode ++ layout.encodeMembers

end ClassLayout

structure AttributesFit (attributes : List AttributeLayout) : Prop where
  count : attributes.length ≤ 65535
  bodies : ∀ item ∈ attributes, item.body.length < 0x100000000

structure ClassLayout.Fits (layout : ClassLayout) : Prop where
  fieldCount : layout.fields.length ≤ 65535
  fields : ∀ field ∈ layout.fields, AttributesFit field.attributes
  methodCount : layout.methods.length ≤ 65535
  methods : ∀ method ∈ layout.methods, AttributesFit method.attributes
  attributes : AttributesFit layout.attributes

section Meaning
variable (constants : List Constant) (interest : Interest)

inductive Records : List UInt16 → List String → Prop where
  | nil : Records [] []
  | recorded {index types name names} (hname : name ∈ interest.names)
      (hindex : Constant.NamesRaw constants index (annotationKey name))
      (hrest : Records types names) : Records (index :: types) (name :: names)
  | passed {index types raw names} (hother : ∀ name ∈ interest.names, annotationKey name ≠ raw)
      (hindex : Constant.NamesRaw constants index raw)
      (hrest : Records types names) : Records (index :: types) names

/-- What a reader with annotations of interest records of an attribute. -/
inductive AttributeLayout.Tells (item : AttributeLayout) : List String → Prop where
  | plain {raw} (hname : Constant.NamesRaw constants item.nameIndex raw)
      (hother : raw ≠ asciiBytes visibleAnnotations) : Tells item []
  | table {annotations names}
      (hname : Constant.NamesRaw constants item.nameIndex (asciiBytes visibleAnnotations))
      (hlists : item.Lists annotations)
      (hrecords : Records constants interest (annotations.map (·.typeIndex)) names) :
      Tells item names

/-- What is recorded of attributes; their names count only when annotations are of interest. -/
structure Annotates (attributes : List AttributeLayout) (names : List String) : Prop where
  unasked : interest.isEmpty = true → names = []
  asked : interest.isEmpty = false →
    Gathers (AttributeLayout.Tells constants interest) attributes names

structure IsMember (member : MemberLayout) (access : AccessFlags) (name descriptor : String)
    (annotations : List String) : Prop where
  access : access = member.access
  name : Constant.NamesText constants member.nameIndex name
  descriptor : Constant.NamesText constants member.descriptorIndex descriptor
  annotations : Annotates constants interest member.attributes annotations

/-- Of fields no annotations are recorded. -/
def IsField (member : MemberLayout) (field : Field) : Prop :=
  IsMember constants Interest.empty member field.access field.name field.descriptor []

def IsMethod (member : MemberLayout) (method : Method) : Prop :=
  IsMember constants interest member method.access method.name method.descriptor method.annotations

end Meaning

structure ClassLayout.Describes (layout : ClassLayout) (interest : Interest) (outline : Outline) :
    Prop where
  header : layout.header.Describes outline.header
  fields : List.Forall₂ (IsField layout.header.constants) layout.fields outline.fields
  methods : List.Forall₂ (IsMethod layout.header.constants interest) layout.methods outline.methods
  annotations : Annotates layout.header.constants interest layout.attributes outline.annotations

/-! ### Reading a layout -/

section Reading
variable {constants : List Constant} {interest : Interest} {start pos : Nat}

theorem ElementValue.depthOfPairs_le {pairs : List (UInt16 × ElementValue)} {n : Nat}
    (h : ∀ pair ∈ pairs, pair.2.depth ≤ n) : depthOfPairs pairs ≤ n + 1 := by
  induction pairs with
  | nil => exact Nat.zero_le _
  | cons pair rest ih =>
    rw [List.forall_mem_cons] at h
    exact Nat.max_le.2 ⟨Nat.succ_le_succ h.1, ih h.2⟩

namespace AnnotationTable

theorem reads_pairs_of_legal {entry : AnnotationLayout} (h : entry.Legal) :
    Reads (skipPairs levels) pos (encodeU2 (UInt16.ofNat entry.pairs.length)
      ++ ElementValue.encodePairs entry.pairs) () :=
  reads_skipPairs h.values h.count (ElementValue.depthOfPairs_le h.depth)

theorem reads_readEntry {entry : AnnotationLayout} {raw : Bytes} (h : entry.Legal)
    (hraw : Constant.NamesRaw constants entry.typeIndex raw) :
    Reads (readEntry (Pool.ofConstants start constants) interest) pos entry.encode
      (interest.find? raw) := by
  obtain ⟨first, hfirst⟩ := (Pool.holds_of_at hraw start).rawText
  exact .position (Reads.bind (.u2 _) (.lift (hfirst _) (reads_pairs_of_legal h).map))

end AnnotationTable

theorem Records.exists_found {types : List UInt16} {names : List String}
    (h : Records constants interest types names) :
    ∃ found : List (Option String), found.filterMap id = names ∧ List.Forall₂ (fun index found =>
      ∃ raw, Constant.NamesRaw constants index raw ∧ interest.find? raw = found) types found := by
  induction h with
  | nil => exact ⟨[], rfl, .nil⟩
  | @recorded index types name names hname hindex _ ih =>
    obtain ⟨found, rfl, hfound⟩ := ih
    have hfind := Interest.find?_eq_some_iff.2 ⟨hname, rfl⟩
    exact ⟨some name :: found, rfl, .cons ⟨_, hindex, hfind⟩ hfound⟩
  | @passed index types raw names hother hindex _ ih =>
    obtain ⟨found, rfl, hfound⟩ := ih
    have hfind : interest.find? raw = none := Option.eq_none_iff_forall_ne_some.2 fun name hname =>
      hother name (Interest.find?_eq_some_iff.1 hname).1 (Interest.find?_eq_some_iff.1 hname).2
    exact ⟨none :: found, rfl, .cons ⟨_, hindex, hfind⟩ hfound⟩

theorem reads_table {annotations : List AnnotationLayout} {names : List String}
    (hcount : annotations.length ≤ 65535) (hlegal : ∀ entry ∈ annotations, entry.Legal)
    (hrecords : Records constants interest (annotations.map (·.typeIndex)) names) :
    Reads (AnnotationTable.read (Pool.ofConstants start constants) interest) pos
      (encodeCounted AnnotationLayout.encode annotations) names := by
  obtain ⟨found, rfl, hfound⟩ := hrecords.exists_found
  rw [List.forall₂_map_left_iff] at hfound
  refine (reads_counted hcount ?_).map
  refine ((List.forall₂_and_left _ _).2 ⟨hlegal, hfound⟩).imp ?_
  rintro entry _ ⟨hentry, raw, hraw, rfl⟩ pos
  exact AnnotationTable.reads_readEntry hentry hraw

namespace AttributeLayout
variable {item : AttributeLayout} {names : List String}

theorem reads_unasked (hempty : interest.isEmpty = true)
    (hlength : item.body.length < 0x100000000) :
    Reads (Outline.readAttribute (Pool.ofConstants start constants) interest) pos item.encode
      [] :=
  Outline.reads_attribute hlength (fun _ => rfl) fun hasked =>
    absurd (hempty.symm.trans hasked) Bool.noConfusion

theorem Tells.reads (h : item.Tells constants interest names)
    (hasked : interest.isEmpty = false) (hlength : item.body.length < 0x100000000) :
    Reads (Outline.readAttribute (Pool.ofConstants start constants) interest) pos item.encode
      names := by
  refine Outline.reads_attribute hlength
    (fun hempty => absurd (hempty.symm.trans hasked) Bool.noConfusion) fun _ => ?_
  cases h with
  | plain hname hother =>
    obtain ⟨first, hraw⟩ := (Pool.holds_of_at hname start).rawText
    exact ⟨_, first, hraw, fun hvisible => absurd hvisible hother, fun _ => rfl⟩
  | table hname hlists hrecords =>
    obtain ⟨first, hraw⟩ := (Pool.holds_of_at hname start).rawText
    obtain ⟨hcount, hlegal, extra, hbody⟩ := hlists
    exact ⟨_, first, hraw, fun _ => ⟨_, extra, hbody, fun _ => reads_table hcount hlegal hrecords⟩,
      fun hother => absurd rfl hother⟩

end AttributeLayout

theorem reads_attributes {attributes : List AttributeLayout} {names : List String}
    (hfit : AttributesFit attributes) (h : Annotates constants interest attributes names) :
    Reads (Outline.readAttributes (Pool.ofConstants start constants) interest) pos
      (encodeCounted AttributeLayout.encode attributes) names := by
  cases hinterest : interest.isEmpty with
  | true =>
    -- The attributes are still skipped one by one, each with nothing found.
    have hnames : names = (attributes.map fun _ => []).flatten := by simp [h.unasked hinterest]
    rw [hnames]
    refine (reads_counted hfit.count (List.forall₂_map_right_iff.2 (List.forall₂_same.2 ?_))).map
    exact fun item hitem _ => item.reads_unasked hinterest (hfit.bodies item hitem)
  | false =>
    obtain ⟨found, hfound, rfl⟩ := h.asked hinterest
    refine (reads_counted hfit.count ?_).map
    refine ((List.forall₂_and_left _ _).2 ⟨hfit.bodies, hfound⟩).imp ?_
    exact fun item found hitem _ => hitem.2.reads hinterest hitem.1

theorem reads_member {α : Type} {member : MemberLayout} {access : AccessFlags}
    {name descriptor : String} {annotations : List String}
    (h : IsMember constants interest member access name descriptor annotations)
    (hfit : AttributesFit member.attributes)
    (result : AccessFlags → String → String → List String → α) :
    Reads (do
      let access ← u2
      let name ← Outline.readText (Pool.ofConstants start constants)
      let descriptor ← Outline.readText (Pool.ofConstants start constants)
      let annotations ← Outline.readAttributes (Pool.ofConstants start constants) interest
      return result ⟨access⟩ name descriptor annotations) pos member.encode
        (result access name descriptor annotations) := by
  obtain ⟨rfl, hname, hdescriptor, hannotations⟩ := h
  refine Reads.bind (.u2 member.access.bits) ?_
  refine Reads.bind (Outline.reads_readText fun _ => Pool.text_eq_ok.2 hname) ?_
  refine Reads.bind (Outline.reads_readText fun _ => Pool.text_eq_ok.2 hdescriptor) ?_
  exact (reads_attributes hfit hannotations).map

theorem reads_field {member : MemberLayout} {field : Field} (h : IsField constants member field)
    (hfit : AttributesFit member.attributes) :
    Reads (Outline.readField (Pool.ofConstants start constants)) pos member.encode field :=
  reads_member h hfit fun access name descriptor _ => Field.mk access name descriptor

theorem reads_method {member : MemberLayout} {method : Method}
    (h : IsMethod constants interest member method) (hfit : AttributesFit member.attributes) :
    Reads (Outline.readMethod (Pool.ofConstants start constants) interest) pos member.encode
      method :=
  reads_member h hfit Method.mk

end Reading

namespace ClassLayout
variable {layout : ClassLayout} {interest : Interest} {outline : Outline}

theorem reads_encodeMembers (h : layout.Describes interest outline) (hfits : layout.Fits)
    (start pos : Nat) :
    Reads (Outline.read (Pool.ofConstants start layout.header.constants) outline.header interest)
      pos layout.encodeMembers outline := by
  have hfields := (List.forall₂_and_left _ _).2 ⟨hfits.fields, h.fields⟩
  have hmethods := (List.forall₂_and_left _ _).2 ⟨hfits.methods, h.methods⟩
  refine Reads.bind (reads_counted hfits.fieldCount ?_) (Reads.bind
    (reads_counted hfits.methodCount ?_) (reads_attributes hfits.attributes h.annotations).map)
  · exact hfields.imp fun _ _ hfield _ => reads_field hfield.2 hfield.1
  · exact hmethods.imp fun _ _ hmethod _ => reads_method hmethod.2 hmethod.1

theorem parseOutline_of_describes (h : layout.Describes interest outline) (hfits : layout.Fits)
    (rest : Bytes) : parseOutline (layout.encode ++ rest) interest = .ok outline := by
  have hheader := Header.reads_read h.header (layout.encodeMembers ++ rest) .truncated
  rw [Nat.zero_add] at hheader
  rw [encode, List.append_assoc]
  exact parseOutline_eq_ok.2
    ⟨_, _, _, _, hheader, reads_encodeMembers h hfits _ _ rest .truncated⟩

end ClassLayout

end ClassSieve.ClassFile
