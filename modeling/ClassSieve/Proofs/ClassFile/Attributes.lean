import ClassSieve.ClassFile.Draft
import ClassSieve.Proofs.ClassFile.AttributeReading
import ClassSieve.Proofs.ClassFile.ElementValues
import ClassSieve.Proofs.ClassFile.PoolWriting
import ClassSieve.Proofs.ClassFile.Restriction

/-!
# Attributes of a draft

`Outline.Finds` says what a reader finds in one attribute: the names of interest in a table of
annotations, and nothing in any other. The attributes that a draft writes are read to just that.
-/
namespace ClassSieve.ClassFile
open ClassFile.Parser ClassFile.PoolWriter
open Text (ModifiedUtf8.encode)

def TextFits (text : String) : Prop := (ModifiedUtf8.encode text).length ≤ 65535

instance (text : String) : Decidable (TextFits text) := inferInstanceAs (Decidable (_ ≤ _))

structure AnnotationsFit (names : List String) : Prop where
  count : names.length ≤ 65535
  names : ∀ name ∈ names, TextFits ("L" ++ name ++ ";")

theorem Interest.find?_annotationKey (interest : Interest) (name : String) :
    interest.find? (annotationKey name) =
      (some name).filter fun name => interest.names.contains name := by
  apply Option.ext
  intro found
  rw [find?_eq_some_iff, Option.filter_eq_some_iff, List.contains_iff_mem, Option.some.injEq]
  constructor
  · exact fun hfound => ⟨(annotationKey_injective hfound.2).symm, hfound.1⟩
  · rintro ⟨rfl, hname⟩
    exact ⟨hname, rfl⟩

namespace Outline
variable {pool : Pool} {interest : Interest} {index : UInt16} {name : String} {body : Bytes}
  {found : List String} {pos : Nat}

structure Finds (pool : Pool) (interest : Interest) (item : String × Bytes)
    (found : List String) : Prop where
  length : item.2.length < 0x100000000
  table : item.1 = visibleAnnotations →
    ∀ pos, Reads (AnnotationTable.read pool interest) pos item.2 found
  plain : item.1 ≠ visibleAnnotations ∨ interest.isEmpty = true → found = []

theorem reads_readAttribute (hname : pool.HoldsText index name)
    (h : Finds pool interest (name, body) found) :
    Reads (readAttribute pool interest) pos
      (encodeU2 index ++ encodeU4 (UInt32.ofNat body.length) ++ body) found := by
  obtain ⟨start, hraw⟩ := Pool.Holds.rawText hname
  have hvisible : asciiBytes visibleAnnotations = ModifiedUtf8.encode visibleAnnotations := by
    decide +kernel
  refine reads_attribute h.length (fun hempty => h.plain (.inr hempty)) fun _ =>
    ⟨_, start, hraw, fun htable => ?_, fun hplain => h.plain (.inl fun heq => ?_)⟩
  · rw [hvisible] at htable
    exact ⟨body, [], (List.append_nil body).symm,
      h.table (Text.ModifiedUtf8.encode_injective htable)⟩
  · rw [hvisible] at hplain
    exact hplain (congrArg ModifiedUtf8.encode heq)

end Outline

namespace PoolWriter
variable {α : Type} {major : UInt16} {write : α → PoolWriter Bytes} {items : List α}

theorem writes_counted {Q : α → Pool → Bytes → Prop}
    (h : ∀ item ∈ items, Writes major (write item) (Q item)) :
    Writes major (Draft.writeCounted write items) fun pool bytes =>
      ∃ parts, bytes = Draft.encodeCount parts ++ parts.flatten ∧
        List.Forall₂ (fun item part => Q item pool part) items parts := by
  refine (Writes.mapM h).bind fun parts => .pure fun pool hparts => ⟨parts, ?_, hparts⟩
  rw [Draft.encodeCount, Draft.encodeCount, hparts.length_eq]

/-- Whether `w` writes what `p` reads as `a`. -/
def WritesFor (major : UInt16) (w : PoolWriter Bytes) (p : Pool → Parser α) (a : α) : Prop :=
  Writes major w fun pool bytes => ∀ pos, Reads (p pool) pos bytes a

theorem writesFor_counted {β : Type} {p : Pool → Parser β} {value : α → β}
    (h : ∀ item ∈ items, WritesFor major (write item) p (value item))
    (hcount : items.length ≤ 65535) :
    WritesFor major (Draft.writeCounted write items) (fun pool => counted (p pool))
      (items.map value) := by
  refine (writes_counted h).mono fun pool bytes hbytes pos => ?_
  obtain ⟨parts, rfl, hparts⟩ := hbytes
  refine Reads.counted (List.forall₂_map_right_iff.2 hparts.flip) ?_
  rwa [← hparts.length_eq]

end PoolWriter

namespace Draft
variable {major : UInt16} {name : String}

theorem writes_attribute (interest : Interest) {body : Bytes} (hmajor : 45 ≤ major)
    (hname : TextFits name) :
    Writes major (writeAttribute name body) fun pool bytes => ∀ found,
      Outline.Finds pool interest (name, body) found →
        ∀ pos, Reads (Outline.readAttribute pool interest) pos bytes found := by
  refine (writes_text (Constant.legal_text hmajor hname)).bind fun index => ?_
  exact .pure fun pool hindex found hfound pos => Outline.reads_readAttribute hindex hfound

open ElementValue in
theorem writes_sampleValues (hmajor : 45 ≤ major) :
    Writes major sampleValues fun _ values => values.length = 4 ∧
      (encodePairs values).length = 30 ∧ LegalPairs values ∧
        depthOfPairs values ≤ AnnotationTable.levels := by
  have hlegal {name : String} (h : TextFits name) := Constant.legal_text hmajor h
  refine .seq (writes_text (hlegal (by decide +kernel))) fun value => ?_
  refine .seq (writes_text (hlegal (by decide +kernel))) fun hello => ?_
  refine .seq (writes_text (hlegal (by decide +kernel))) fun flags => ?_
  refine .seq (writes_integer hmajor 1) fun one => ?_
  refine .seq (writes_integer hmajor 2) fun two => ?_
  refine .seq (writes_text (hlegal (by decide +kernel))) fun nested => ?_
  refine .seq (writes_text (hlegal (by decide +kernel))) fun deprecated => ?_
  refine .seq (writes_text (hlegal (by decide +kernel))) fun kind => ?_
  refine .seq (writes_text (hlegal (by decide +kernel))) fun elementType => ?_
  refine .seq (writes_text (hlegal (by decide +kernel))) fun typeName => ?_
  refine .pure fun _ => ⟨rfl, rfl, ?_, ?_⟩
  · have hstring : (0x73 : UInt8) ∈ AnnotationTable.constantTags := by
      simp [AnnotationTable.constantTags_eq]
    have hint : (0x49 : UInt8) ∈ AnnotationTable.constantTags := by
      simp [AnnotationTable.constantTags_eq]
    simp [LegalPairs, Legal, LegalItems, hstring, hint]
  · simp [depthOfPairs, depthOfItems, depth, AnnotationTable.levels]

theorem writes_annotationEntry (interest : Interest) (hmajor : 45 ≤ major)
    (hname : TextFits ("L" ++ name ++ ";")) :
    Writes major (writeAnnotationEntry name) fun pool bytes => bytes.length = 34 ∧
      ∀ pos, Reads (AnnotationTable.readEntry pool interest) pos bytes
        ((some name).filter fun name => interest.names.contains name) := by
  refine (writes_text (Constant.legal_text hmajor hname)).bind fun type => ?_
  refine (writes_sampleValues hmajor).bind fun values => .pure fun pool hvalues htype => ?_
  obtain ⟨hcount, hlength, hlegal, hdepth⟩ := hvalues
  constructor
  · rw [List.length_append, hlength]
    rfl
  intro pos
  obtain ⟨start, hraw⟩ := htype.rawText
  rw [List.append_assoc, ← Interest.find?_annotationKey]
  refine .position (Reads.bind (.u2 type) (.lift (hraw _) ?_))
  exact (AnnotationTable.reads_skipPairs hlegal (by rw [hcount]; decide) hdepth).map

theorem length_flatten {α : Type} {R : α → Bytes → Prop} {n : Nat} {items : List α}
    {parts : List Bytes} (hn : ∀ item part, R item part → part.length = n)
    (h : List.Forall₂ R items parts) : parts.flatten.length = items.length * n := by
  induction h with
  | nil => rw [List.flatten_nil, List.length_nil, List.length_nil, Nat.zero_mul]
  | cons hfirst _ ih =>
    rw [List.flatten_cons, List.length_append, hn _ _ hfirst, ih, List.length_cons, Nat.succ_mul,
      Nat.add_comm]

theorem writes_annotations {names : List String} (interest : Interest) (hmajor : 45 ≤ major)
    (h : AnnotationsFit names) :
    Writes major (writeCounted writeAnnotationEntry names) fun pool table =>
      Outline.Finds pool interest (visibleAnnotations, table) (interest.keep names) := by
  refine (writes_counted fun name hname =>
    writes_annotationEntry interest hmajor (h.names name hname)).mono ?_
  rintro pool table ⟨parts, rfl, hparts⟩
  refine ⟨?_, fun _ pos => ?_, fun hplain => ?_⟩
  · rw [encodeCount, List.length_append, length_flatten (fun _ _ h => h.1) hparts,
      length_encodeU2]
    have hcount := h.count
    omega
  · have hfound : List.Forall₂ (fun part entry => ∀ pos,
        Reads (AnnotationTable.readEntry pool interest) pos part entry) parts
        ((names.map some).map (Option.filter fun name => interest.names.contains name)) := by
      rw [List.map_map, List.forall₂_map_right_iff]
      exact (hparts.imp fun _ _ h => h.2).flip
    have hkeep : interest.keep names = ((names.map some).map
        (Option.filter fun name => interest.names.contains name)).filterMap id := by
      rw [Interest.filterMap_filter, List.filterMap_map]
      exact congrArg interest.keep List.filterMap_some.symm
    rw [hkeep]
    exact (Reads.counted hfound (by rw [← hparts.length_eq]; exact h.count)).map
  · exact Interest.keep_of_isEmpty (hplain.resolve_left fun h => h rfl) names

end Draft

end ClassSieve.ClassFile
