import ClassSieve.Proofs.ClassFile.Attributes
import ClassSieve.Proofs.ClassFile.HeaderReading

/-!
# Drafts read back

What a draft writes, a reader reads back: the header as it is, and the outline with the annotations
of interest to the reader.
-/
namespace ClassSieve.ClassFile
open ClassFile.Parser ClassFile.PoolWriter

structure Header.Fits (header : Header) : Prop where
  name : TextFits header.name
  superName : ∀ name ∈ header.superName, TextFits name
  root : header.superName = none → header.name = rootClass ∨ header.access.isModule = true
  count : header.interfaces.length ≤ 65535
  interfaces : ∀ name ∈ header.interfaces, TextFits name

structure Field.Fits (field : Field) : Prop where
  name : TextFits field.name
  descriptor : TextFits field.descriptor

structure Method.Fits (method : Method) : Prop where
  name : TextFits method.name
  descriptor : TextFits method.descriptor
  annotations : AnnotationsFit method.annotations

namespace Draft
variable {major : UInt16} {access : AccessFlags} {name descriptor : String}

def MemberRead (pool : Pool) (access : AccessFlags) (name descriptor : String) (bytes : Bytes) :
    Prop :=
  ∀ {α : Type} (next : UInt16 → String → String → Parser α) (pos : Nat) (more : Bytes) (a : α),
    (∀ pos, Reads (next access.bits name descriptor) pos more a) →
      Reads (do next (← u2) (← Outline.readText pool) (← Outline.readText pool)) pos
        (bytes ++ more) a

theorem writes_member (hmajor : 45 ≤ major) (hname : TextFits name)
    (hdescriptor : TextFits descriptor) :
    Writes major (writeMember access name descriptor) fun pool bytes =>
      MemberRead pool access name descriptor bytes := by
  refine (writes_text (Constant.legal_text hmajor hname)).bind fun nameIndex => ?_
  refine (writes_text (Constant.legal_text hmajor hdescriptor)).bind fun descriptorIndex => ?_
  refine .pure fun pool hdescriptor hname α next pos more a hnext => ?_
  rw [List.append_assoc, List.append_assoc]
  refine Reads.bind (.u2 access.bits) (Reads.bind (Outline.reads_readText hname.text) ?_)
  exact Reads.bind (Outline.reads_readText hdescriptor.text) (hnext _)

theorem writes_field {field : Field} (hmajor : 45 ≤ major) (h : field.Fits) :
    WritesFor major (writeField field) Outline.readField field := by
  refine (writes_member hmajor h.name h.descriptor).bind fun member => ?_
  refine (writes_attribute Interest.empty hmajor (by decide +kernel)).bind fun marker => ?_
  refine .pure fun pool hmarker hmember pos => ?_
  have hfinds : Outline.Finds pool Interest.empty ("Deprecated", []) [] :=
    ⟨by decide, fun h => absurd h (by decide), fun _ => rfl⟩
  have hattributes : Outline.AttributesRead pool Interest.empty [marker] [] :=
    .singleton (hmarker [] hfinds)
  rw [List.append_assoc]
  refine hmember _ pos _ field fun pos => ?_
  have hcount : [marker].length ≤ 65535 := by
    rw [List.length_singleton]
    omega
  have hread : Reads (Outline.readAttributes pool Interest.empty) pos _ _ :=
    Outline.reads_readAttributes hattributes hcount
  rw [List.flatten_singleton] at hread
  exact hread.map

def writeCode (method : Method) : PoolWriter (List Bytes) :=
  if method.access.has .abstractFlag || method.access.has .nativeFlag then pure []
  else return [← writeAttribute "Code" sampleCode]

def writeVisible (names : List String) : PoolWriter (List Bytes) :=
  if names.isEmpty then pure []
  else do
    let table ← writeCounted writeAnnotationEntry names
    return [← writeAttribute visibleAnnotations table]

theorem writeMethod_eq (method : Method) : writeMethod method = do
    let member ← writeMember method.access method.name method.descriptor
    let code ← writeCode method
    let annotations ← writeVisible method.annotations
    return member ++ encodeCount (code ++ annotations) ++ (code ++ annotations).flatten := by
  rw [writeMethod, writeCode, writeVisible]
  split <;> split <;> simp [visibleAnnotations]

theorem writes_code {method : Method} (interest : Interest) (hmajor : 45 ≤ major) :
    Writes major (writeCode method) fun pool code =>
      code.length ≤ 1 ∧ Outline.AttributesRead pool interest code [] := by
  rw [writeCode]
  split
  · exact .pure fun _ => ⟨Nat.zero_le 1, .nil⟩
  · refine (writes_attribute interest hmajor (by decide +kernel)).bind fun code => ?_
    refine .pure fun pool hcode => ⟨Nat.le_refl 1, .singleton (hcode [] ?_)⟩
    exact ⟨by decide, fun h => absurd h (by decide), fun _ => rfl⟩

theorem writes_visible {names : List String} (interest : Interest) (hmajor : 45 ≤ major)
    (h : AnnotationsFit names) :
    Writes major (writeVisible names) fun pool annotations => annotations.length ≤ 1 ∧
      Outline.AttributesRead pool interest annotations (interest.keep names) := by
  rw [writeVisible]
  split
  · rename_i hempty
    rw [List.isEmpty_iff.1 hempty]
    exact .pure fun _ => ⟨Nat.zero_le 1, .nil⟩
  · refine (writes_annotations interest hmajor h).bind fun table => ?_
    refine (writes_attribute interest hmajor (by decide +kernel)).bind fun annotations => ?_
    exact .pure fun pool hannotations htable =>
      ⟨Nat.le_refl 1, .singleton (hannotations _ htable)⟩

theorem writes_method {method : Method} (interest : Interest) (hmajor : 45 ≤ major)
    (h : method.Fits) :
    WritesFor major (writeMethod method) (fun pool => Outline.readMethod pool interest)
      (method.restrict interest) := by
  rw [writeMethod_eq]
  refine (writes_member hmajor h.name h.descriptor).bind fun member => ?_
  refine (writes_code interest hmajor).bind fun code => ?_
  refine (writes_visible interest hmajor h.annotations).bind fun annotations => ?_
  refine .pure fun pool hannotations hcode hmember pos => ?_
  have hcount : (code ++ annotations).length ≤ 65535 := by
    rw [List.length_append]
    omega
  rw [List.append_assoc]
  refine hmember _ pos _ _ fun pos => ?_
  exact (Outline.reads_readAttributes (hcode.2.append hannotations.2) hcount).map

def writeSource (sourceFile : Option String) : PoolWriter (List (String × Bytes)) :=
  match sourceFile with
  | some name => return [("SourceFile", encodeU2 (← PoolWriter.text name))]
  | none => pure []

def writeClassVisible (names : List String) : PoolWriter (List (String × Bytes)) :=
  if names.isEmpty then pure []
  else return [(visibleAnnotations, ← writeCounted writeAnnotationEntry names)]

theorem writeClassAttributes_eq (draft : Draft) : draft.writeClassAttributes = (do
    let source ← writeSource draft.sourceFile
    let annotations ← writeClassVisible draft.outline.annotations
    writeCounted (fun item => writeAttribute item.1 item.2) (source ++ annotations)) := by
  unfold writeClassAttributes writeSource writeClassVisible
  cases draft.sourceFile <;> split <;> simp [visibleAnnotations]

theorem writes_source {sourceFile : Option String} (interest : Interest) (hmajor : 45 ≤ major)
    (hname : ∀ name ∈ sourceFile, TextFits name) :
    Writes major (writeSource sourceFile) fun pool items =>
      Gathers (Outline.Finds pool interest) items [] := by
  cases sourceFile with
  | none => exact .pure fun _ => .nil
  | some name =>
    refine (writes_text (Constant.legal_text hmajor (hname name rfl))).bind fun index => ?_
    have hplain : "SourceFile" ≠ visibleAnnotations := by decide
    refine .pure fun pool _ => .singleton ?_
    exact ⟨(by decide : 2 < 0x100000000), fun h => absurd h hplain, fun _ => rfl⟩

theorem writes_classVisible {names : List String} (interest : Interest) (hmajor : 45 ≤ major)
    (h : AnnotationsFit names) :
    Writes major (writeClassVisible names) fun pool items =>
      Gathers (Outline.Finds pool interest) items (interest.keep names) := by
  rw [writeClassVisible]
  split
  · rename_i hempty
    rw [List.isEmpty_iff.1 hempty]
    exact .pure fun _ => .nil
  · refine (writes_annotations interest hmajor h).bind fun table => ?_
    exact .pure fun pool htable => .singleton htable

def ItemsFit (items : List (String × Bytes)) : Prop :=
  items.length ≤ 1 ∧ ∀ item ∈ items, TextFits item.1

theorem fit_source (sourceFile : Option String) (pool : PoolDraft) :
    ItemsFit ((writeSource sourceFile).run pool).1 := by
  cases sourceFile with
  | none => exact ⟨Nat.zero_le 1, fun _ h => by cases h⟩
  | some name =>
    have hfits : TextFits "SourceFile" := by decide +kernel
    exact ⟨Nat.le_refl 1, List.forall_mem_singleton.2 hfits⟩

theorem fit_classVisible (names : List String) (pool : PoolDraft) :
    ItemsFit ((writeClassVisible names).run pool).1 := by
  rw [writeClassVisible]
  split
  · exact ⟨Nat.zero_le 1, fun _ h => by cases h⟩
  · have hfits : TextFits visibleAnnotations := by decide +kernel
    exact ⟨Nat.le_refl 1, List.forall_mem_singleton.2 hfits⟩

theorem writes_classAttributes {draft : Draft} (interest : Interest) (hmajor : 45 ≤ major)
    (hsource : ∀ name ∈ draft.sourceFile, TextFits name)
    (h : AnnotationsFit draft.outline.annotations) :
    WritesFor major draft.writeClassAttributes
      (fun pool => Outline.readAttributes pool interest)
      (interest.keep draft.outline.annotations) := by
  rw [writeClassAttributes_eq]
  refine (writes_source interest hmajor hsource).bind_of (fit_source _) fun source hfit => ?_
  refine (writes_classVisible interest hmajor h).bind_of (fit_classVisible _)
    fun annotations hfit' => ?_
  have hfits : ∀ item ∈ source ++ annotations, TextFits item.1 :=
    List.forall_mem_append.2 ⟨hfit.2, hfit'.2⟩
  refine (writes_counted fun item hitem =>
    writes_attribute interest hmajor (hfits item hitem)).mono ?_
  rintro pool bytes ⟨parts, rfl, hparts⟩ hvisible hsource pos
  have hread : Outline.AttributesRead pool interest parts
      ([] ++ interest.keep draft.outline.annotations) :=
    (hsource.append hvisible).transfer hparts fun _ _ found hpart hfound => hpart found hfound
  refine Outline.reads_readAttributes hread ?_
  rw [← hparts.length_eq, List.length_append]
  exact Nat.le_trans (Nat.add_le_add hfit.1 hfit'.1) (by decide)

def writeSuper (superName : Option String) : PoolWriter UInt16 :=
  match superName with
  | some name => PoolWriter.classRef name
  | none => pure 0

theorem writeHeader_eq (header : Header) : writeHeader header = do
    let this ← PoolWriter.classRef header.name
    let super ← writeSuper header.superName
    let interfaces ← writeCounted (fun name => return encodeU2 (← PoolWriter.classRef name))
      header.interfaces
    return encodeU2 header.access.bits ++ encodeU2 this ++ encodeU2 super ++ interfaces := by
  unfold writeHeader writeSuper
  cases header.superName <;> simp

theorem writes_super {header : Header} (hmajor : 45 ≤ major) (h : header.Fits) :
    Writes major (writeSuper header.superName) fun pool index => ∀ pos,
      Reads (Header.readSuperName pool header.access header.name) pos (encodeU2 index)
        header.superName := by
  cases hsuper : header.superName with
  | none => exact .pure fun pool pos => Header.reads_readSuperName_none (h.root hsuper)
  | some name =>
    refine (writes_classRef hmajor (Constant.legal_text hmajor (h.superName name hsuper))).mono ?_
    exact fun pool index hindex pos => Header.reads_readSuperName hindex.ne_zero hindex.className

theorem writes_header {header : Header} (hmajor : 45 ≤ major) (h : header.Fits) :
    WritesFor major (writeHeader header)
      (fun pool => Header.readNames pool header.minor header.major) header := by
  have hinterface : ∀ name ∈ header.interfaces,
      WritesFor major (do return encodeU2 (← PoolWriter.classRef name)) Header.readClassName
        name := by
    intro name hname
    refine (writes_classRef hmajor (Constant.legal_text hmajor (h.interfaces name hname))).bind ?_
    exact fun index => .pure fun pool hindex pos => Header.reads_readClassName hindex.className
  rw [writeHeader_eq]
  refine (writes_classRef hmajor (Constant.legal_text hmajor h.name)).bind fun this => ?_
  refine (writes_super hmajor h).bind fun super => ?_
  refine (writesFor_counted hinterface h.count).bind fun interfaces => ?_
  refine .pure fun pool hinterfaces hsuper hthis pos => ?_
  rw [List.append_assoc, List.append_assoc]
  refine Reads.bind (.u2 header.access.bits) ?_
  refine Reads.bind (Header.reads_readClassName hthis.className) ?_
  refine Reads.bind (hsuper _) ?_
  have hread := hinterfaces (pos + 2 + 2 + 2)
  rw [List.map_id'] at hread
  exact hread.map

/-- Whether a draft can be written as a file that readers understand. -/
structure Encodable (draft : Draft) : Prop where
  oldest : oldestMajor ≤ draft.outline.header.major
  newest : draft.outline.header.major ≤ newestMajor
  pool : (draft.writeBody.run PoolDraft.empty).2.next ≤ 65535
  header : draft.outline.header.Fits
  fieldCount : draft.outline.fields.length ≤ 65535
  fields : ∀ field ∈ draft.outline.fields, field.Fits
  methodCount : draft.outline.methods.length ≤ 65535
  methods : ∀ method ∈ draft.outline.methods, method.Fits
  annotations : AnnotationsFit draft.outline.annotations
  sourceFile : ∀ name ∈ draft.sourceFile, TextFits name

theorem writes_body {draft : Draft} (h : draft.Encodable) (interest : Interest) :
    Writes draft.outline.header.major draft.writeBody fun pool body => ∃ front back,
      body = front ++ back ∧
        (∀ pos, Reads (Header.readNames pool draft.outline.header.minor
          draft.outline.header.major) pos front draft.outline.header) ∧
        ∀ pos, Reads (Outline.read pool draft.outline.header interest) pos back
          (draft.outline.restrict interest) := by
  have hmajor : 45 ≤ draft.outline.header.major := h.oldest
  unfold writeBody
  refine .when ?_ fun _ hrest => (writes_everyKind hmajor).seq fun _ => hrest
  refine (writes_header hmajor h.header).bind fun front => ?_
  refine (writesFor_counted (fun field hfield => writes_field hmajor (h.fields field hfield))
    h.fieldCount).bind fun fields => ?_
  refine (writesFor_counted (fun method hmethod =>
    writes_method interest hmajor (h.methods method hmethod)) h.methodCount).bind fun methods => ?_
  refine (writes_classAttributes interest hmajor h.sourceFile h.annotations).bind
    fun attributes => ?_
  refine .pure fun pool hattributes hmethods hfields hfront => ?_
  refine ⟨front, fields ++ (methods ++ attributes), ?_, hfront, fun pos => ?_⟩
  · rw [List.append_assoc, List.append_assoc]
  · have hfields := hfields pos
    rw [List.map_id'] at hfields
    exact hfields.bind ((hmethods _).bind (hattributes _).map)

/-- The file of a draft in two parts, which the two readers take one after the other. -/
theorem reads_encode {draft : Draft} (h : draft.Encodable) (interest : Interest) :
    ∃ front back pool, draft.encode = front ++ back ∧
      Reads Header.read 0 front (pool, draft.outline.header) ∧
      Reads (Outline.read pool draft.outline.header interest) front.length back
        (draft.outline.restrict interest) := by
  have hwrites := writes_body h interest
  rcases hrun : draft.writeBody.run PoolDraft.empty with ⟨body, drafted⟩
  have hsound := hwrites.sound (PoolDraft.sound_empty _)
  have hnext := h.pool
  rw [hrun] at hsound hnext
  have hpool := Pool.reads_read 8 hsound.legal (by rwa [← hsound.next])
  rw [← hsound.next] at hpool
  have hbody := hwrites.post (PoolDraft.sound_empty _)
    (by rw [hrun]; exact hsound.servedBy_layout hnext (8 + 2))
  rw [hrun] at hbody
  obtain ⟨names, back, hsplit, hnames, hback⟩ := hbody
  obtain rfl : body = names ++ back := hsplit
  refine ⟨encodeU4 magic ++ encodeU2 draft.outline.header.minor ++
    encodeU2 draft.outline.header.major ++ (drafted.encode ++ names), back, _, ?_, ?_, hback _⟩
  · rw [encode, hrun]
    simp only [List.append_assoc]
  · rw [Header.read_eq]
    refine Reads.bind (Header.reads_readVersion h.oldest h.newest) ?_
    exact Reads.bind hpool (hnames _).map

/-- Both readers read back what a draft writes, and nothing is left behind the outline. -/
theorem parse_encode (draft : Draft) (interest : Interest) (h : draft.Encodable) :
    parseHeader draft.encode = .ok draft.outline.header ∧
      parseOutline draft.encode interest = .ok (draft.outline.restrict interest) ∧
      ∃ pool middle last,
        Header.read (Cursor.ofBytes draft.encode) = .ok ((pool, draft.outline.header), middle) ∧
        Outline.read pool draft.outline.header interest middle =
          .ok (draft.outline.restrict interest, last) ∧
        last.rest = [] := by
  obtain ⟨front, back, pool, hencode, hfront, hback⟩ := reads_encode h interest
  have hheader := hfront back .truncated
  have houtline := hback [] .truncated
  rw [List.append_nil] at houtline
  rw [Nat.zero_add, ← hencode] at hheader
  exact ⟨parseHeader_eq_ok.2 ⟨pool, _, hheader⟩,
    parseOutline_eq_ok.2 ⟨pool, _, _, _, hheader, houtline⟩,
    pool, _, _, hheader, houtline, rfl⟩

def sample : Draft where
  outline := {
    header := {
      minor := 3, major := 55, access := ⟨0x21⟩, name := "a/A", superName := some rootClass,
      interfaces := ["a/I", "a/J"] }
    fields := [⟨⟨2⟩, "f", "I"⟩]
    methods := [⟨⟨1⟩, "m", "()V", ["a/X", "a/Y"]⟩, ⟨⟨0x401⟩, "n", "()V", []⟩]
    annotations := ["a/Y"] }
  sourceFile := some "A.java"
  everyConstant := true

theorem encodable_sample : sample.Encodable where
  oldest := by decide
  newest := by decide
  pool := by decide +kernel
  header := {
    name := by decide +kernel
    superName := by decide +kernel
    root := fun h => by cases h
    count := by decide
    interfaces := by decide +kernel }
  fieldCount := by decide
  fields := List.forall_mem_singleton.2 ⟨by decide +kernel, by decide +kernel⟩
  methodCount := by decide
  methods := List.forall_mem_cons.2
    ⟨⟨by decide +kernel, by decide +kernel, by decide, by decide +kernel⟩,
      List.forall_mem_singleton.2
        ⟨by decide +kernel, by decide +kernel, by decide, by decide +kernel⟩⟩
  annotations := ⟨by decide, by decide +kernel⟩
  sourceFile := by decide +kernel

theorem parse_encode_sample :
    parseHeader sample.encode = .ok sample.outline.header ∧
      parseOutline sample.encode ⟨["a/Y"]⟩ = .ok { sample.outline with
        methods := [⟨⟨1⟩, "m", "()V", ["a/Y"]⟩, ⟨⟨0x401⟩, "n", "()V", []⟩] } := by
  have hrestrict : sample.outline.restrict ⟨["a/Y"]⟩ = { sample.outline with
      methods := [⟨⟨1⟩, "m", "()V", ["a/Y"]⟩, ⟨⟨0x401⟩, "n", "()V", []⟩] } := by decide
  obtain ⟨hheader, houtline, -⟩ := parse_encode sample ⟨["a/Y"]⟩ encodable_sample
  exact ⟨hheader, houtline.trans (congrArg Except.ok hrestrict)⟩

end Draft

end ClassSieve.ClassFile
