import ClassSieve.Proofs.ClassFile.HeaderReading
import ClassSieve.Proofs.ClassFile.PoolIndices
import ClassSieve.Proofs.ClassFile.Taking

/-!
# The grammar of a header

A `HeaderLayout` is the front of a class file as its parts are written: a version, the entries of
the pool, access flags, and indices for the names. `Describes` says when such a front is valid and
which header it means. A reader of headers accepts just the bytes that begin with a valid front,
and answers the header that it means.
-/
namespace ClassSieve.ClassFile
open ClassFile.Parser

def encodeCounted {α : Type} (encode : α → Bytes) (items : List α) : Bytes :=
  encodeU2 (UInt16.ofNat items.length) ++ items.flatMap encode

structure HeaderLayout where
  minor : UInt16
  major : UInt16
  constants : List Constant
  access : AccessFlags
  this : UInt16
  super : UInt16
  interfaces : List UInt16

namespace HeaderLayout

def encodePool (constants : List Constant) : Bytes :=
  encodeU2 (UInt16.ofNat (1 + Constant.slotsOf constants)) ++ constants.flatMap Constant.encode

def encodeNames (layout : HeaderLayout) : Bytes :=
  encodeU2 layout.access.bits ++ encodeU2 layout.this ++ encodeU2 layout.super
    ++ encodeCounted encodeU2 layout.interfaces

def encode (layout : HeaderLayout) : Bytes :=
  encodeU4 0xCAFEBABE ++ encodeU2 layout.minor ++ encodeU2 layout.major
    ++ encodePool layout.constants ++ layout.encodeNames

structure Describes (layout : HeaderLayout) (header : Header) : Prop where
  minor : header.minor = layout.minor
  major : header.major = layout.major
  oldest : 45 ≤ layout.major
  newest : layout.major ≤ 69
  legal : ∀ constant ∈ layout.constants, constant.Legal layout.major
  slots : 1 + Constant.slotsOf layout.constants ≤ 65535
  access : header.access = layout.access
  name : Constant.NamesClass layout.constants layout.this header.name
  superName : layout.super ≠ 0 → ∃ name ∈ header.superName,
    Constant.NamesClass layout.constants layout.super name
  noSuper : layout.super = 0 → header.superName = none ∧
    (header.name = "java/lang/Object" ∨ header.access.isModule = true)
  interfaceCount : layout.interfaces.length ≤ 65535
  interfaces : List.Forall₂ (Constant.NamesClass layout.constants) layout.interfaces
    header.interfaces

end HeaderLayout

theorem Parser.reads_counted {α β : Type} {p : Parser β} {encode : α → Bytes} {items : List α}
    {values : List β} {pos : Nat} (hcount : items.length ≤ 65535)
    (h : List.Forall₂ (fun item value => ∀ pos, Reads p pos (encode item) value) items values) :
    Reads (counted p) pos (encodeCounted encode items) values := by
  have hparts : List.Forall₂ (fun bytes value => ∀ pos, Reads p pos bytes value)
      (items.map encode) values := List.forall₂_map_left_iff.2 h
  have hread : Reads (counted p) pos _ values :=
    Reads.counted hparts (by rwa [List.length_map])
  rwa [List.length_map, ← List.flatMap_def] at hread

namespace Pool
variable {tag : UInt8} {major : UInt16}

theorem takes_readBody (pos : Nat) {layout : TagLayout} (htag : tagLayout? tag = some layout) :
    Takes (readBody tag layout) (pos + 1) fun bytes slot => ∃ constant : Constant,
      constant.tag = tag ∧ constant.Fits layout ∧ constant.encode = tag :: bytes ∧
        constant.isWide = layout.wide ∧ slot = constant.slot pos := by
  unfold readBody
  cases hwidth : layout.width with
  | none =>
    obtain rfl := (width_eq_none_iff htag).1 hwidth
    obtain rfl : (⟨none, false, 45⟩ : TagLayout) = layout := Option.some.inj htag
    refine .u2_bind fun length => .position ((Takes.take _).bind fun raw _ h => .pure ?_)
    obtain ⟨rfl, hlength⟩ := h
    have hsmall := length.toNat_lt
    refine ⟨.text raw, rfl, ?_, ?_, rfl, rfl⟩
    · rw [Constant.Fits]
      omega
    · rw [Constant.encode, hlength, UInt16.ofNat_toNat]
      simp [textTag]
  | some width =>
    dsimp only
    split
    · rename_i hclass
      obtain rfl := hclass
      obtain rfl : (⟨some 2, false, 45⟩ : TagLayout) = layout := Option.some.inj htag
      refine .u2_bind fun nameIndex => .pure ?_
      exact ⟨.classRef nameIndex, rfl, trivial, by simp [Constant.encode, classTag], rfl, rfl⟩
    · rename_i hclass
      refine (Takes.skip width).bind fun body _ hlength => .pure ?_
      refine ⟨.other tag body layout.wide, rfl, ⟨hclass, ?_, rfl⟩, by simp [Constant.encode], rfl,
        rfl⟩
      rw [hwidth, hlength]

theorem takes_readEntry (major : UInt16) (pos : Nat) :
    Takes (readEntry major) pos fun bytes found => ∃ constant : Constant,
      constant.Legal major ∧ bytes = constant.encode ∧
        found = (constant.slot pos, constant.isWide) := by
  refine .position (Takes.u1.bind fun _ tag htag => ?_)
  subst htag
  split
  · exact .failAt
  · rename_i layout hlayout
    split
    · exact .failAt
    · rename_i hsince
      refine (takes_readBody pos hlayout).bind fun body slot hbody => .pure ?_
      obtain ⟨constant, rfl, hfits, hencode, hwide, rfl⟩ := hbody
      refine ⟨constant, ⟨layout, hlayout, UInt16.not_lt.1 hsince, hfits⟩, ?_, by rw [hwide]⟩
      rw [hencode, List.append_nil]
      rfl

theorem takes_readEntries (major : UInt16) (left pos : Nat) (pool : Pool) :
    Takes (readEntries major left pool) pos fun bytes found => ∃ constants : List Constant,
      (∀ constant ∈ constants, constant.Legal major) ∧ Constant.slotsOf constants = left ∧
        bytes = constants.flatMap Constant.encode ∧
        found = pool ++ (Constant.layout pos constants).toArray := by
  induction left using Nat.strongRecOn generalizing pos pool with
  | ind left ih =>
  cases left with
  | zero => exact .pure ⟨[], by simp, rfl, rfl, by simp [Constant.layout]⟩
  | succ left =>
    rw [readEntries]
    refine .position ((takes_readEntry major pos).bind fun bytes found hfound => ?_)
    obtain ⟨constant, hlegal, rfl, rfl⟩ := hfound
    have hslots := constant.slots_eq
    dsimp only
    cases hwide : constant.isWide with
    | false =>
      rw [hwide] at hslots
      rw [if_neg Bool.false_ne_true]
      refine (ih left (Nat.lt_succ_self left) _ _).mono ?_
      rintro more found ⟨constants, hconstants, rfl, rfl, rfl⟩
      refine ⟨constant :: constants, List.forall_mem_cons.2 ⟨hlegal, hconstants⟩, ?_, rfl, ?_⟩
      · rw [Constant.slotsOf, hslots, if_neg Bool.false_ne_true, Nat.add_comm]
      · simp [Constant.layout, hwide]
    | true =>
      rw [hwide] at hslots
      rw [if_pos rfl]
      cases left with
      | zero => exact .failAt -- no room for the second slot
      | succ left =>
        refine (ih left (by omega) _ _).mono ?_
        rintro more found ⟨constants, hconstants, rfl, rfl, rfl⟩
        refine ⟨constant :: constants, List.forall_mem_cons.2 ⟨hlegal, hconstants⟩, ?_, rfl, ?_⟩
        · rw [Constant.slotsOf, hslots, if_pos rfl, Nat.add_comm]
        · simp [Constant.layout, hwide]

theorem takes_read (major : UInt16) (pos : Nat) :
    Takes (Pool.read major) pos fun bytes pool => ∃ (count : UInt16) (constants : List Constant),
      (∀ constant ∈ constants, constant.Legal major) ∧
        Constant.slotsOf constants = count.toNat - 1 ∧
        bytes = encodeU2 count ++ constants.flatMap Constant.encode ∧
        pool = ofConstants (pos + 2) constants := by
  refine .u2_bind fun count => (takes_readEntries major _ _ _).mono ?_
  rintro bytes pool ⟨constants, hlegal, hslots, rfl, rfl⟩
  exact ⟨count, constants, hlegal, hslots, rfl, rfl⟩

end Pool

namespace Header

theorem takes_readVersion (pos : Nat) :
    Takes readVersion pos fun bytes version => 45 ≤ version.2 ∧ version.2 ≤ 69 ∧
      bytes = encodeU4 0xCAFEBABE ++ encodeU2 version.1 ++ encodeU2 version.2 := by
  refine .position (Takes.u4.bind fun _ number hnumber => ?_)
  subst hnumber
  split
  · exact .failAt
  · rename_i hmagic
    obtain rfl := not_not.1 hmagic
    refine .u2_bind fun minor => .position (.u2_bind fun major => ?_)
    split
    · exact .throw
    · rename_i hnewest
      split
      · exact .failAt
      · rename_i holdest
        exact .pure ⟨UInt16.not_lt.1 holdest, UInt16.not_lt.1 hnewest, by simp [magic]⟩

section
variable {constants : List Constant} {start : Nat}

theorem takes_readClassName (pos : Nat) :
    Takes (readClassName (Pool.ofConstants start constants)) pos fun bytes name => ∃ index,
      bytes = encodeU2 index ∧ Constant.NamesClass constants index name := by
  refine .position (.u2_bind fun index => Takes.lift.mono ?_)
  rintro _ name ⟨rfl, hname⟩
  exact ⟨index, List.append_nil _, Pool.className_eq_ok.1 hname⟩

theorem takes_readSuperName (access : AccessFlags) (name : String) (pos : Nat) :
    Takes (readSuperName (Pool.ofConstants start constants) access name) pos
      fun bytes superName => ∃ index, bytes = encodeU2 index ∧
        (index ≠ 0 → ∃ found ∈ superName, Constant.NamesClass constants index found) ∧
        (index = 0 → superName = none ∧ (name = "java/lang/Object" ∨ access.isModule = true)) := by
  refine .position (.u2_bind fun index => ?_)
  split
  · rename_i hzero
    split
    · rename_i hroot
      rw [Bool.or_eq_true, decide_eq_true_eq] at hroot
      exact .pure ⟨index, List.append_nil _, fun h => absurd hzero h, fun _ => ⟨rfl, hroot⟩⟩
    · exact .failAt
  · rename_i hindex
    refine Takes.lift.bind fun _ found h => .pure ?_
    obtain ⟨rfl, hfound⟩ := h
    exact ⟨index, by simp, fun _ => ⟨found, rfl, Pool.className_eq_ok.1 hfound⟩,
      fun h => absurd h hindex⟩

theorem exists_indices {R : UInt16 → String → Prop} {parts : List Bytes} {names : List String}
    (h : List.Forall₂ (fun bytes name => ∃ index, bytes = encodeU2 index ∧ R index name) parts
      names) :
    ∃ indices : List UInt16, parts = indices.map encodeU2 ∧ List.Forall₂ R indices names := by
  induction h with
  | nil => exact ⟨[], rfl, .nil⟩
  | cons hfirst _ ih =>
    obtain ⟨index, rfl, hindex⟩ := hfirst
    obtain ⟨indices, rfl, hindices⟩ := ih
    exact ⟨index :: indices, rfl, .cons hindex hindices⟩

theorem takes_interfaces (pos : Nat) :
    Takes (counted (readClassName (Pool.ofConstants start constants))) pos fun bytes names =>
      ∃ indices : List UInt16, indices.length ≤ 65535 ∧
        bytes = encodeCounted encodeU2 indices ∧
        List.Forall₂ (Constant.NamesClass constants) indices names := by
  refine (Takes.counted takes_readClassName).mono ?_
  rintro _ names ⟨parts, hcount, rfl, hparts⟩
  obtain ⟨indices, rfl, hindices⟩ := exists_indices hparts
  rw [List.length_map] at hcount
  refine ⟨indices, hcount, ?_, hindices⟩
  rw [encodeCounted, List.length_map, List.flatMap_def]

theorem slotsOf_of_namesClass {count : UInt16} {index : UInt16} {name : String}
    (hslots : Constant.slotsOf constants = count.toNat - 1)
    (hname : Constant.NamesClass constants index name) :
    1 + Constant.slotsOf constants = count.toNat := by
  obtain ⟨nameIndex, ⟨before, after, rfl, -⟩, -⟩ := hname
  have hone : (Constant.classRef nameIndex).slots = 1 := rfl
  rw [Constant.slotsOf_append, Constant.slotsOf, hone] at hslots ⊢
  omega

theorem takes_read : Takes Header.read 0 fun bytes found => ∃ layout : HeaderLayout,
    bytes = layout.encode ∧ layout.Describes found.2 := by
  rw [read_eq]
  refine (takes_readVersion 0).bind ?_
  rintro _ ⟨minor, major⟩ ⟨holdest, hnewest, rfl⟩
  refine (Pool.takes_read major _).bind ?_
  rintro _ _ ⟨count, constants, hlegal, hslots, rfl, rfl⟩
  rw [readNames]
  simp only [bind_assoc, pure_bind]
  refine .u2_bind fun access => (takes_readClassName _).bind ?_
  rintro _ name ⟨this, rfl, hname⟩
  refine (takes_readSuperName _ _ _).bind ?_
  rintro _ superName ⟨super, rfl, hsuper, hnone⟩
  refine (takes_interfaces _).bind ?_
  rintro _ names ⟨interfaces, hcount, rfl, hinterfaces⟩
  have hslots := slotsOf_of_namesClass hslots hname
  have hbound : 1 + Constant.slotsOf constants ≤ 65535 := by
    have := count.toNat_lt
    omega
  refine .pure ⟨⟨minor, major, constants, ⟨access⟩, this, super, interfaces⟩, ?_, ?_⟩
  · simp [HeaderLayout.encode, HeaderLayout.encodePool, HeaderLayout.encodeNames, hslots]
  · exact ⟨rfl, rfl, holdest, hnewest, hlegal, hbound, rfl, hname, hsuper, hnone, hcount,
      hinterfaces⟩

theorem reads_interfaces {indices : List UInt16} {names : List String} {pos : Nat}
    (hcount : indices.length ≤ 65535)
    (h : List.Forall₂ (Constant.NamesClass constants) indices names) :
    Reads (counted (readClassName (Pool.ofConstants start constants))) pos
      (encodeCounted encodeU2 indices) names :=
  reads_counted hcount (h.imp fun _ _ hname _ =>
    reads_readClassName fun _ => Pool.className_eq_ok.2 hname)

end

section
variable {layout : HeaderLayout} {header : Header}

theorem reads_super (h : layout.Describes header) (start pos : Nat) :
    Reads (readSuperName (Pool.ofConstants start layout.constants) layout.access header.name) pos
      (encodeU2 layout.super) header.superName := by
  by_cases hzero : layout.super = 0
  · obtain ⟨hnone, hroot⟩ := h.noSuper hzero
    rw [h.access] at hroot
    rw [hzero, hnone]
    exact reads_readSuperName_none hroot
  · obtain ⟨name, hname, hclass⟩ := h.superName hzero
    rw [Option.mem_def.1 hname]
    exact reads_readSuperName hzero fun _ => Pool.className_eq_ok.2 hclass

theorem reads_readNames (h : layout.Describes header) (start pos : Nat) :
    Reads (readNames (Pool.ofConstants start layout.constants) layout.minor layout.major) pos
      layout.encodeNames header := by
  have hheader : header = ⟨layout.minor, layout.major, layout.access, header.name,
      header.superName, header.interfaces⟩ := by
    rw [← h.minor, ← h.major, ← h.access]
  rw [HeaderLayout.encodeNames, List.append_assoc, List.append_assoc, hheader]
  refine Reads.bind (.u2 layout.access.bits) (Reads.bind
    (reads_readClassName fun _ => Pool.className_eq_ok.2 h.name) ?_)
  exact Reads.bind (reads_super h start _) (reads_interfaces h.interfaceCount h.interfaces).map

/-- A valid front is read as the header that it means, and with the pool of its entries. -/
theorem reads_read (h : layout.Describes header) :
    Reads Header.read 0 layout.encode (Pool.ofConstants 10 layout.constants, header) := by
  rw [read_eq, HeaderLayout.encode, List.append_assoc]
  refine Reads.bind (reads_readVersion h.oldest h.newest) ?_
  exact Reads.bind (Pool.reads_read 8 h.legal h.slots) (reads_readNames h 10 _).map

end

end Header

/-- The header of a file is read just when the file begins with a valid front of that header. -/
theorem parseHeader_eq_ok_iff_grammar (bytes : Bytes) (header : Header) :
    parseHeader bytes = .ok header ↔ ∃ (layout : HeaderLayout) (rest : Bytes),
      bytes = layout.encode ++ rest ∧ layout.Describes header := by
  rw [parseHeader_eq_ok]
  constructor
  · rintro ⟨pool, cursor, hread⟩
    obtain ⟨_, rest, hbytes, -, layout, rfl, hdescribes⟩ := Header.takes_read hread
    exact ⟨layout, rest, hbytes, hdescribes⟩
  · rintro ⟨layout, rest, rfl, hdescribes⟩
    exact ⟨_, _, Header.reads_read hdescribes rest .truncated⟩

end ClassSieve.ClassFile
