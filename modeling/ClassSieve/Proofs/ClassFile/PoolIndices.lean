import ClassSieve.Proofs.ClassFile.PoolLayout

/-!
# What an index names

An index names the entry that stands so many slots behind the beginning of the pool, if an entry
begins there. A pool read from a list of entries answers for a text or a class by its index just
when the entries say so.
-/
namespace ClassSieve.ClassFile

namespace Constant
variable {constants : List Constant} {index : UInt16} {constant : Constant} {raw : Bytes}
  {name : String}

/-- Whether `index` names the entry `constant` among `constants`. -/
def At (constants : List Constant) (index : UInt16) (constant : Constant) : Prop :=
  ∃ before after, constants = before ++ constant :: after ∧ index.toNat = 1 + slotsOf before

def NamesRaw (constants : List Constant) (index : UInt16) (raw : Bytes) : Prop :=
  At constants index (.text raw)

def NamesText (constants : List Constant) (index : UInt16) (text : String) : Prop :=
  ∃ raw, NamesRaw constants index raw ∧ Text.ModifiedUtf8.decode raw = .ok text

def NamesClass (constants : List Constant) (index : UInt16) (name : String) : Prop :=
  ∃ nameIndex, At constants index (.classRef nameIndex) ∧ NamesText constants nameIndex name

theorem getElem?_layout_iff {pos i : Nat} {found : Slot} (hfound : found ≠ .vacant) :
    (layout pos constants)[i]? = some found ↔
      ∃ before constant after, constants = before ++ constant :: after ∧ i = slotsOf before ∧
        found = constant.slot (pos + (before.flatMap encode).length) := by
  constructor
  · intro h
    induction constants generalizing pos i with
    | nil => simp [layout] at h
    | cons first rest ih =>
      have hrest {j : Nat} (hj : (layout (pos + first.encode.length) rest)[j]? = some found)
          (hi : i = first.slots + j) : ∃ before constant after,
            first :: rest = before ++ constant :: after ∧ i = slotsOf before ∧
              found = constant.slot (pos + (before.flatMap encode).length) := by
        obtain ⟨before, constant, after, rfl, rfl, rfl⟩ := ih hj
        refine ⟨first :: before, constant, after, rfl, hi, ?_⟩
        rw [List.flatMap_cons, List.length_append, Nat.add_assoc]
      rw [layout] at h
      rw [slots_eq] at hrest
      cases i with
      | zero => exact ⟨[], first, rest, rfl, rfl, (Option.some.inj h).symm⟩
      | succ i =>
        cases hwide : first.isWide with
        | false =>
          rw [hwide] at h hrest
          exact hrest h (Nat.add_comm i 1)
        | true =>
          rw [hwide] at h hrest
          cases i with
          | zero => exact absurd (Option.some.inj h).symm hfound
          | succ i => exact hrest h (by rw [if_pos rfl]; omega)
  · rintro ⟨before, constant, after, rfl, rfl, rfl⟩
    exact getElem?_layout pos before after constant

end Constant

namespace Pool

def Holds (pool : Pool) (index : UInt16) (constant : Constant) : Prop :=
  index ≠ 0 ∧ ∃ pos, pool[index.toNat]? = some (constant.slot pos)

section
variable {pool : Pool} {index : UInt16} {raw : Bytes} {name : String}

theorem slot_eq_ok {found : Slot} {offset : Nat} :
    pool.slot index offset = .ok found ↔ index ≠ 0 ∧ pool[index.toNat]? = some found := by
  rw [slot]
  cases pool[index.toNat]? with
  | none => simp
  | some held => by_cases h : index = 0 <;> simp [h]

theorem Holds.slot {constant : Constant} (h : pool.Holds index constant) :
    ∃ pos, ∀ offset, pool.slot index offset = .ok (constant.slot pos) := by
  obtain ⟨hindex, pos, hslot⟩ := h
  exact ⟨pos, fun offset => slot_eq_ok.2 ⟨hindex, hslot⟩⟩

theorem Holds.rawText (h : pool.Holds index (.text raw)) :
    ∃ start, ∀ offset, pool.rawText index offset = .ok (start, raw) := by
  obtain ⟨pos, hslot⟩ := h.slot
  refine ⟨pos + 3, fun offset => ?_⟩
  rw [Pool.rawText, hslot]
  rfl

theorem decodeText_eq_ok {offset : Nat} :
    decodeText offset raw = .ok name ↔ Text.ModifiedUtf8.decode raw = .ok name := by
  rw [decodeText]
  cases Text.ModifiedUtf8.decode raw <;> simp [Except.mapError]

theorem Holds.text (h : pool.Holds index (.text raw))
    (hdecode : Text.ModifiedUtf8.decode raw = .ok name) (offset : Nat) :
    pool.text index offset = .ok name := by
  obtain ⟨start, hraw⟩ := h.rawText
  rw [Pool.text, hraw]
  exact decodeText_eq_ok.2 hdecode

theorem Holds.className {nameIndex : UInt16} (h : pool.Holds index (.classRef nameIndex))
    (htext : ∀ offset, pool.text nameIndex offset = .ok name) (offset : Nat) :
    pool.className index offset = .ok name := by
  obtain ⟨pos, hslot⟩ := h.slot
  rw [Pool.className, hslot]
  exact htext offset

end

open Constant
variable {constants : List Constant} {index : UInt16} {name : String} {pos offset : Nat}

theorem getElem?_ofConstants (pos i : Nat) (constants : List Constant) :
    (ofConstants pos constants)[i + 1]? = (layout pos constants)[i]? := by
  rw [ofConstants, Array.getElem?_append_right (Nat.le_add_left 1 i)]
  simp

theorem holds_of_at {constant : Constant} (h : At constants index constant) (pos : Nat) :
    (ofConstants pos constants).Holds index constant := by
  obtain ⟨before, after, rfl, hindex⟩ := h
  refine ⟨fun hzero => ?_, pos + (before.flatMap encode).length, ?_⟩
  · rw [hzero, UInt16.toNat_zero] at hindex
    omega
  · rw [hindex, Nat.add_comm, getElem?_ofConstants, getElem?_layout]

theorem at_of_slot {found : Slot} (hfound : found ≠ .vacant)
    (h : (ofConstants pos constants).slot index offset = .ok found) :
    ∃ constant start, At constants index constant ∧ found = constant.slot start := by
  obtain ⟨hindex, hslot⟩ := slot_eq_ok.1 h
  obtain ⟨i, hi⟩ : ∃ i, index.toNat = i + 1 :=
    Nat.exists_eq_succ_of_ne_zero fun hzero => hindex (UInt16.toNat_inj.1 hzero)
  rw [hi, getElem?_ofConstants, getElem?_layout_iff hfound] at hslot
  obtain ⟨before, constant, after, hconstants, rfl, hslot⟩ := hslot
  exact ⟨constant, _, ⟨before, after, hconstants, hi.trans (Nat.add_comm _ 1)⟩, hslot⟩

theorem namesRaw_unique {raw other : Bytes} (h : NamesRaw constants index raw)
    (hother : NamesRaw constants index other) : raw = other := by
  obtain ⟨start, hraw⟩ := (holds_of_at h 0).rawText
  obtain ⟨start', hraw'⟩ := (holds_of_at hother 0).rawText
  exact congrArg Prod.snd (Except.ok.inj ((hraw 0).symm.trans (hraw' 0)))

theorem names_of_rawText {start : Nat} {raw : Bytes}
    (h : (ofConstants pos constants).rawText index offset = .ok (start, raw)) :
    NamesRaw constants index raw := by
  obtain ⟨found, hslot, h⟩ := except_bind_eq_ok.1 h
  cases found with
  | text first held =>
    cases h
    obtain ⟨constant, start', hat, hfound⟩ := at_of_slot Slot.noConfusion hslot
    cases constant with
    | text held =>
      cases hfound
      exact hat
    | _ => cases hfound
  | _ => cases h

theorem text_eq_ok {text : String} :
    (ofConstants pos constants).text index offset = .ok text ↔ NamesText constants index text := by
  constructor
  · intro h
    obtain ⟨found, hraw, h⟩ := except_bind_eq_ok.1 h
    exact ⟨found.2, names_of_rawText hraw, decodeText_eq_ok.1 h⟩
  · rintro ⟨raw, hnames, hdecode⟩
    exact (holds_of_at hnames pos).text hdecode offset

theorem className_eq_ok :
    (ofConstants pos constants).className index offset = .ok name ↔
      NamesClass constants index name := by
  constructor
  · intro h
    obtain ⟨found, hslot, h⟩ := except_bind_eq_ok.1 h
    cases found with
    | classRef nameIndex =>
      obtain ⟨constant, start, hat, hfound⟩ := at_of_slot Slot.noConfusion hslot
      cases constant with
      | classRef held =>
        cases hfound
        exact ⟨nameIndex, hat, text_eq_ok.1 h⟩
      | _ => cases hfound
    | _ => cases h
  · rintro ⟨nameIndex, hat, hname⟩
    exact (holds_of_at hat pos).className (fun _ => text_eq_ok.2 hname) offset

end Pool

end ClassSieve.ClassFile
