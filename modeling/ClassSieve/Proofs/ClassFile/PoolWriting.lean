import ClassSieve.Proofs.ClassFile.PoolIndices
import ClassSieve.Proofs.Text.ModifiedUtf8

/-!
# Indices into a drafted pool

An index that a draft hands out names the same entry ever after, since entries are only added at
the end. `PoolWriter.Writes major w post` says that `w` keeps a draft sound, adds entries only, and
yields a value of which `post` holds in every pool that serves the draft it leaves.
-/
namespace ClassSieve.ClassFile
open Text (ModifiedUtf8.encode)

def Pool.HoldsText (pool : Pool) (index : UInt16) (text : String) : Prop :=
  pool.Holds index (.text (ModifiedUtf8.encode text))

def Pool.HoldsClass (pool : Pool) (index : UInt16) (name : String) : Prop :=
  ∃ nameIndex, pool.Holds index (.classRef nameIndex) ∧ pool.HoldsText nameIndex name

namespace Pool
variable {pool : Pool} {index : UInt16} {name : String}

theorem HoldsText.text (h : pool.HoldsText index name) (offset : Nat) :
    pool.text index offset = .ok name :=
  Holds.text h (Text.ModifiedUtf8.decode_encode name) offset

theorem HoldsClass.className (h : pool.HoldsClass index name) (offset : Nat) :
    pool.className index offset = .ok name := by
  obtain ⟨nameIndex, hclass, htext⟩ := h
  exact Holds.className hclass htext.text offset

theorem HoldsClass.ne_zero (h : pool.HoldsClass index name) : index ≠ 0 := by
  obtain ⟨_, hclass, _⟩ := h
  exact hclass.1

end Pool

namespace PoolDraft

def Holds (draft : PoolDraft) (index : UInt16) (constant : Constant) : Prop :=
  ∃ before after, draft.constants.toList = before ++ constant :: after ∧
    index = UInt16.ofNat (1 + Constant.slotsOf before)

def ServedBy (draft : PoolDraft) (pool : Pool) : Prop :=
  ∀ index constant, draft.Holds index constant → pool.Holds index constant

structure Sound (major : UInt16) (draft : PoolDraft) : Prop where
  next : draft.next = 1 + Constant.slotsOf draft.constants.toList
  texts : ∀ text index, (text, index) ∈ draft.texts →
    draft.Holds index (.text (ModifiedUtf8.encode text))
  classes : ∀ name index, (name, index) ∈ draft.classes → ∃ nameIndex,
    draft.Holds index (.classRef nameIndex) ∧
      draft.Holds nameIndex (.text (ModifiedUtf8.encode name))
  legal : ∀ constant ∈ draft.constants.toList, constant.Legal major

def Extends (later draft : PoolDraft) : Prop :=
  draft.constants.toList <+: later.constants.toList

variable {major : UInt16} {draft later : PoolDraft} {index : UInt16} {constant : Constant}

theorem Holds.extend (h : draft.Holds index constant) (hlater : later.Extends draft) :
    later.Holds index constant := by
  obtain ⟨before, after, hconstants, rfl⟩ := h
  obtain ⟨added, hadded⟩ := hlater
  refine ⟨before, after ++ added, ?_, rfl⟩
  rw [← hadded, hconstants, List.append_assoc, List.cons_append]

theorem ServedBy.of_extends {pool : Pool} (h : later.ServedBy pool)
    (hlater : later.Extends draft) : draft.ServedBy pool :=
  fun index constant hholds => h index constant (hholds.extend hlater)

theorem sound_empty (major : UInt16) : Sound major empty where
  next := rfl
  texts _ _ h := by cases h
  classes _ _ h := by cases h
  legal _ h := by cases h

theorem Sound.servedBy_layout (h : Sound major draft) (hnext : draft.next ≤ 65535) (pos : Nat) :
    draft.ServedBy (Pool.ofConstants pos draft.constants.toList) := by
  rintro index constant ⟨before, after, hconstants, rfl⟩
  have hslots : 1 + Constant.slotsOf before < 65536 := by
    have hall := h.next
    rw [hconstants, Constant.slotsOf_append] at hall
    omega
  refine Pool.holds_of_at ⟨before, after, hconstants, ?_⟩ pos
  rw [UInt16.toNat_ofNat', Nat.mod_eq_of_lt hslots]

end PoolDraft

namespace PoolWriter
open PoolDraft

variable {α β : Type} {major : UInt16}

structure Writes (major : UInt16) (w : PoolWriter α) (post : Pool → α → Prop) : Prop where
  sound : ∀ {draft}, Sound major draft → Sound major (w.run draft).2
  extend : ∀ {draft}, Sound major draft → (w.run draft).2.Extends draft
  post : ∀ {draft pool}, Sound major draft → (w.run draft).2.ServedBy pool →
    post pool (w.run draft).1

theorem run_bind (w : PoolWriter α) (f : α → PoolWriter β) (draft : PoolDraft) :
    (w >>= f).run draft = (f (w.run draft).1).run (w.run draft).2 := rfl

theorem run_get (draft : PoolDraft) : (get : PoolWriter PoolDraft).run draft = (draft, draft) := rfl

variable {w : PoolWriter α} {f : α → PoolWriter β} {P Q : Pool → α → Prop} {R : Pool → β → Prop}

theorem Writes.pure {a : α} (h : ∀ pool, P pool a) : Writes major (Pure.pure a) P where
  sound hdraft := hdraft
  extend _ := List.prefix_refl _
  post _ _ := h _

theorem Writes.bind_of {S : α → Prop} (hw : Writes major w P) (hvalue : ∀ draft, S (w.run draft).1)
    (hf : ∀ a, S a → Writes major (f a) fun pool b => P pool a → R pool b) :
    Writes major (w >>= f) R where
  sound hdraft := (hf _ (hvalue _)).sound (hw.sound hdraft)
  extend hdraft := (hw.extend hdraft).trans ((hf _ (hvalue _)).extend (hw.sound hdraft))
  post hdraft hserved :=
    (hf _ (hvalue _)).post (hw.sound hdraft) hserved
      (hw.post hdraft (hserved.of_extends ((hf _ (hvalue _)).extend (hw.sound hdraft))))

theorem Writes.bind (hw : Writes major w P)
    (hf : ∀ a, Writes major (f a) fun pool b => P pool a → R pool b) :
    Writes major (w >>= f) R :=
  hw.bind_of (S := fun _ => True) (fun _ => trivial) fun a _ => hf a

theorem Writes.mono (hw : Writes major w P) (h : ∀ pool a, P pool a → Q pool a) :
    Writes major w Q :=
  ⟨hw.sound, hw.extend, fun hdraft hserved => h _ _ (hw.post hdraft hserved)⟩

theorem Writes.seq (hw : Writes major w P) (hf : ∀ a, Writes major (f a) R) :
    Writes major (w >>= f) R :=
  hw.bind fun a => (hf a).mono fun _ _ hpost _ => hpost

theorem Writes.when {c : Prop} [Decidable c] {other : PoolWriter α} (hother : Writes major other P)
    (hw : c → Writes major other P → Writes major w P) :
    Writes major (if c then w else other) P := by
  split
  · exact hw ‹c› hother
  · exact hother

theorem Writes.mapM {γ : Type} {write : γ → PoolWriter α} {Q : γ → Pool → α → Prop} {items : List γ}
    (h : ∀ item ∈ items, Writes major (write item) (Q item)) :
    Writes major (items.mapM write) fun pool =>
      List.Forall₂ (fun item a => Q item pool a) items := by
  induction items with
  | nil =>
    rw [List.mapM_nil]
    exact .pure fun _ => .nil
  | cons item rest ih =>
    obtain ⟨hitem, hrest⟩ := List.forall_mem_cons.1 h
    rw [List.mapM_cons]
    refine hitem.bind fun a => (ih hrest).bind fun others => ?_
    exact .pure fun pool hothers ha => .cons ha hothers

end PoolWriter

namespace PoolDraft
variable {major : UInt16} {draft : PoolDraft} {index : UInt16} {constant : Constant} {name : String}

theorem Sound.addText (h : Sound major draft)
    (hholds : draft.Holds index (.text (ModifiedUtf8.encode name))) :
    Sound major { draft with texts := (name, index) :: draft.texts } where
  next := h.next
  texts text found hfound := by
    rcases List.mem_cons.1 hfound with heq | hmem
    · cases heq
      exact hholds
    · exact h.texts text found hmem
  classes := h.classes
  legal := h.legal

theorem Sound.addClass {nameIndex : UInt16} (h : Sound major draft)
    (hclass : draft.Holds index (.classRef nameIndex))
    (htext : draft.Holds nameIndex (.text (ModifiedUtf8.encode name))) :
    Sound major { draft with classes := (name, index) :: draft.classes } where
  next := h.next
  texts := h.texts
  classes other found hfound := by
    rcases List.mem_cons.1 hfound with heq | hmem
    · cases heq
      exact ⟨nameIndex, hclass, htext⟩
    · exact h.classes other found hmem
  legal := h.legal

structure Enters (major : UInt16) (draft : PoolDraft) (constant : Constant)
    (result : UInt16 × PoolDraft) : Prop where
  sound : Sound major result.2
  extend : result.2.Extends draft
  holds : result.2.Holds result.1 constant

theorem enters_push (h : Sound major draft) (hlegal : constant.Legal major) :
    Enters major draft constant ((PoolWriter.push constant).run draft) := by
  have hconstants : (draft.constants.push constant).toList = draft.constants.toList ++ [constant] :=
    Array.toList_push
  have hextends : ((PoolWriter.push constant).run draft).2.Extends draft :=
    ⟨[constant], hconstants.symm⟩
  refine ⟨⟨?_, ?_, ?_, ?_⟩, hextends, draft.constants.toList, [], hconstants, ?_⟩
  · change draft.next + constant.slots = 1 + Constant.slotsOf (draft.constants.push constant).toList
    rw [hconstants, Constant.slotsOf_append, h.next, Nat.add_assoc]
    rfl
  · exact fun text index hmem => (h.texts text index hmem).extend hextends
  · intro name index hmem
    obtain ⟨nameIndex, hclass, htext⟩ := h.classes name index hmem
    exact ⟨nameIndex, hclass.extend hextends, htext.extend hextends⟩
  · intro other hother
    change other ∈ (draft.constants.push constant).toList at hother
    rw [hconstants, List.mem_append, List.mem_singleton] at hother
    rcases hother with hother | rfl
    · exact h.legal other hother
    · exact hlegal
  · change UInt16.ofNat draft.next = _
    rw [h.next]

theorem mem_of_lookup {table : List (String × UInt16)} (h : table.lookup name = some index) :
    (name, index) ∈ table := by
  obtain ⟨before, after, rfl, -⟩ := List.lookup_eq_some_iff.1 h
  exact List.mem_append_right before List.mem_cons_self

theorem enters_text (h : Sound major draft)
    (hlegal : (Constant.text (ModifiedUtf8.encode name)).Legal major) :
    Enters major draft (.text (ModifiedUtf8.encode name)) ((PoolWriter.text name).run draft) := by
  cases hlookup : draft.texts.lookup name with
  | some index =>
    have hrun : (PoolWriter.text name).run draft = (index, draft) := by
      simp only [PoolWriter.text, PoolWriter.run_bind, PoolWriter.run_get, hlookup]
      rfl
    rw [hrun]
    exact ⟨h, List.prefix_refl _, h.texts name index (mem_of_lookup hlookup)⟩
  | none =>
    have hpush := enters_push h hlegal
    rcases hentered : (PoolWriter.push (.text (ModifiedUtf8.encode name))).run draft with
      ⟨index, later⟩
    rw [hentered] at hpush
    have hrun : (PoolWriter.text name).run draft =
        (index, { later with texts := (name, index) :: later.texts }) := by
      simp only [PoolWriter.text, PoolWriter.run_bind, PoolWriter.run_get, hlookup, hentered]
      rfl
    rw [hrun]
    exact ⟨hpush.sound.addText hpush.holds, hpush.extend, hpush.holds⟩

theorem enters_classRef (hmajor : 45 ≤ major) (h : Sound major draft)
    (hlegal : (Constant.text (ModifiedUtf8.encode name)).Legal major) :
    ∃ nameIndex, Enters major draft (.classRef nameIndex) ((PoolWriter.classRef name).run draft) ∧
      ((PoolWriter.classRef name).run draft).2.Holds nameIndex
        (.text (ModifiedUtf8.encode name)) := by
  cases hlookup : draft.classes.lookup name with
  | some index =>
    have hrun : (PoolWriter.classRef name).run draft = (index, draft) := by
      simp only [PoolWriter.classRef, PoolWriter.run_bind, PoolWriter.run_get, hlookup]
      rfl
    obtain ⟨nameIndex, hclass, htext⟩ :=
      h.classes name index (mem_of_lookup hlookup)
    rw [hrun]
    exact ⟨nameIndex, ⟨h, List.prefix_refl _, hclass⟩, htext⟩
  | none =>
    have htext := enters_text h hlegal
    rcases hentered : (PoolWriter.text name).run draft with ⟨nameIndex, middle⟩
    rw [hentered] at htext
    have hpush := enters_push htext.sound (Constant.legal_classRef nameIndex hmajor)
    rcases hpushed : (PoolWriter.push (.classRef nameIndex)).run middle with ⟨index, later⟩
    rw [hpushed] at hpush
    have hrun : (PoolWriter.classRef name).run draft =
        (index, { later with classes := (name, index) :: later.classes }) := by
      simp only [PoolWriter.classRef, PoolWriter.run_bind, PoolWriter.run_get, hlookup, hentered,
        hpushed]
      rfl
    have hname := htext.holds.extend hpush.extend
    rw [hrun]
    exact ⟨nameIndex, ⟨hpush.sound.addClass hpush.holds hname,
      htext.extend.trans hpush.extend, hpush.holds⟩, hname⟩

end PoolDraft

namespace PoolWriter
open PoolDraft

variable {major : UInt16}

theorem writes_push {constant : Constant} (h : constant.Legal major) :
    Writes major (push constant) fun pool index => pool.Holds index constant where
  sound hdraft := (enters_push hdraft h).sound
  extend hdraft := (enters_push hdraft h).extend
  post hdraft hserved := hserved _ _ (enters_push hdraft h).holds

theorem writes_text {name : String} (h : (Constant.text (ModifiedUtf8.encode name)).Legal major) :
    Writes major (text name) fun pool index => pool.HoldsText index name where
  sound hdraft := (enters_text hdraft h).sound
  extend hdraft := (enters_text hdraft h).extend
  post hdraft hserved := hserved _ _ (enters_text hdraft h).holds

theorem writes_classRef {name : String} (hmajor : 45 ≤ major)
    (h : (Constant.text (ModifiedUtf8.encode name)).Legal major) :
    Writes major (classRef name) fun pool index => pool.HoldsClass index name where
  sound hdraft := by
    obtain ⟨_, hentered, -⟩ := enters_classRef hmajor hdraft h
    exact hentered.sound
  extend hdraft := by
    obtain ⟨_, hentered, -⟩ := enters_classRef hmajor hdraft h
    exact hentered.extend
  post hdraft hserved := by
    obtain ⟨nameIndex, hentered, htext⟩ := enters_classRef hmajor hdraft h
    exact ⟨nameIndex, hserved _ _ hentered.holds, hserved _ _ htext⟩

theorem writes_other {tag : UInt8} {body : Bytes} (layout : TagLayout)
    (htag : tagLayout? tag = some layout) (hsince : layout.since ≤ major) (hclass : tag ≠ classTag)
    (hwidth : layout.width = some body.length) :
    Writes major (push (.other tag body layout.wide)) fun _ _ => True :=
  (writes_push (Constant.legal_other layout htag hsince hclass hwidth)).mono fun _ _ _ => trivial

theorem writes_integer (hmajor : 45 ≤ major) (value : UInt32) :
    Writes major (integer value) fun _ _ => True :=
  writes_other ⟨some 4, false, 45⟩ rfl hmajor (by decide) rfl

theorem writes_nameAndType {name descriptor : String} (hmajor : 45 ≤ major)
    (hname : (Constant.text (ModifiedUtf8.encode name)).Legal major)
    (hdescriptor : (Constant.text (ModifiedUtf8.encode descriptor)).Legal major) :
    Writes major (nameAndType name descriptor) fun _ _ => True := by
  refine .seq (writes_text hname) fun nameIndex => ?_
  refine .seq (writes_text hdescriptor) fun descriptorIndex => ?_
  exact writes_other ⟨some 4, false, 45⟩ rfl hmajor (by decide) rfl

theorem writes_everyKind (hmajor : 45 ≤ major) :
    Writes major (everyKind major) fun _ _ => True := by
  have hlegal {name : String} (h : (ModifiedUtf8.encode name).length ≤ 65535) :=
    Constant.legal_text hmajor h
  rw [everyKind]
  refine .seq (writes_other ⟨some 8, true, 45⟩ rfl hmajor (by decide) rfl) fun _ => ?_
  refine .seq (writes_integer hmajor _) fun _ => ?_
  refine .seq (writes_other ⟨some 4, false, 45⟩ rfl hmajor (by decide) rfl) fun _ => ?_
  refine .seq (writes_other ⟨some 8, true, 45⟩ rfl hmajor (by decide) rfl) fun _ => ?_
  refine .seq (writes_text (hlegal (by decide +kernel))) fun text => ?_
  refine .seq (writes_other ⟨some 2, false, 45⟩ rfl hmajor (by decide) rfl) fun _ => ?_
  refine .seq (writes_classRef hmajor (hlegal (by decide +kernel))) fun owner => ?_
  refine .seq (writes_nameAndType hmajor (hlegal (by decide +kernel))
    (hlegal (by decide +kernel))) fun constructor => ?_
  refine .seq (writes_nameAndType hmajor (hlegal (by decide +kernel))
    (hlegal (by decide +kernel))) fun field => ?_
  refine .seq (writes_other ⟨some 4, false, 45⟩ rfl hmajor (by decide) rfl) fun method => ?_
  refine .seq (writes_other ⟨some 4, false, 45⟩ rfl hmajor (by decide) rfl) fun _ => ?_
  refine .seq (writes_other ⟨some 4, false, 45⟩ rfl hmajor (by decide) rfl) fun _ => ?_
  -- Each test on the version is left for the same entries behind it.
  refine .when (.when (.when ?_ fun h53 hrest => ?_) fun h55 hrest => ?_) fun h51 hrest => ?_
  · refine .seq (writes_other ⟨some 8, true, 45⟩ rfl hmajor (by decide) rfl) fun _ => ?_
    exact .pure fun _ => trivial
  · refine .seq (writes_text (hlegal (by decide +kernel))) fun text => ?_
    refine .seq (writes_other ⟨some 2, false, 53⟩ rfl h53 (by decide) rfl) fun _ => ?_
    refine .seq (writes_text (hlegal (by decide +kernel))) fun text => ?_
    exact .seq (writes_other ⟨some 2, false, 53⟩ rfl h53 (by decide) rfl) fun _ => hrest
  · exact .seq (writes_other ⟨some 4, false, 55⟩ rfl h55 (by decide) rfl) fun _ => hrest
  · refine .seq (writes_other ⟨some 3, false, 51⟩ rfl h51 (by decide) rfl) fun _ => ?_
    refine .seq (writes_text (hlegal (by decide +kernel))) fun text => ?_
    refine .seq (writes_other ⟨some 2, false, 51⟩ rfl h51 (by decide) rfl) fun _ => ?_
    exact .seq (writes_other ⟨some 4, false, 51⟩ rfl h51 (by decide) rfl) fun _ => hrest

end PoolWriter

end ClassSieve.ClassFile
