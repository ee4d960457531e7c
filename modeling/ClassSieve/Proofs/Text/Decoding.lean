import ClassSieve.Proofs.Text.ModifiedUtf8

/-!
# What modified UTF-8 accepts

The bytes that can be decoded are rows of units whose surrogates stand in pairs. Of bytes that are
no row of units the fault is told by the grammar alone: it is the first byte that no row can have
there, or the end of the bytes where a unit is cut short.
-/
namespace ClassSieve.Text

/-- Units in which each surrogate stands in a pair, the high one in front. -/
inductive Paired : List UInt16 → Prop
  | nil : Paired []
  | single {u : UInt16} {us : List UInt16} (hhigh : isHighSurrogate u = false)
    (hlow : isLowSurrogate u = false) (hus : Paired us) : Paired (u :: us)
  | pair {high low : UInt16} {us : List UInt16} (hhigh : isHighSurrogate high = true)
    (hlow : isLowSurrogate low = true) (hus : Paired us) : Paired (high :: low :: us)

theorem toNat_of_not_surrogate {u : UInt16} (hhigh : isHighSurrogate u = false)
    (hlow : isLowSurrogate u = false) : u.toNat < 0xD800 ∨ 0xE000 ≤ u.toNat := by
  simp only [isHighSurrogate, isLowSurrogate, Bool.and_eq_false_iff,
    decide_eq_false_iff_not] at hhigh hlow
  omega

theorem toNat_charOfNat {n : Nat} (h : n.isValidChar) : (Char.ofNat n).toNat = n := by
  rw [Char.ofNat, dif_pos h]
  rfl

theorem unitsOf_single {u : UInt16} (hu : u.toNat < 0xD800 ∨ 0xE000 ≤ u.toNat) :
    unitsOf (Char.ofNat u.toNat) = [u] := by
  have hlt := u.toNat_lt
  have hvalid : u.toNat.isValidChar := by
    rw [Nat.isValidChar]
    omega
  rw [unitsOf, toNat_charOfNat hvalid, if_pos (by omega), UInt16.ofNat_toNat]

theorem unitsOf_pair {high low : UInt16} (hhigh : isHighSurrogate high = true)
    (hlow : isLowSurrogate low = true) : unitsOf (pairedChar high low) = [high, low] := by
  simp only [isHighSurrogate, isLowSurrogate, Bool.and_eq_true, decide_eq_true_eq] at hhigh hlow
  let n := 0x10000 + (high.toNat - 0xD800) * 0x400 + (low.toNat - 0xDC00)
  have hvalid : n.isValidChar := by
    rw [Nat.isValidChar]
    omega
  have hfront : 0xD800 + (n - 0x10000) / 0x400 = high.toNat := by omega
  have hback : 0xDC00 + (n - 0x10000) % 0x400 = low.toNat := by omega
  have hchar : (pairedChar high low).toNat = n := toNat_charOfNat hvalid
  rw [unitsOf, hchar, if_neg (by omega), hfront, hback, UInt16.ofNat_toNat, UInt16.ofNat_toNat]

theorem paired_units_cons (c : Char) {us : List UInt16} (hus : Paired us) :
    Paired (unitsOf c ++ us) := by
  have hc := char_toNat_ranges c
  rw [unitsOf]
  split
  · have hu : (UInt16.ofNat c.toNat).toNat = c.toNat := by
      rw [UInt16.toNat_ofNat']
      omega
    refine .single ?_ ?_ hus
    · simp only [isHighSurrogate, hu, Bool.and_eq_false_iff, decide_eq_false_iff_not]
      omega
    · simp only [isLowSurrogate, hu, Bool.and_eq_false_iff, decide_eq_false_iff_not]
      omega
  · refine .pair ?_ ?_ hus
    · simp only [isHighSurrogate, UInt16.toNat_ofNat', Bool.and_eq_true, decide_eq_true_eq]
      omega
    · simp only [isLowSurrogate, UInt16.toNat_ofNat', Bool.and_eq_true, decide_eq_true_eq]
      omega

theorem paired_units (cs : List Char) : Paired (units cs) := by
  induction cs with
  | nil => exact .nil
  | cons c cs ih => exact paired_units_cons c ih

theorem Paired.exists_units {us : List UInt16} (h : Paired us) : ∃ cs, units cs = us := by
  induction h with
  | nil => exact ⟨[], rfl⟩
  | @single u us hhigh hlow _ ih =>
    obtain ⟨cs, rfl⟩ := ih
    have hu := unitsOf_single (toNat_of_not_surrogate hhigh hlow)
    exact ⟨Char.ofNat u.toNat :: cs, by rw [units, List.flatMap_cons, hu]; rfl⟩
  | @pair high low us hhigh hlow _ ih =>
    obtain ⟨cs, rfl⟩ := ih
    exact ⟨pairedChar high low :: cs, by
      rw [units, List.flatMap_cons, unitsOf_pair hhigh hlow]; rfl⟩

theorem paired_of_ofUnits? {us : List UInt16} {cs : List Char} (h : ofUnits? us = some cs) :
    Paired us := by
  fun_induction ofUnits? us generalizing cs with
  | case1 => exact .nil
  | case2 u hu => cases h
  | case3 u hu =>
    rw [Bool.or_eq_true, not_or, Bool.not_eq_true, Bool.not_eq_true] at hu
    exact .single hu.1 hu.2 .nil
  | case4 u v rest hu hv ih =>
    obtain ⟨ds, hds, -⟩ := Option.map_eq_some_iff.1 h
    exact .pair hu hv (ih hds)
  | case5 u v rest hu hv => cases h
  | case6 u v rest hu hv => cases h
  | case7 u v rest hu hv ih =>
    obtain ⟨ds, hds, -⟩ := Option.map_eq_some_iff.1 h
    exact .single (Bool.not_eq_true _ ▸ hu) (Bool.not_eq_true _ ▸ hv) (ih hds)

theorem ofUnits?_eq_some_iff {us : List UInt16} {cs : List Char} :
    ofUnits? us = some cs ↔ units cs = us := by
  constructor
  · intro h
    obtain ⟨ds, rfl⟩ := (paired_of_ofUnits? h).exists_units
    rw [ofUnits?_units, Option.some_inj] at h
    rw [h]
  · rintro rfl
    exact ofUnits?_units cs

theorem paired_iff {us : List UInt16} : Paired us ↔ ∃ cs, units cs = us :=
  ⟨Paired.exists_units, fun ⟨cs, hcs⟩ => hcs ▸ paired_units cs⟩

namespace ModifiedUtf8

def spell (forms : List UnitForm) : List UInt8 := forms.flatMap UnitForm.bytes

def Starts (bs : List UInt8) : Prop := ∃ forms, bs <+: spell forms

/-- Where bytes leave the grammar of units. -/
inductive BreaksAt (raw : List UInt8) : Nat → Prop
  | byte (before : List UInt8) {after : List UInt8} {b : UInt8} (hraw : raw = before ++ b :: after)
    (hbefore : Starts before) (hbyte : ¬ Starts (before ++ [b])) : BreaksAt raw before.length
  | cut (hstarts : Starts raw) (hrow : ∀ forms, raw ≠ spell forms) : BreaksAt raw raw.length

variable {raw rest bs cs : List UInt8} {forms : List UnitForm} {u : UInt16} {pos n : Nat}

theorem spell_cons (form : UnitForm) (forms : List UnitForm) :
    spell (form :: forms) = form.bytes ++ spell forms := List.flatMap_cons

theorem spell_append_eq_iff (form : UnitForm) :
    form.bytes ++ bs = spell forms ↔ ∃ others, forms = form :: others ∧ bs = spell others := by
  constructor
  · intro h
    cases forms with
    | nil =>
      have hnil := (List.append_eq_nil_iff.1 h).1
      cases form <;> cases hnil
    | cons first forms =>
      rw [spell_cons] at h
      obtain ⟨rfl, hbs⟩ := UnitForm.append_inj h
      exact ⟨forms, rfl, hbs⟩
  · rintro ⟨others, rfl, rfl⟩
    exact (spell_cons form others).symm

theorem starts_append_iff (form : UnitForm) : Starts (form.bytes ++ bs) ↔ Starts bs := by
  constructor
  · rintro ⟨forms, tail, htail⟩
    rw [List.append_assoc, spell_append_eq_iff] at htail
    obtain ⟨others, -, hbs⟩ := htail
    exact ⟨others, tail, hbs⟩
  · rintro ⟨forms, tail, htail⟩
    refine ⟨form :: forms, tail, ?_⟩
    rw [spell_cons, List.append_assoc, htail]

theorem Starts.of_prefix (h : Starts cs) (hbs : bs <+: cs) : Starts bs := by
  obtain ⟨forms, hforms⟩ := h
  exact ⟨forms, hbs.trans hforms⟩

theorem BreaksAt.append (form : UnitForm) (h : BreaksAt rest n) :
    BreaksAt (form.bytes ++ rest) (form.bytes.length + n) := by
  cases h with
  | @byte before after b hraw hbefore hbyte =>
    rw [← List.length_append]
    have hsplit : form.bytes ++ rest = form.bytes ++ before ++ b :: after := by
      rw [hraw, List.append_assoc]
    refine .byte _ hsplit ?_ ?_
    · rwa [starts_append_iff]
    · rwa [List.append_assoc, starts_append_iff]
  | cut hstarts hrow =>
    rw [← List.length_append]
    refine .cut ((starts_append_iff form).2 hstarts) fun forms hforms => ?_
    obtain ⟨others, -, hrest⟩ := (spell_append_eq_iff form).1 hforms
    exact hrow others hrest

inductive Outcome (pos : Nat) (raw : List UInt8) : Except Nat (List UInt16) → Prop
  | row (forms : List UnitForm) (hraw : raw = spell forms) :
    Outcome pos raw (.ok (forms.map UnitForm.unit))
  | fault {n : Nat} (hbreaks : BreaksAt raw n) : Outcome pos raw (.error (pos + n))

theorem Outcome.append {result : Except Nat (List UInt16)} (hbs : UnitBytes bs u)
    (h : Outcome (pos + bs.length) rest result) :
    Outcome pos (bs ++ rest) (result.map (u :: ·)) := by
  obtain ⟨form, rfl, rfl⟩ := hbs.exists_form
  cases h with
  | row forms hraw =>
    rw [hraw, ← spell_cons]
    exact .row (form :: forms) rfl
  | fault hbreaks =>
    rw [Except.map, Nat.add_assoc]
    exact .fault (hbreaks.append form)

theorem Starts.exists_unitBytes (h : Starts bs) (hne : bs ≠ []) :
    ∃ cs u, UnitBytes cs u ∧ (bs <+: cs ∨ cs <+: bs) := by
  obtain ⟨forms, hforms⟩ := h
  cases forms with
  | nil => exact absurd (List.prefix_nil.1 hforms) hne
  | cons form forms =>
    rw [spell_cons] at hforms
    exact ⟨form.bytes, form.unit, form.unitBytes,
      List.prefix_or_prefix_of_prefix hforms (List.prefix_append _ _)⟩

theorem UnitBytes.starts (h : UnitBytes cs u) (hbs : bs <+: cs) : Starts bs := by
  obtain ⟨form, rfl, -⟩ := h.exists_form
  exact ⟨[form], by rwa [spell_cons, spell, List.flatMap_nil, List.append_nil]⟩

theorem exists_unitBytes_of_row (hraw : raw = spell forms) (hne : raw ≠ []) :
    ∃ cs u, UnitBytes cs u ∧ cs <+: raw := by
  cases forms with
  | nil => exact absurd hraw hne
  | cons form forms =>
    rw [spell_cons] at hraw
    exact ⟨form.bytes, form.unit, form.unitBytes, hraw ▸ List.prefix_append _ _⟩

theorem cons_comparable {a d : UInt8} {ds : List UInt8}
    (h : a :: bs <+: d :: ds ∨ d :: ds <+: a :: bs) : a = d ∧ (bs <+: ds ∨ ds <+: bs) := by
  rcases h with hshort | hlong
  · obtain ⟨rfl, hbs⟩ := List.cons_prefix_cons.1 hshort
    exact ⟨rfl, .inl hbs⟩
  · obtain ⟨rfl, hbs⟩ := List.cons_prefix_cons.1 hlong
    exact ⟨rfl, .inr hbs⟩

theorem mem_of_mem_take {d : UInt8} {ds : List UInt8} (h : bs <+: ds ∨ ds <+: bs)
    (hd : d ∈ bs.take ds.length) : d ∈ ds := by
  rcases h with hshort | hlong
  · exact hshort.subset (List.mem_of_mem_take hd)
  · rwa [← List.prefix_iff_eq_take.1 hlong] at hd

section
variable {a b c : UInt8}

theorem Starts.ranges (h : Starts (a :: bs)) :
    a.toNat < 0x80 ∨
      (0xC0 ≤ a.toNat ∧ a.toNat < 0xE0) ∧ (∀ d ∈ bs.take 1, isTail d = true) ∨
      (0xE0 ≤ a.toNat ∧ a.toNat < 0xF0) ∧ (∀ d ∈ bs.take 2, isTail d = true) := by
  obtain ⟨cs, u, hcs, hprefix⟩ := h.exists_unitBytes (List.cons_ne_nil _ _)
  cases hcs with
  | one ha =>
    obtain ⟨rfl, -⟩ := cons_comparable hprefix
    exact .inl ha
  | two ha hb =>
    obtain ⟨rfl, htail⟩ := cons_comparable hprefix
    refine .inr (.inl ⟨ha, fun d hd => ?_⟩)
    rwa [List.mem_singleton.1 (mem_of_mem_take htail hd)]
  | three ha hb hc =>
    obtain ⟨rfl, htail⟩ := cons_comparable hprefix
    refine .inr (.inr ⟨ha, fun d hd => ?_⟩)
    obtain rfl | hmem := List.mem_cons.1 (mem_of_mem_take htail hd)
    · exact hb
    · rwa [List.mem_singleton.1 hmem]

theorem not_starts_first (hone : ¬ a.toNat < 0x80) (htwo : ¬ (0xC0 ≤ a.toNat ∧ a.toNat < 0xE0))
    (hthree : ¬ (0xE0 ≤ a.toNat ∧ a.toNat < 0xF0)) : ¬ Starts [a] := by
  intro h
  rcases h.ranges with ha | ⟨ha, -⟩ | ⟨ha, -⟩
  · exact hone ha
  · exact htwo ha
  · exact hthree ha

theorem not_starts_second (hone : ¬ a.toNat < 0x80) (hb : ¬ isTail b = true) :
    ¬ Starts [a, b] := by
  intro h
  rcases h.ranges with ha | ⟨-, htail⟩ | ⟨-, htail⟩
  · exact hone ha
  · exact hb (htail b (by simp))
  · exact hb (htail b (by simp))

theorem not_starts_third (ha : 0xE0 ≤ a.toNat) (hc : ¬ isTail c = true) :
    ¬ Starts [a, b, c] := by
  intro h
  rcases h.ranges with hone | ⟨htwo, -⟩ | ⟨-, htail⟩
  · omega
  · omega
  · exact hc (htail c (by simp))

theorem starts_first (ha : 0xC0 ≤ a.toNat ∧ a.toNat < 0xF0) : Starts [a] := by
  by_cases htwo : a.toNat < 0xE0
  · exact (UnitBytes.two (b := 0x80) ⟨ha.1, htwo⟩ (by decide)).starts (List.prefix_append [a] _)
  · exact (UnitBytes.three (b := 0x80) (c := 0x80) (by omega) (by decide) (by decide)).starts
      (List.prefix_append [a] _)

theorem starts_second (ha : 0xE0 ≤ a.toNat ∧ a.toNat < 0xF0) (hb : isTail b = true) :
    Starts [a, b] :=
  (UnitBytes.three (c := 0x80) ha hb (by decide)).starts (List.prefix_append [a, b] _)

theorem ne_row_first (hone : ¬ a.toNat < 0x80) (forms : List UnitForm) : [a] ≠ spell forms := by
  intro hraw
  obtain ⟨cs, u, hcs, hprefix⟩ := exists_unitBytes_of_row hraw (List.cons_ne_nil _ _)
  cases hcs with
  | one ha =>
    obtain ⟨rfl, -⟩ := List.cons_prefix_cons.1 hprefix
    exact hone ha
  | two => simpa using hprefix.length_le
  | three => simpa using hprefix.length_le

theorem ne_row_second (ha : 0xE0 ≤ a.toNat) (forms : List UnitForm) : [a, b] ≠ spell forms := by
  intro hraw
  obtain ⟨cs, u, hcs, hprefix⟩ := exists_unitBytes_of_row hraw (List.cons_ne_nil _ _)
  cases hcs with
  | one hd =>
    obtain ⟨rfl, -⟩ := List.cons_prefix_cons.1 hprefix
    omega
  | two hd =>
    obtain ⟨rfl, -⟩ := List.cons_prefix_cons.1 hprefix
    omega
  | three => simpa using hprefix.length_le

theorem breaksAt_first (hone : ¬ a.toNat < 0x80) (htwo : ¬ (0xC0 ≤ a.toNat ∧ a.toNat < 0xE0))
    (hthree : ¬ (0xE0 ≤ a.toNat ∧ a.toNat < 0xF0)) : BreaksAt (a :: rest) 0 :=
  .byte [] rfl ⟨[], List.prefix_refl _⟩ (not_starts_first hone htwo hthree)

theorem breaksAt_second (ha : 0xC0 ≤ a.toNat ∧ a.toNat < 0xF0) (hb : ¬ isTail b = true) :
    BreaksAt (a :: b :: rest) 1 :=
  .byte [a] rfl (starts_first ha) (not_starts_second (by omega) hb)

theorem breaksAt_third (ha : 0xE0 ≤ a.toNat ∧ a.toNat < 0xF0) (hb : isTail b = true)
    (hc : ¬ isTail c = true) : BreaksAt (a :: b :: c :: rest) 2 :=
  .byte [a, b] rfl (starts_second ha hb) (not_starts_third ha.1 hc)

theorem breaksAt_end_first (ha : 0xC0 ≤ a.toNat ∧ a.toNat < 0xF0) : BreaksAt [a] 1 :=
  .cut (starts_first ha) (ne_row_first (by omega))

theorem breaksAt_end_second (ha : 0xE0 ≤ a.toNat ∧ a.toNat < 0xF0) (hb : isTail b = true) :
    BreaksAt [a, b] 2 :=
  .cut (starts_second ha hb) (ne_row_second ha.1)

end

theorem decodeUnits_outcome (pos : Nat) (raw : List UInt8) :
    Outcome pos raw (decodeUnits pos raw) := by
  fun_induction decodeUnits pos raw with
  | case1 pos => exact .row [] rfl
  | case2 pos a rest ha ih => exact ih.append (.one ha)
  | case3 pos a _ ha b rest hb ih => exact ih.append (.two ha hb)
  | case4 pos a _ ha b rest hb => exact .fault (breaksAt_second (by omega) hb)
  | case5 pos a _ ha => exact .fault (breaksAt_end_first (by omega))
  | case6 pos a _ _ ha b c rest hb => exact .fault (breaksAt_second (by omega) (by simpa using hb))
  | case7 pos a _ _ ha b c rest hb hc =>
    exact .fault (breaksAt_third ha (by simpa using hb) (by simpa using hc))
  | case8 pos a _ _ ha b c rest hb hc ih =>
    exact ih.append (.three ha (by simpa using hb) (by simpa using hc))
  | case9 pos a _ _ ha b hb => exact .fault (breaksAt_end_second ha hb)
  | case10 pos a _ _ ha b hb => exact .fault (breaksAt_second (by omega) hb)
  | case11 pos a _ _ ha => exact .fault (breaksAt_end_first (by omega))
  | case12 pos a rest hone htwo hthree => exact .fault (breaksAt_first hone htwo hthree)

theorem BreaksAt.starts (h : BreaksAt raw n) : Starts (raw.take n) ∧ n ≤ raw.length := by
  cases h with
  | byte before hraw hbefore _ =>
    rw [hraw, List.take_left, List.length_append]
    exact ⟨hbefore, Nat.le_add_right _ _⟩
  | cut hstarts _ =>
    rw [List.take_length]
    exact ⟨hstarts, Nat.le_refl _⟩

theorem BreaksAt.length_le (h : BreaksAt raw n) (hbs : bs <+: raw) (hstarts : Starts bs) :
    bs.length ≤ n := by
  cases h with
  | @byte before after b hraw _ hbyte =>
    -- A longer beginning would take in the byte that breaks.
    refine Nat.le_of_not_lt fun hlonger => ?_
    have hbroken : before ++ [b] <+: raw := ⟨after, by rw [hraw, List.append_assoc]; rfl⟩
    have hlength : (before ++ [b]).length ≤ bs.length := by
      rw [List.length_append, List.length_singleton]
      omega
    exact hbyte (hstarts.of_prefix (List.prefix_of_prefix_length_le hbroken hbs hlength))
  | cut => exact hbs.length_le

/-- Bytes leave the grammar at one place only: behind the longest of their beginnings with which a
row of units can begin. -/
theorem BreaksAt.unique {m : Nat} (h : BreaksAt raw n) (h' : BreaksAt raw m) : n = m := by
  have hle {k l : Nat} (hk : BreaksAt raw k) (hl : BreaksAt raw l) : k ≤ l := by
    have hlength := hl.length_le (List.take_prefix k raw) hk.starts.1
    rwa [List.length_take, Nat.min_eq_left hk.starts.2] at hlength
  exact Nat.le_antisymm (hle h h') (hle h' h)

theorem not_breaksAt_spell (forms : List UnitForm) : ¬ BreaksAt (spell forms) n := by
  intro h
  cases h with
  | byte before hraw _ hbyte => exact hbyte ⟨forms, _, by rw [hraw, List.append_assoc]; rfl⟩
  | cut _ hrow => exact hrow forms rfl

theorem decodeUnits_spell (forms : List UnitForm) (pos : Nat) :
    decodeUnits pos (spell forms) = .ok (forms.map UnitForm.unit) := by
  induction forms generalizing pos with
  | nil => rfl
  | cons form forms ih =>
    rw [spell_cons, form.unitBytes.decodeUnits_append, ih]
    rfl

theorem flatMap_encodeUnit_iff (forms : List UnitForm) :
    (forms.map UnitForm.unit).flatMap encodeUnit = spell forms ↔
      ∀ form ∈ forms, form.IsCanonical := by
  induction forms with
  | nil => simp [spell]
  | cons form forms ih =>
    rw [List.map_cons, List.flatMap_cons, spell_cons, List.forall_mem_cons, ← ih,
      ← form.encodeUnit_unit_iff]
    constructor
    · intro h
      obtain ⟨written, hbytes, -⟩ := (unitBytes_encodeUnit form.unit).exists_form
      rw [← hbytes] at h ⊢
      obtain ⟨rfl, hrest⟩ := UnitForm.append_inj h
      exact ⟨rfl, hrest⟩
    · rintro ⟨hform, hrest⟩
      rw [hform, hrest]

def Spells (raw : List UInt8) (text : String) : Prop :=
  0 ∉ raw ∧ ∃ forms, raw = spell forms ∧ units text.toList = forms.map UnitForm.unit

/-- Where bytes fail to be a text. A zero byte counts before the grammar of units, and this before
the pairs of surrogates, which are judged as a whole. -/
inductive FaultsAt (raw : List UInt8) : Nat → Prop
  | zero {before after : List UInt8} (hraw : raw = before ++ 0 :: after) (hbefore : 0 ∉ before) :
    FaultsAt raw before.length
  | unit {pos : Nat} (hzero : 0 ∉ raw) (hbreaks : BreaksAt raw pos) : FaultsAt raw pos
  | pairing {forms : List UnitForm} (hzero : 0 ∉ raw) (hraw : raw = spell forms)
    (hunpaired : ¬ Paired (forms.map UnitForm.unit)) : FaultsAt raw 0

theorem FaultsAt.le_length (h : FaultsAt raw pos) : pos ≤ raw.length := by
  cases h with
  | zero hraw _ => simp [hraw]
  | unit _ hbreaks => exact hbreaks.starts.2
  | pairing => exact Nat.zero_le _

theorem decode_of_not_mem (h : 0 ∉ raw) : decode raw = decodeByUnits raw :=
  decode_of_ne_zero fun _ hb hzero => h (hzero ▸ hb)

theorem Spells.decode {text : String} (h : Spells raw text) : decode raw = .ok text := by
  obtain ⟨hzero, forms, rfl, hunits⟩ := h
  have hchars := ofUnits?_eq_some_iff.2 hunits
  rw [decode_of_not_mem hzero, decodeByUnits, decodeUnits_spell]
  simp only [hchars, String.ofList_toList]

theorem FaultsAt.decode (h : FaultsAt raw pos) : decode raw = .error pos := by
  cases h with
  | @zero before after hraw hbefore =>
    have hnone : before.findIdx? (· = 0) = none := by
      rw [List.findIdx?_eq_none_iff]
      intro b hb
      exact decide_eq_false fun hzero => hbefore (hzero ▸ hb)
    have hfirst : raw.findIdx? (· = 0) = some before.length := by
      simp [hraw, List.findIdx?_append, hnone, List.findIdx?_cons]
    rw [ModifiedUtf8.decode, hfirst]
  | unit hzero hbreaks =>
    have houtcome := decodeUnits_outcome 0 raw
    rw [decode_of_not_mem hzero, decodeByUnits]
    cases hresult : decodeUnits 0 raw with
    | ok us =>
      rw [hresult] at houtcome
      cases houtcome with
      | row forms hraw => exact absurd hbreaks (hraw ▸ not_breaksAt_spell _)
    | error at' =>
      rw [hresult] at houtcome
      cases houtcome with
      | fault hother => rw [hbreaks.unique hother, Nat.zero_add]
  | @pairing forms hzero hraw hunpaired =>
    have hnone : ofUnits? (forms.map UnitForm.unit) = none := by
      rw [Option.eq_none_iff_forall_ne_some]
      intro cs hcs
      exact hunpaired (paired_of_ofUnits? hcs)
    rw [decode_of_not_mem hzero, decodeByUnits, hraw, decodeUnits_spell]
    simp only [hnone]

theorem spells_or_faultsAt (raw : List UInt8) :
    (∃ text, Spells raw text) ∨ ∃ pos, FaultsAt raw pos := by
  by_cases hzero : 0 ∈ raw
  · obtain ⟨before, after, hraw, hbefore⟩ := List.eq_append_cons_of_mem hzero
    exact .inr ⟨_, .zero hraw hbefore⟩
  · have houtcome := decodeUnits_outcome 0 raw
    cases hresult : decodeUnits 0 raw with
    | ok us =>
      rw [hresult] at houtcome
      cases houtcome with
      | row forms hraw =>
        by_cases hpaired : Paired (forms.map UnitForm.unit)
        · obtain ⟨cs, hcs⟩ := hpaired.exists_units
          exact .inl ⟨String.ofList cs, hzero, forms, hraw, by rw [String.toList_ofList, hcs]⟩
        · exact .inr ⟨0, .pairing hzero hraw hpaired⟩
    | error pos =>
      rw [hresult] at houtcome
      cases houtcome with
      | fault hbreaks => exact .inr ⟨_, .unit hzero hbreaks⟩

theorem decode_eq_ok_iff {text : String} : decode raw = .ok text ↔ Spells raw text := by
  refine ⟨fun h => ?_, Spells.decode⟩
  rcases spells_or_faultsAt raw with ⟨other, hspells⟩ | ⟨pos, hfaults⟩
  · obtain rfl := Except.ok.inj (hspells.decode.symm.trans h)
    exact hspells
  · cases hfaults.decode.symm.trans h

theorem decode_eq_error_iff : decode raw = .error pos ↔ FaultsAt raw pos := by
  refine ⟨fun h => ?_, FaultsAt.decode⟩
  rcases spells_or_faultsAt raw with ⟨other, hspells⟩ | ⟨pos, hfaults⟩
  · cases hspells.decode.symm.trans h
  · obtain rfl := Except.error.inj (hfaults.decode.symm.trans h)
    exact hfaults

end ModifiedUtf8

end ClassSieve.Text
