import ClassSieve.Proofs.Json.Texts

/-!
# Reading printed JSON

A value of literals, strings and numbers of 64 bits is read back from its printed form, unless it
nests more deeply than a value that is read may.
-/
namespace ClassSieve.Json
open Text

/-- A value that is made of literals, strings and natural numbers with a property. -/
inductive Plain (p : Nat → Prop) : Json → Prop
  | null : Plain p .null
  | bool (value : Bool) : Plain p (.bool value)
  | natural {value : Nat} (h : p value) : Plain p (.natural value)
  | string (text : String) : Plain p (.string text)
  | array {items : List Json} (h : ∀ item ∈ items, Plain p item) : Plain p (.array items)
  | object {members : List (String × Json)} (h : ∀ member ∈ members, Plain p member.2) :
      Plain p (.object members)

theorem itemsReadable_eq_all (items : List Json) : itemsReadable items = items.all isReadable := by
  induction items with
  | nil => rfl
  | cons item rest ih => rw [itemsReadable, List.all_cons, ih]

theorem membersReadable_eq_all (members : List (String × Json)) :
    membersReadable members = members.all fun member => member.2.isReadable := by
  induction members with
  | nil => rfl
  | cons member rest ih => rw [membersReadable, List.all_cons, ih]

theorem Plain.isReadable {p : Nat → Prop} {value : Json} (h : value.Plain p) :
    value.isReadable = true := by
  induction h with
  | array _ ih => rw [Json.isReadable, itemsReadable_eq_all, List.all_eq_true]; exact ih
  | object _ ih => rw [Json.isReadable, membersReadable_eq_all, List.all_eq_true]; exact ih
  | _ => rfl

theorem depth_le_of_mem {item : Json} {items : List Json} (h : item ∈ items) :
    item.depth ≤ depthOfItems items := by
  induction items with
  | nil => cases h
  | cons first rest ih =>
    rw [depthOfItems]
    rcases List.mem_cons.1 h with rfl | hrest
    · exact Nat.le_max_left _ _
    · exact Nat.le_trans (ih hrest) (Nat.le_max_right _ _)

theorem depth_le_of_mem_members {member : String × Json} {members : List (String × Json)}
    (h : member ∈ members) : member.2.depth ≤ depthOfMembers members := by
  induction members with
  | nil => cases h
  | cons first rest ih =>
    rw [depthOfMembers]
    rcases List.mem_cons.1 h with rfl | hrest
    · exact Nat.le_max_left _ _
    · exact Nat.le_trans (ih hrest) (Nat.le_max_right _ _)

/-! ## Reading the parts -/

section Parts
variable {fuel levels : Nat} {cs other rest tail : List Char} {value : Json} {items : List Json}
  {members : List (Option String × Json)}

theorem value?_congr (fuel levels : Nat) (h : skipSpace cs = skipSpace other) :
    value? fuel levels cs = value? fuel levels other := by
  cases fuel with
  | zero => rfl
  | succ fuel => rw [value?, value?, h]

theorem items?_congr (fuel levels : Nat) (h : skipSpace cs = skipSpace other) :
    items? fuel levels cs = items? fuel levels other := by
  cases fuel with
  | zero => rfl
  | succ fuel => rw [items?, items?, value?_congr fuel levels h]

theorem members?_congr (fuel levels : Nat) (h : skipSpace cs = skipSpace other) :
    members? fuel levels cs = members? fuel levels other := by
  cases fuel with
  | zero => rfl
  | succ fuel => rw [members?, members?, h]

theorem value?_quote (fuel levels : Nat) (text : String) (rest : List Char) :
    value? (fuel + 1) levels ((quote text).toList ++ rest) = some (string text, rest) := by
  rw [toList_quote, List.cons_append, List.append_assoc, List.singleton_append, value?,
    skipSpace_cons rfl]
  simp only [stringBody?_escaped]
  rfl

theorem value?_toDigits (fuel levels : Nat) {n : Nat} (hn : n ≤ largestNatural)
    (h : EndsNumber rest) :
    value? (fuel + 1) levels (Nat.toDigits 10 n ++ rest) = some (natural n, rest) := by
  rw [← number?_toDigits hn h]
  have hdigits : ∀ c ∈ Nat.toDigits 10 n, c.isDigit = true := fun c =>
    Nat.isDigit_of_mem_toDigits (by omega) (by omega)
  cases hchars : Nat.toDigits 10 n with
  | nil => exact absurd hchars Nat.toDigits_ne_nil
  | cons c chars =>
    have hc : c.isDigit = true := hdigits c (hchars ▸ List.mem_cons_self)
    have hne : ∀ other : Char, other.isDigit = false → c ≠ other ∧ other ≠ c := by
      intro other hother
      constructor <;> rintro rfl <;> simp [hc] at hother
    have hspace : isSpace c = false := by
      simp [isSpace, hne]
    have hprefix : ∀ first more, first ≠ c →
        (first :: more).isPrefixOf? (c :: (chars ++ rest)) = none := by
      intro first more hfirst
      exact if_neg (by simp [hfirst])
    have hword : word? (c :: (chars ++ rest)) = none := by
      simp [word?, hprefix, hne]
    rw [List.cons_append, value?, skipSpace_cons hspace]
    split
    · next heq => cases heq; cases hc
    · next heq => cases heq; cases hc
    · next heq => cases heq; cases hc
    · rw [hword]

/-- An array is read when its items are, for no item starts with the bracket that ends it. -/
theorem value?_items (hlevels : levels ≠ 0)
    (h : items? fuel (levels - 1) cs = some (items, rest)) :
    value? (fuel + 1) levels ('[' :: cs) = some (array items, rest) := by
  rw [← items?_congr fuel _ (skipSpace_skipSpace cs)] at h
  rw [value?, skipSpace_cons rfl]
  simp only
  split
  · next tail htail =>
    rw [htail] at h
    cases fuel with
    | zero => cases h
    | succ fuel => cases fuel <;> cases h
  · simp [h, bounded, hlevels]

theorem value?_members (hlevels : levels ≠ 0)
    (h : members? fuel (levels - 1) cs = some (members, rest)) :
    value? (fuel + 1) levels ('\x7b' :: cs) = some (ofMembers members, rest) := by
  rw [← members?_congr fuel _ (skipSpace_skipSpace cs)] at h
  rw [value?, skipSpace_cons rfl]
  simp only
  split
  · next tail htail =>
    rw [htail] at h
    cases fuel <;> cases h
  · simp [h, bounded, hlevels]

theorem value?_noItems (h : levels ≠ 0) (rest : List Char) :
    value? (fuel + 1) levels ('[' :: ']' :: rest) = some (array [], rest) := by
  simp [value?, skipSpace_cons, isSpace, bounded, h]

theorem value?_noMembers (h : levels ≠ 0) (rest : List Char) :
    value? (fuel + 1) levels ('\x7b' :: '\x7d' :: rest) = some (object [], rest) := by
  simp [value?, skipSpace_cons, isSpace, bounded, h]

theorem items?_last (h : value? fuel levels cs = some (value, rest))
    (hrest : skipSpace rest = ']' :: tail) :
    items? (fuel + 1) levels cs = some ([value], tail) := by
  simp [items?, h, hrest]

theorem items?_more (h : value? fuel levels cs = some (value, rest))
    (hrest : skipSpace rest = ',' :: tail) {last : List Char}
    (htail : items? fuel levels tail = some (items, last)) :
    items? (fuel + 1) levels cs = some (value :: items, last) := by
  simp [items?, h, hrest, htail]

def memberText (key : String) (cs : List Char) : List Char :=
  (quote key).toList ++ ':' :: ' ' :: cs

theorem members?_last (key : String) (h : value? fuel levels cs = some (value, rest))
    (hrest : skipSpace rest = '\x7d' :: tail) :
    members? (fuel + 1) levels (memberText key cs) = some ([(some key, value)], tail) := by
  rw [← value?_congr fuel levels (show skipSpace (' ' :: cs) = skipSpace cs from rfl)] at h
  rw [memberText, toList_quote, List.cons_append, List.append_assoc, List.singleton_append]
  simp [members?, skipSpace_cons, isSpace, stringBody?_escaped, h, hrest]

theorem members?_more (key : String) (h : value? fuel levels cs = some (value, rest))
    (hrest : skipSpace rest = ',' :: tail) {last : List Char}
    (htail : members? fuel levels tail = some (members, last)) :
    members? (fuel + 1) levels (memberText key cs) = some ((some key, value) :: members, last) := by
  rw [← value?_congr fuel levels (show skipSpace (' ' :: cs) = skipSpace cs from rfl)] at h
  rw [memberText, toList_quote, List.cons_append, List.append_assoc, List.singleton_append]
  simp [members?, skipSpace_cons, isSpace, stringBody?_escaped, h, hrest, htail]

end Parts

/-! ## Printed containers -/

/-- What stands behind the first line of a container: its other lines, and then its end and what
follows it on a line of their own. -/
def remainder (level : Nat) (lines : List String) (ending : List Char) : List Char :=
  (lines.flatMap fun line => ',' :: (lineStart (level + 1) ++ line.toList)) ++
    (lineStart level ++ ending)

theorem remainder_cons (level : Nat) (line : String) (lines : List String) (ending : List Char) :
    remainder level (line :: lines) ending =
      ',' :: (lineStart (level + 1) ++ (line.toList ++ remainder level lines ending)) := by
  simp [remainder]

theorem skipSpace_remainder (level : Nat) (ending : List Char) :
    skipSpace (remainder level [] ending) = skipSpace ending := by
  rw [remainder, List.flatMap_nil, List.nil_append, skipSpace_append isSpace_of_mem_lineStart]

theorem endsNumber_remainder (level : Nat) (lines : List String) (ending : List Char) :
    EndsNumber (remainder level lines ending) := by
  intro c hc
  cases lines <;> cases hc <;> decide

theorem intercalate_cons {α : Type} (sep line : List α) (lines : List (List α)) :
    sep.intercalate (line :: lines) = line ++ lines.flatMap (sep ++ ·) := by
  induction lines generalizing line with
  | nil => simp [List.intercalate]
  | cons next rest ih =>
    have hrest := ih next
    simp only [List.intercalate, List.intersperse, List.flatten_cons, List.flatMap_cons,
      List.append_assoc] at hrest ⊢
    rw [hrest]

variable {opening closing : String} {first last : Char}

theorem toList_enclose_nil (level : Nat) (hopening : opening.toList = [first])
    (hclosing : closing.toList = [last]) (rest : List Char) :
    (enclose level opening closing []).toList ++ rest = first :: last :: rest := by
  simp [enclose, hopening, hclosing]

theorem toList_enclose_cons (level : Nat) (hopening : opening.toList = [first])
    (hclosing : closing.toList = [last]) (line : String) (lines : List String) (rest : List Char) :
    (enclose level opening closing (line :: lines)).toList ++ rest =
      first :: (lineStart (level + 1) ++
        (line.toList ++ remainder level lines (last :: rest))) := by
  simp [enclose, hopening, hclosing, intercalate_cons, List.flatMap_map, remainder, lineStart,
    indentation]

/-! ## Values -/

/-- A value whose printed form is read back, whatever follows it and does not go on with it. There
is enough fuel when there is two for every character, for a container has two brackets and no item
is without a character. -/
def Reads (value : Json) : Prop :=
  ∀ (fuel levels level : Nat) (rest : List Char), value.depth ≤ levels →
    2 * ((renderAt level value).toList ++ rest).length ≤ fuel → EndsNumber rest →
    value? (fuel + 1) levels ((renderAt level value).toList ++ rest) = some (value, rest)

theorem Reads.before_remainder {value : Json} (h : Reads value) {fuel levels level : Nat}
    {lines : List String} {ending : List Char} (hdepth : value.depth ≤ levels)
    (hfuel : 2 * ((renderAt (level + 1) value).toList ++
      remainder level lines ending).length < fuel) :
    value? fuel levels ((renderAt (level + 1) value).toList ++ remainder level lines ending) =
      some (value, remainder level lines ending) := by
  obtain ⟨less, rfl⟩ : ∃ less, fuel = less + 1 := ⟨fuel - 1, by omega⟩
  exact h _ _ _ _ hdepth (by omega) (endsNumber_remainder _ _ _)

theorem items?_of_reads {first : Json} {others : List Json}
    (h : ∀ item ∈ first :: others, Reads item) {fuel levels level : Nat} {rest : List Char}
    (hdepth : ∀ item ∈ first :: others, item.depth ≤ levels)
    (hfuel : 2 * ((renderAt (level + 1) first).toList ++
      remainder level (renderItems (level + 1) others) (']' :: rest)).length + 1 < fuel) :
    items? fuel levels ((renderAt (level + 1) first).toList ++
      remainder level (renderItems (level + 1) others) (']' :: rest)) =
        some (first :: others, rest) := by
  induction others generalizing first fuel with
  | nil =>
    obtain ⟨less, rfl⟩ : ∃ less, fuel = less + 1 := ⟨fuel - 1, by omega⟩
    apply items?_last
    · exact (h first List.mem_cons_self).before_remainder (hdepth first List.mem_cons_self)
        (by omega)
    · exact skipSpace_remainder level _
  | cons next others ih =>
    obtain ⟨less, rfl⟩ : ∃ less, fuel = less + 1 := ⟨fuel - 1, by omega⟩
    apply items?_more
    · exact (h first List.mem_cons_self).before_remainder (hdepth first List.mem_cons_self)
        (by omega)
    · exact congrArg skipSpace (remainder_cons ..)
    · rw [renderItems, remainder_cons] at hfuel
      rw [items?_congr less levels (skipSpace_append isSpace_of_mem_lineStart _)]
      apply ih
      · exact fun item hitem => h item (List.mem_cons_of_mem _ hitem)
      · exact fun item hitem => hdepth item (List.mem_cons_of_mem _ hitem)
      · simp only [List.length_append, List.length_cons] at hfuel ⊢
        omega

theorem toList_member (level : Nat) (member : String × Json) (rest : List Char) :
    (quote member.1 ++ ": " ++ renderAt level member.2).toList ++ rest =
      memberText member.1 ((renderAt level member.2).toList ++ rest) := by
  simp [memberText]

theorem members?_of_reads {first : String × Json} {others : List (String × Json)}
    (h : ∀ member ∈ first :: others, Reads member.2) {fuel levels level : Nat} {rest : List Char}
    (hdepth : ∀ member ∈ first :: others, member.2.depth ≤ levels)
    (hfuel : 2 * (memberText first.1 ((renderAt (level + 1) first.2).toList ++
      remainder level (renderMembers (level + 1) others) ('\x7d' :: rest))).length + 1 < fuel) :
    members? fuel levels (memberText first.1 ((renderAt (level + 1) first.2).toList ++
      remainder level (renderMembers (level + 1) others) ('\x7d' :: rest))) =
      some ((first :: others).map fun member => (some member.1, member.2), rest) := by
  induction others generalizing first fuel with
  | nil =>
    obtain ⟨less, rfl⟩ : ∃ less, fuel = less + 1 := ⟨fuel - 1, by omega⟩
    apply members?_last
    · apply (h first List.mem_cons_self).before_remainder (hdepth first List.mem_cons_self)
      simp only [memberText, List.length_append, List.length_cons] at hfuel ⊢
      omega
    · exact skipSpace_remainder level _
  | cons next others ih =>
    obtain ⟨less, rfl⟩ : ∃ less, fuel = less + 1 := ⟨fuel - 1, by omega⟩
    apply members?_more
    · apply (h first List.mem_cons_self).before_remainder (hdepth first List.mem_cons_self)
      simp only [memberText, List.length_append, List.length_cons] at hfuel ⊢
      omega
    · exact congrArg skipSpace (remainder_cons ..)
    · rw [members?_congr less levels (skipSpace_append isSpace_of_mem_lineStart _)]
      rw [renderMembers, remainder_cons] at hfuel
      rw [toList_member] at hfuel ⊢
      apply ih
      · exact fun member hmember => h member (List.mem_cons_of_mem _ hmember)
      · exact fun member hmember => hdepth member (List.mem_cons_of_mem _ hmember)
      · simp only [memberText, List.length_append, List.length_cons] at hfuel ⊢
        omega

theorem ofMembers_map (members : List (String × Json)) :
    ofMembers (members.map fun member => (some member.1, member.2)) = object members := by
  have hkeys : (members.map fun member => (some member.1, member.2)).mapM
      (fun member : Option String × Json => member.1.map fun key => (key, member.2)) =
        some members := by
    induction members with
    | nil => rfl
    | cons member rest ih =>
      rw [List.map_cons, List.mapM_cons, ih]
      rfl
  rw [ofMembers, hkeys]

theorem Plain.reads {value : Json} (h : value.Plain (· ≤ largestNatural)) : value.Reads := by
  induction h with
  | null =>
    intro fuel levels level rest hdepth hfuel hrest
    rw [renderAt, value?]
    rfl
  | bool value =>
    intro fuel levels level rest hdepth hfuel hrest
    cases value with
    | false => rw [renderAt, value?]; rfl
    | true => rw [renderAt, value?]; rfl
  | @natural n hn =>
    intro fuel levels level rest hdepth hfuel hrest
    rw [renderAt, Nat.toString_eq_repr, Nat.toList_repr]
    exact value?_toDigits fuel levels hn hrest
  | string text =>
    intro fuel levels level rest hdepth hfuel hrest
    exact value?_quote fuel levels text rest
  | @array items _ ih =>
    intro fuel levels level rest hdepth hfuel hrest
    have hopening : "[".toList = ['['] := rfl
    have hclosing : "]".toList = [']'] := rfl
    rw [depth] at hdepth
    cases items with
    | nil =>
      rw [renderAt, renderItems, toList_enclose_nil level hopening hclosing]
      exact value?_noItems (by omega) rest
    | cons first others =>
      rw [renderAt, renderItems, toList_enclose_cons level hopening hclosing] at hfuel ⊢
      apply value?_items (by omega)
      rw [items?_congr fuel _ (skipSpace_append isSpace_of_mem_lineStart _)]
      apply items?_of_reads ih
      · intro item hitem
        have hle := depth_le_of_mem hitem
        omega
      · simp only [List.length_append, List.length_cons] at hfuel ⊢
        omega
  | @object members _ ih =>
    intro fuel levels level rest hdepth hfuel hrest
    have hopening : "\x7b".toList = ['\x7b'] := rfl
    have hclosing : "\x7d".toList = ['\x7d'] := rfl
    rw [depth] at hdepth
    cases members with
    | nil =>
      rw [renderAt, renderMembers, toList_enclose_nil level hopening hclosing]
      exact value?_noMembers (by omega) rest
    | cons first others =>
      rw [renderAt, renderMembers, toList_enclose_cons level hopening hclosing,
        toList_member] at hfuel ⊢
      rw [← ofMembers_map]
      apply value?_members (by omega)
      rw [members?_congr fuel _ (skipSpace_append isSpace_of_mem_lineStart _)]
      apply members?_of_reads ih
      · intro member hmember
        have hle := depth_le_of_mem_members hmember
        omega
      · simp only [memberText, List.length_append, List.length_cons] at hfuel ⊢
        omega

theorem Plain.parse?_render {value : Json} (h : value.Plain (· ≤ largestNatural))
    (hdepth : value.depth ≤ deepest) : parse? value.render = some value := by
  have hread := h.reads (2 * value.render.toList.length + 1) deepest 0 [] hdepth
    (by rw [List.append_nil]; exact Nat.le_succ _) (fun c hc => nomatch hc)
  rw [List.append_nil] at hread
  rw [parse?]
  simp only [render] at hread ⊢
  rw [hread]
  rfl

end ClassSieve.Json
