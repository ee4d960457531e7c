import ClassSieve.Proofs.ClassFile.Parsers
import ClassSieve.Proofs.Text.ModifiedUtf8

/-!
# Reading with fewer annotations of interest

A reader with some of the annotations of interest of another reads the same class with the lists of
annotations cut down to its own. `Parser.Image exact f p q` says that `p` reads the image under `f`
of what `q` reads, and when `exact` holds also that `p` fails where `q` fails.
-/
namespace ClassSieve.ClassFile

theorem annotationKey_injective {a b : String} (h : annotationKey a = annotationKey b) : a = b := by
  have hkey := Text.ModifiedUtf8.encode_injective h
  rw [String.append_left_inj, String.append_right_inj] at hkey
  exact hkey

namespace Interest

theorem find?_eq_some_iff {interest : Interest} {raw : List UInt8} {name : String} :
    interest.find? raw = some name ↔ name ∈ interest.names ∧ annotationKey name = raw := by
  constructor
  · intro h
    exact ⟨List.mem_of_find?_eq_some h, by simpa using List.find?_some h⟩
  · rintro ⟨hname, rfl⟩
    have hfound : (interest.find? (annotationKey name)).isSome := by
      rw [find?, List.find?_isSome]
      exact ⟨name, hname, by simp⟩
    obtain ⟨found, hfound⟩ := Option.isSome_iff_exists.1 hfound
    have hkey : annotationKey found = annotationKey name := by simpa using List.find?_some hfound
    rw [hfound, annotationKey_injective hkey]

def keep (interest : Interest) (names : List String) : List String :=
  names.filter fun name => interest.names.contains name

theorem keep_of_isEmpty {interest : Interest} (h : interest.isEmpty = true) (names : List String) :
    interest.keep names = [] := by
  rw [isEmpty, List.isEmpty_iff] at h
  simp [keep, h]

theorem filterMap_filter (interest : Interest) (found : List (Option String)) :
    (found.map (Option.filter fun name => interest.names.contains name)).filterMap id =
      interest.keep (found.filterMap id) := by
  rw [List.filterMap_map, keep, List.filter_filterMap]
  rfl

theorem find?_eq_filter {interest wide : Interest} (h : interest.names ⊆ wide.names)
    (raw : List UInt8) :
    interest.find? raw = (wide.find? raw).filter fun name => interest.names.contains name := by
  apply Option.ext
  intro name
  rw [find?_eq_some_iff, Option.filter_eq_some_iff, find?_eq_some_iff, List.contains_iff_mem]
  constructor
  · exact fun hname => ⟨⟨h hname.1, hname.2⟩, hname.1⟩
  · exact fun hname => ⟨hname.2, hname.1.2⟩

end Interest

def Method.restrict (interest : Interest) (method : Method) : Method :=
  { method with annotations := interest.keep method.annotations }

def Outline.restrict (interest : Interest) (outline : Outline) : Outline :=
  { outline with
    methods := outline.methods.map (Method.restrict interest)
    annotations := interest.keep outline.annotations }

namespace Parser
variable {α β γ δ ε : Type}

structure Image (exact : Prop) (f : β → α) (p : Parser α) (q : Parser β) : Prop where
  ok : ∀ {cursor b last}, q cursor = .ok (b, last) → p cursor = .ok (f b, last)
  error : exact → ∀ {cursor fault}, q cursor = .error fault → p cursor = .error fault

variable {exact : Prop} {f : β → α} {g : δ → γ} {p : Parser α} {q : Parser β}

theorem Image.pure (b : β) : Image exact f (pure (f b)) (pure b) where
  ok h := by
    cases h
    rfl
  error _ _ _ h := by cases h

theorem Image.bind {k : α → Parser γ} {l : β → Parser δ} (h : Image exact f p q)
    (hrest : ∀ b, Image exact g (k (f b)) (l b)) : Image exact g (p >>= k) (q >>= l) where
  ok hok := by
    obtain ⟨b, middle, hq, hl⟩ := bind_eq_ok.1 hok
    exact bind_eq_ok.2 ⟨f b, middle, h.ok hq, (hrest b).ok hl⟩
  error hexact cursor fault herror := by
    rw [run_bind] at herror ⊢
    cases hq : q cursor with
    | ok result =>
      obtain ⟨b, middle⟩ := result
      rw [hq] at herror
      rw [h.ok hq]
      exact (hrest b).error hexact herror
    | error found =>
      rw [hq] at herror
      cases herror
      rw [h.error hexact hq]
      rfl

theorem Image.same_bind {r : Parser ε} {k : ε → Parser γ} {l : ε → Parser δ}
    (hrest : ∀ e, Image exact g (k e) (l e)) : Image exact g (r >>= k) (r >>= l) :=
  Image.bind ⟨id, fun _ _ _ => id⟩ hrest

theorem Image.eq_map (h : Image exact f p q) (hexact : exact) (cursor : Cursor) :
    p cursor = (q cursor).map fun result => (f result.1, result.2) := by
  cases hq : q cursor with
  | ok result => exact h.ok hq
  | error fault => exact h.error hexact hq

theorem Image.times (h : Image exact f p q) (n : Nat) :
    Image exact (List.map f) (times n p) (times n q) := by
  induction n with
  | zero => exact .pure []
  | succ n ih =>
    rw [times_succ, times_succ]
    exact h.bind fun b => ih.bind fun rest => .pure (b :: rest)

theorem Image.counted (h : Image exact f p q) :
    Image exact (List.map f) (counted p) (counted q) :=
  .same_bind fun count => h.times count.toNat

theorem Image.within (h : Image exact f p q) (cursor : Cursor) :
    Image exact f (within cursor p) (within cursor q) where
  ok hok := by
    obtain ⟨rfl, inner, hq⟩ := within_eq_ok.1 hok
    exact within_eq_ok.2 ⟨rfl, inner, h.ok hq⟩
  error hexact outer fault herror :=
    within_eq_error.2 (h.error hexact (within_eq_error.1 herror))

theorem lift_stays {e : Except Fault α} {cursor last : Cursor} {a : α}
    (h : (liftM e : Parser α) cursor = .ok (a, last)) : cursor = last := by
  cases e with
  | ok found =>
    cases h
    rfl
  | error fault => cases h

/-- What leaves the cursor where it is need not be done when its value does not matter. -/
theorem Image.skip {a : α} (hexact : ¬ exact) (hvalue : ∀ b, f b = a)
    (hstay : ∀ {cursor b last}, q cursor = .ok (b, last) → last = cursor) :
    Image exact f (Pure.pure a) q where
  ok hok := by rw [hstay hok, hvalue, run_pure]
  error h := absurd h hexact

end Parser

section
open ClassFile.Parser
variable {interest wide : Interest} (pool : Pool)

theorem AnnotationTable.image_readEntry (h : interest.names ⊆ wide.names) :
    Image (interest.isEmpty = false) (Option.filter fun name => interest.names.contains name)
      (readEntry pool interest) (readEntry pool wide) := by
  refine .same_bind fun offset => .same_bind fun index => .same_bind fun raw => ?_
  refine .same_bind fun _ => ?_
  rw [Interest.find?_eq_filter h]
  exact .pure _

theorem AnnotationTable.image_read (h : interest.names ⊆ wide.names) :
    Image (interest.isEmpty = false) interest.keep (AnnotationTable.read pool interest)
      (AnnotationTable.read pool wide) := by
  refine (image_readEntry pool h).counted.bind fun found => ?_
  rw [Interest.filterMap_filter]
  exact .pure _

namespace Outline

theorem image_readAttribute (h : interest.names ⊆ wide.names) :
    Image (interest.isEmpty = false) interest.keep (readAttribute pool interest)
      (readAttribute pool wide) := by
  refine .same_bind fun offset => .same_bind fun nameIndex => .same_bind fun length => ?_
  refine .same_bind fun body => ?_
  cases hempty : interest.isEmpty with
  | true =>
    refine .skip Bool.noConfusion (Interest.keep_of_isEmpty hempty) fun {_ _ _} hok => ?_
    split at hok
    · cases hok
      rfl
    · obtain ⟨⟨start, name⟩, middle, hraw, hok⟩ := bind_eq_ok.1 hok
      rw [lift_stays hraw]
      by_cases hname : name = asciiBytes visibleAnnotations
      · simp only [if_pos hname] at hok
        exact (within_eq_ok.1 hok).1
      · simp only [if_neg hname] at hok
        cases hok
        rfl
  | false =>
    have hwide : wide.isEmpty = false := by
      rw [Interest.isEmpty, List.isEmpty_eq_false_iff] at hempty ⊢
      intro hnil
      rw [hnil] at h
      exact hempty (List.subset_nil.1 h)
    have htable := AnnotationTable.image_read pool h
    rw [hempty] at htable
    rw [if_neg Bool.false_ne_true, if_neg (by rw [hwide]; exact Bool.false_ne_true)]
    refine .same_bind fun ⟨start, name⟩ => ?_
    dsimp only
    split
    · exact htable.within body
    · exact .pure []

theorem image_readAttributes (h : interest.names ⊆ wide.names) :
    Image (interest.isEmpty = false) interest.keep (readAttributes pool interest)
      (readAttributes pool wide) := by
  refine (image_readAttribute pool h).counted.bind fun found => ?_
  have hfound : (found.map interest.keep).flatten = interest.keep found.flatten :=
    List.filter_flatten.symm
  rw [hfound]
  exact .pure _

theorem image_readMethod (h : interest.names ⊆ wide.names) :
    Image (interest.isEmpty = false) (Method.restrict interest) (readMethod pool interest)
      (readMethod pool wide) := by
  refine .same_bind fun access => .same_bind fun name => .same_bind fun descriptor => ?_
  refine (image_readAttributes pool h).bind fun annotations => ?_
  exact .pure (Method.mk ⟨access⟩ name descriptor annotations)

theorem image_read (header : Header) (h : interest.names ⊆ wide.names) :
    Image (interest.isEmpty = false) (Outline.restrict interest)
      (Outline.read pool header interest) (Outline.read pool header wide) := by
  refine .same_bind fun fields => ?_
  refine (image_readMethod pool h).counted.bind fun methods => ?_
  refine (image_readAttributes pool h).bind fun annotations => ?_
  exact .pure (Outline.mk header fields methods annotations)

end Outline

end

theorem parseOutline_restrict {interest wide : Interest} {bytes : Bytes} {outline : Outline}
    (h : interest.names ⊆ wide.names) (houtline : parseOutline bytes wide = .ok outline) :
    parseOutline bytes interest = .ok (outline.restrict interest) := by
  obtain ⟨pool, header, middle, last, hheader, hread⟩ := parseOutline_eq_ok.1 houtline
  exact parseOutline_eq_ok.2 ⟨pool, header, middle, last, hheader,
    (Outline.image_read pool header h).ok hread⟩

/-- Which annotations are of interest makes no difference to whether and how reading a file fails,
as long as some are. -/
theorem parseOutline_eq_map (bytes : Bytes) {interest wide : Interest}
    (hsubset : interest.names ⊆ wide.names) (hasked : interest.isEmpty = false) :
    parseOutline bytes interest = (parseOutline bytes wide).map (Outline.restrict interest) := by
  have himage : Parser.Image (interest.isEmpty = false) (Outline.restrict interest)
      (Header.read >>= fun found => Outline.read found.1 found.2 interest)
      (Header.read >>= fun found => Outline.read found.1 found.2 wide) :=
    .same_bind fun found => Outline.image_read found.1 found.2 hsubset
  rw [parseOutline_eq, parseOutline_eq, himage.eq_map hasked]
  cases (Header.read >>= fun found => Outline.read found.1 found.2 wide) (Cursor.ofBytes bytes) with
  | ok result => rfl
  | error fault => rfl

theorem Outline.restrict_empty (outline : Outline) :
    outline.restrict .empty = { outline with
      methods := outline.methods.map fun method => { method with annotations := [] }
      annotations := [] } := by
  have hmethod : Method.restrict .empty = fun method => { method with annotations := [] } :=
    funext fun method => congrArg (Method.mk _ _ _) (Interest.keep_of_isEmpty rfl _)
  rw [restrict, hmethod, Interest.keep_of_isEmpty rfl]

/-- Reading with fewer annotations of interest is a projection of reading with more. A reader that
asks for some answers what one that asks for more answers, a fault or an outline, with the lists cut
down to its own annotations. One that asks for none reads every file that the others can read. -/
theorem parseOutline_projects (bytes : Bytes) :
    (∀ interest wide : Interest, interest.names ⊆ wide.names → interest.isEmpty = false →
      parseOutline bytes interest = (parseOutline bytes wide).map fun outline => { outline with
        methods := outline.methods.map fun method => { method with
          annotations := method.annotations.filter fun name => interest.names.contains name }
        annotations := outline.annotations.filter fun name => interest.names.contains name }) ∧
    ∀ (wide : Interest) (outline : Outline), parseOutline bytes wide = .ok outline →
      parseOutline bytes .empty = .ok { outline with
        methods := outline.methods.map fun method => { method with annotations := [] }
        annotations := [] } := by
  constructor
  · intro interest wide hsubset hasked
    exact parseOutline_eq_map bytes hsubset hasked
  · intro wide outline houtline
    rw [← Outline.restrict_empty]
    exact parseOutline_restrict (List.nil_subset _) houtline

def annotatedTwice : Bytes :=
  [0xCA, 0xFE, 0xBA, 0xBE, 0, 0, 0, 52, 0, 6, 1, 0, 1, 0x41, 7, 0, 1, 1, 0, 3, 0x4C, 0x42, 0x3B,
    1, 0, 3, 0x4C, 0x43, 0x3B, 1, 0, 25] ++ asciiBytes visibleAnnotations ++
  [0x80, 0, 0, 2, 0, 0, 0, 0, 0, 0, 0, 1, 0, 0, 0, 1, 0, 1, 0, 2,
    0, 5, 0, 0, 0, 6, 0, 1, 0, 3, 0, 0,
    0, 5, 0, 0, 0, 10, 0, 2, 0, 4, 0, 0, 0, 3, 0, 0,
    0, 1, 0, 5, 0, 0, 0, 6, 0, 1, 0, 3, 0, 0]

theorem parseOutline_projects_annotatedTwice :
    ∃ outline, parseOutline annotatedTwice ⟨["C", "B"]⟩ = .ok outline ∧
      outline.methods = [⟨⟨0⟩, "A", "A", ["B", "C", "B"]⟩] ∧
      parseOutline annotatedTwice ⟨["B"]⟩ =
        .ok { outline with methods := [⟨⟨0⟩, "A", "A", ["B", "B"]⟩] } ∧
      parseOutline annotatedTwice .empty =
        .ok { outline with methods := [⟨⟨0⟩, "A", "A", []⟩], annotations := [] } := by
  have hwide : parseOutline annotatedTwice ⟨["C", "B"]⟩ =
      .ok ⟨⟨0, 52, ⟨0x8000⟩, "A", none, []⟩, [], [⟨⟨0⟩, "A", "A", ["B", "C", "B"]⟩], ["B"]⟩ := rfl
  obtain ⟨hsome, hnone⟩ := parseOutline_projects annotatedTwice
  have hnarrow := hsome ⟨["B"]⟩ ⟨["C", "B"]⟩ (by decide) rfl
  rw [hwide] at hnarrow
  exact ⟨_, hwide, rfl, hnarrow, hnone _ _ hwide⟩

end ClassSieve.ClassFile
