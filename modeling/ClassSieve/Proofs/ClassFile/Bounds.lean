import ClassSieve.Proofs.ClassFile.PoolPlaces

/-!
# The readers stay in the file

Each reader by offsets follows the reader that it stands for, once the places of the pool chart its
slots. So the readers of headers and outlines never end in a breach, and the offset of a fault lies
in the file or right behind it.
-/
namespace ClassSieve.ClassFile.Scanner

variable {file : Bytes} {pos : Nat} {pool : Pool} {places : Places} {interest : Interest}

theorem tracks_readVersion : Tracks file pos (readVersion file) Header.readVersion := by
  refine Follows.position fun hpos => Tracks.u4.bind fun _ number _ => ?_
  refine .ite (fun _ => .failAt hpos) fun _ => Tracks.u2.bind fun _ minor _ => ?_
  refine .position fun hpos => Tracks.u2.bind fun _ major _ => ?_
  exact .ite (fun _ => .throw trivial) fun _ => .ite (fun _ => .failAt hpos) fun _ => Tracks.pure _

section
variable (h : Charts file file.length 0 pool places)
include h

theorem tracks_className {index : UInt16} {offset : Nat} (hoffset : offset ≤ file.length) :
    Tracks file pos (liftM (className file places index offset))
      (liftM (pool.className index offset)) :=
  .lift (h.className (Nat.le_refl _) hoffset (Nat.le_refl _))

theorem tracks_readClassName (pos : Nat) :
    Tracks file pos (readClassName file places) (Header.readClassName pool) :=
  .position fun hpos => Tracks.u2.bind fun _ _ _ => tracks_className h hpos

theorem tracks_readSuperName (access : AccessFlags) (name : String) :
    Tracks file pos (readSuperName file places access name)
      (Header.readSuperName pool access name) := by
  refine Follows.position fun hpos => Tracks.u2.bind fun _ index _ => ?_
  refine .ite (fun _ => .ite (fun _ => Tracks.pure _) fun _ => .failAt hpos) fun _ => ?_
  exact (tracks_className h hpos).bind fun _ _ _ => Tracks.pure _

theorem tracks_readText (pos : Nat) :
    Tracks file pos (readText file places) (Outline.readText pool) :=
  .position fun hpos => Tracks.u2.bind fun _ _ _ =>
    Tracks.lift (h.text (Nat.le_refl _) hpos (Nat.le_refl _))

end

theorem follows_readHeader : Follows file pos (readHeader file) Header.read
    fun _ found found' => Charts file file.length 0 found.1 found'.1 ∧ found'.2 = found.2 := by
  refine tracks_readVersion.bind fun _ version _ => (follows_readPool version.2).bind ?_
  refine fun next pool places _ hcharts => .of_le fun hnext => ?_
  have h := hcharts.mono hnext
  refine Tracks.u2.bind fun _ access _ => (tracks_readClassName h _).bind fun _ name _ => ?_
  refine (tracks_readSuperName h ⟨access⟩ name).bind fun _ superName _ => ?_
  exact (Tracks.counted (tracks_readClassName h)).bind fun _ interfaces _ => .pure ⟨h, rfl⟩

/-! ## Annotations and attributes -/

theorem tracks_namedValue {levels : Nat}
    (h : ∀ pos, Tracks file pos (skipValue file levels) (AnnotationTable.skipValue levels))
    (pos : Nat) : Tracks file pos (do skip file 2; skipValue file levels)
      (do Parser.skip 2; AnnotationTable.skipValue levels) :=
  (Tracks.skip 2).bind fun next _ _ => h next

theorem tracks_skipValue (levels pos : Nat) :
    Tracks file pos (skipValue file levels) (AnnotationTable.skipValue levels) := by
  induction levels generalizing pos with
  | zero => exact .position fun hpos => .failAt hpos
  | succ levels ih =>
    refine Follows.position fun hpos => Tracks.u1.bind fun _ tag _ => ?_
    refine .ite (fun _ => Tracks.skip 2) fun _ => .ite (fun _ => Tracks.skip 4) fun _ => ?_
    refine .ite (fun _ => ?_) fun _ => .ite (fun _ => ?_) fun _ => .failAt hpos
    · refine (Tracks.skip 2).bind fun _ _ _ => Tracks.u2.bind fun _ count _ => ?_
      exact (Tracks.times (tracks_namedValue ih) count.toNat).bind fun _ _ _ => Tracks.pure ()
    · refine Tracks.u2.bind fun _ count _ => ?_
      exact (Tracks.times ih count.toNat).bind fun _ _ _ => Tracks.pure ()

theorem tracks_skipPairs (levels : Nat) :
    Tracks file pos (skipPairs file levels) (AnnotationTable.skipPairs levels) :=
  (Tracks.counted (tracks_namedValue (tracks_skipValue levels))).bind fun _ _ _ => Tracks.pure ()

section
variable (h : Charts file file.length 0 pool places)
include h

theorem tracks_readAnnotationEntry (pos : Nat) :
    Tracks file pos (readAnnotationEntry file places interest)
      (AnnotationTable.readEntry pool interest) := by
  refine Follows.position fun hpos => Tracks.u2.bind fun _ index _ => ?_
  refine (Tracks.lift (h.textSpan (Nat.le_refl _) hpos)).bind fun _ span _ => ?_
  exact (tracks_skipPairs AnnotationTable.levels).bind fun _ _ _ => Tracks.pure _

theorem tracks_readAnnotations :
    Tracks file pos (readAnnotations file places interest) (AnnotationTable.read pool interest) :=
  (Tracks.counted (tracks_readAnnotationEntry h)).bind fun _ _ _ => Tracks.pure _

theorem tracks_readAttribute (pos : Nat) : Tracks file pos (readAttribute file places interest)
    (Outline.readAttribute pool interest) := by
  refine Follows.position fun hpos => Tracks.u2.bind fun _ nameIndex _ => ?_
  refine Tracks.u4.bind fun _ length _ => (Follows.carve length.toNat).bind ?_
  rintro _ _ body - ⟨hbody, rfl⟩
  refine .ite (fun _ => Tracks.pure _) fun _ => ?_
  refine (Tracks.lift (h.textSpan (Nat.le_refl _) hpos)).bind fun _ span _ => ?_
  exact .ite (fun _ => Tracks.within hbody (tracks_readAnnotations h)) fun _ => Tracks.pure _

theorem tracks_readAttributes (pos : Nat) (interest : Interest) :
    Tracks file pos (readAttributes file places interest) (Outline.readAttributes pool interest) :=
  (Tracks.counted (tracks_readAttribute h)).bind fun _ _ _ => Tracks.pure _

theorem tracks_readField (pos : Nat) :
    Tracks file pos (readField file places) (Outline.readField pool) := by
  refine Tracks.u2.bind fun _ access _ => (tracks_readText h _).bind fun _ name _ => ?_
  refine (tracks_readText h _).bind fun _ descriptor _ => ?_
  exact (tracks_readAttributes h _ Interest.empty).bind fun _ _ _ => Tracks.pure _

theorem tracks_readMethod (pos : Nat) :
    Tracks file pos (readMethod file places interest) (Outline.readMethod pool interest) := by
  refine Tracks.u2.bind fun _ access _ => (tracks_readText h _).bind fun _ name _ => ?_
  refine (tracks_readText h _).bind fun _ descriptor _ => ?_
  exact (tracks_readAttributes h _ interest).bind fun _ _ _ => Tracks.pure _

theorem tracks_readOutline (header : Header) :
    Tracks file pos (readOutline file places header interest)
      (Outline.read pool header interest) := by
  refine (Tracks.counted (tracks_readField h)).bind fun _ fields _ => ?_
  refine (Tracks.counted (tracks_readMethod h)).bind fun _ methods _ => ?_
  exact (tracks_readAttributes h _ interest).bind fun _ _ _ => Tracks.pure _

end

theorem agrees_parseHeader (file : Bytes) :
    Agrees file.length (fun _ => True) (ClassFile.parseHeader file) (parseHeader file) :=
  follows_readHeader.agrees fun _ _ _ hfound => hfound.2

theorem agrees_parseOutline (file : Bytes) (interest : Interest) :
    Agrees file.length (fun _ => True) (ClassFile.parseOutline file interest)
      (parseOutline file interest) := by
  rw [parseOutline_eq, parseOutline]
  have hread : Tracks file 0
      (readHeader file >>= fun found => readOutline file found.1 found.2 interest)
      (Header.read >>= fun found => Outline.read found.1 found.2 interest) := by
    refine follows_readHeader.bind ?_
    rintro _ ⟨pool, header⟩ ⟨places, header'⟩ - ⟨hcharts, rfl⟩
    exact tracks_readOutline hcharts _
  exact hread.agrees fun _ _ _ hvalue => hvalue

/-- The readers of headers and outlines stay in bounds on any bytes. Reading by offsets answers what
they answer, so none of its checks is ever broken, and a malformed file is refused at an offset in
it or right behind it. In a pool that was read every text ends, its length in front of it included,
before what is still to be read, every class names an index that fits into two bytes, and no access
to a place breaks a check. -/
theorem parse_in_bounds (file : Bytes) (interest : Interest) :
    parseHeader file = (ClassFile.parseHeader file).mapError .fault ∧
    parseOutline file interest = (ClassFile.parseOutline file interest).mapError .fault ∧
    (∀ offset cause, ClassFile.parseHeader file = .error (.malformed offset cause) ∨
      ClassFile.parseOutline file interest = .error (.malformed offset cause) →
        offset ≤ file.length) ∧
    ∀ major here places there, here.InFile file → readPool file major here = .ok (places, there) →
      there.InFile file ∧
      (∃ pool, Pool.read major (here.toCursor file) = .ok (pool, there.toCursor file) ∧
        Charts file there.pos 0 pool places) ∧
      (∀ place ∈ places,
        (place.tag = textTag → place.value + 2 + lengthAt file place.value ≤ there.pos) ∧
          (place.tag = classTag → Short place.value)) ∧
      ∀ index offset, textSpan file places index offset ≠ .error .breach ∧
        text file places index offset ≠ .error .breach ∧
        className file places index offset ≠ .error .breach := by
  have hheader := agrees_parseHeader file
  have houtline := agrees_parseOutline file interest
  refine ⟨hheader.eq_mapError, houtline.eq_mapError,
    fun _ _ hfault => hfault.elim hheader.offset_le houtline.offset_le,
    fun major here places there hhere hread => ?_⟩
  have hsame := follows_readPool major here hhere rfl
  rw [hread] at hsame
  generalize hpool : Pool.read major (here.toCursor file) = x at hsame
  cases hsame with
  | @ok pool _ _ hfile hpos hcharts =>
    have hconsumed := hfile.pos_le
    refine ⟨hfile, ⟨pool, rfl, hcharts⟩, fun place hplace => ?_, fun index offset => ?_⟩
    · obtain ⟨i, hi⟩ := Array.mem_iff_getElem?.1 hplace
      exact (hcharts.marks hi).place_bounds
    · have hoffset := Nat.le_max_left offset file.length
      have hbound := Nat.le_max_right offset file.length
      exact ⟨(hcharts.textSpan hconsumed hoffset).ne_breach,
        (hcharts.text hconsumed hoffset hbound).ne_breach,
        (hcharts.className hconsumed hoffset hbound).ne_breach⟩

def cutFile : Bytes := [0xCA, 0xFE, 0xBA, 0xBE, 0, 0, 0, 52, 0, 3, 1, 0, 1, 0x41, 7, 0, 1]

def cutPlaces : Places := #[⟨0, 0⟩, ⟨textTag, 11⟩, ⟨classTag, 1⟩]

theorem parse_in_bounds_cut :
    ClassFile.parseHeader cutFile = .error (.malformed 17 .truncated) ∧ 17 ≤ cutFile.length ∧
    readPool cutFile 52 ⟨8, 17, .truncated⟩ = .ok (cutPlaces, ⟨17, 17, .truncated⟩) ∧
    11 + 2 + lengthAt cutFile 11 ≤ 17 ∧ Short 1 ∧
    className cutFile cutPlaces 2 8 ≠ .error .breach := by
  obtain ⟨-, -, hfault, hpool⟩ := parse_in_bounds cutFile Interest.empty
  have hheader : ClassFile.parseHeader cutFile = .error (.malformed 17 .truncated) := by
    decide +kernel
  have hread : readPool cutFile 52 ⟨8, 17, .truncated⟩ =
      .ok (cutPlaces, ⟨17, 17, .truncated⟩) := by
    decide +kernel
  obtain ⟨-, -, hplaces, haccess⟩ := hpool 52 ⟨8, 17, .truncated⟩ _ _ (by decide) hread
  have htext := hplaces ⟨textTag, 11⟩ (by simp [cutPlaces])
  have hclass := hplaces ⟨classTag, 1⟩ (by simp [cutPlaces])
  exact ⟨hheader, hfault _ _ (.inl hheader), hread, htext.1 rfl, hclass.2 rfl, (haccess 2 8).2.2⟩

end ClassSieve.ClassFile.Scanner
