import ClassSieve.Proofs.Cache.Capacity

/-!
# Which classes are trimmed

The stamp of a stored class is the number of admissions up to its last use, where an answer that was
decided anew is not a use. An admission beyond the capacity drops classes with the oldest stamps, so
what it drops was used no later than what it keeps, as long as the last use of what it drops was not
a refresh. A refresh leaves the stamp as it was: a class that has just been answered can be dropped
before one that was not asked for since it was admitted.
-/
namespace ClassSieve
open ClassFile

namespace UseKind

def any : UseKind → Bool := fun _ => true

def stamps : UseKind → Bool
  | admission | hit => true
  | refresh => false

end UseKind

namespace Use

def admissions (uses : List Use) : Nat := uses.countP fun use => use.kind = .admission

def isOf (counted : UseKind → Bool) (key : ClassKey) (use : Use) : Bool :=
  use.key = key && counted use.kind

/-- The number of admissions up to and with the last use of a class, among those of a counted
kind. -/
def admissionsUpTo (counted : UseKind → Bool) (key : ClassKey) (uses : List Use) : Nat :=
  admissions (uses.reverse.dropWhile fun use => !use.isOf counted key)

def lastKind? (key : ClassKey) (uses : List Use) : Option UseKind :=
  (uses.reverse.find? fun use => use.key = key).map Use.kind

theorem admissions_concat (uses : List Use) (use : Use) :
    admissions (uses ++ [use]) = admissions uses + if use.kind = .admission then 1 else 0 := by
  rw [admissions, List.countP_append, List.countP_singleton]
  simp only [admissions, decide_eq_true_eq]

theorem admissionsUpTo_concat (counted : UseKind → Bool) (key : ClassKey) (uses : List Use)
    (use : Use) :
    admissionsUpTo counted key (uses ++ [use]) =
      if use.isOf counted key then admissions (uses ++ [use])
      else admissionsUpTo counted key uses := by
  rw [admissionsUpTo, List.reverse_append, List.reverse_singleton, List.singleton_append,
    List.dropWhile_cons]
  cases use.isOf counted key with
  | true =>
    simp only [Bool.not_true, Bool.false_eq_true, if_false, if_true]
    rw [admissions, admissions, ← List.reverse_concat, List.countP_reverse]
  | false =>
    simp only [Bool.not_false, if_true, Bool.false_eq_true, if_false]
    rfl

theorem admissionsUpTo_le_any (counted : UseKind → Bool) (key : ClassKey) (uses : List Use) :
    admissionsUpTo counted key uses ≤ admissionsUpTo UseKind.any key uses := by
  apply List.Sublist.countP_le
  induction uses.reverse with
  | nil => exact .refl _
  | cons use rest ih =>
    rw [List.dropWhile_cons, List.dropWhile_cons]
    cases hany : use.isOf UseKind.any key with
    | true =>
      simp only [Bool.not_true, Bool.false_eq_true, if_false]
      split
      · exact ((List.dropWhile_suffix _).sublist).cons _
      · exact .refl _
    | false =>
      have hcounted : use.isOf counted key = false := by
        rw [isOf, UseKind.any, Bool.and_true] at hany
        rw [isOf, hany, Bool.false_and]
      simp only [hcounted, Bool.not_false, if_true]
      exact ih

theorem admissionsUpTo_stamps {key : ClassKey} {uses : List Use}
    (h : lastKind? key uses ≠ some .refresh) :
    admissionsUpTo UseKind.stamps key uses = admissionsUpTo UseKind.any key uses := by
  rw [lastKind?] at h
  rw [admissionsUpTo, admissionsUpTo]
  generalize uses.reverse = latest at h
  induction latest with
  | nil => rfl
  | cons use rest ih =>
    rw [List.find?_cons] at h
    rw [List.dropWhile_cons, List.dropWhile_cons]
    by_cases hkey : use.key = key
    · have hstamps : UseKind.stamps use.kind = true := by
        cases hkind : use.kind with
        | refresh =>
          rw [decide_eq_true hkey] at h
          exact absurd (congrArg some hkind) h
        | admission => rfl
        | hit => rfl
      simp [isOf, hkey, hstamps, UseKind.any]
    · simp only [hkey, decide_false] at h
      simp only [isOf, hkey, decide_false, Bool.false_and, Bool.not_false, if_true]
      exact ih h

end Use

namespace Cache
variable {cache after : Cache} {loaders : Loaders} {loader : LoaderKey} {name : String}
  {kind : UseKind}

theorem admissions_trim (cache : Cache) : cache.trim.admissions = cache.admissions := by
  by_cases hsize : cache.size ≤ cache.kept
  · rw [trim_of_le hsize]
  · rw [trim_of_lt (by omega)]

theorem admissions_store (cache : Cache) (loader : LoaderKey) (name : String) (entry : Entry) :
    (cache.store loader name entry).admissions = cache.admissions + 1 := by
  rw [store_eq]
  split
  · exact admissions_trim _
  · rfl

theorem slot?_grown_of_store {entry : Entry} {other : LoaderKey} {otherName : String}
    {slot : CacheSlot}
    (h : (cache.store loader name entry).slot? other otherName = some slot) :
    (cache.grown loader name entry).slot? other otherName = some slot := by
  rw [store_eq] at h
  split at h
  · exact slot?_of_trim h
  · exact h

theorem Used.admissions (hused : cache.Used loaders loader name kind after) :
    after.admissions = cache.admissions + if kind = .admission then 1 else 0 := by
  cases hused with
  | hit stored same => rfl
  | refresh stored same => rfl
  | admission missing served same => exact admissions_store _ _ _ _

/-- The slots behind a use: that of the class is stamped unless the use is a refresh, and every
other stamp is as it was. -/
theorem Used.lastUse (hused : cache.Used loaders loader name kind after) {other : LoaderKey}
    {otherName : String} {slot : CacheSlot} (hslot : after.slot? other otherName = some slot) :
    if (loader, name) = (other, otherName) ∧ kind.stamps then slot.lastUse = after.admissions
    else ∃ before, cache.slot? other otherName = some before ∧
      before.lastUse = slot.lastUse := by
  cases hused with
  | @hit found counts stored same =>
    change (cache.setSlot loader name _).slot? other otherName = some slot at hslot
    rw [slot?_setSlot] at hslot
    split at hslot
    · next hkey =>
      cases hslot
      rw [if_pos ⟨Prod.ext hkey.1 hkey.2, rfl⟩]
      rfl
    · next hkey =>
      rw [if_neg fun h => hkey ⟨congrArg Prod.fst h.1, congrArg Prod.snd h.1⟩]
      exact ⟨slot, hslot, rfl⟩
  | @refresh found entry counts stored same =>
    change (cache.setSlot loader name _).slot? other otherName = some slot at hslot
    rw [if_neg fun h => Bool.false_ne_true h.2]
    rw [slot?_setSlot] at hslot
    split at hslot
    · next hkey =>
      cases hslot
      rw [← hkey.1, ← hkey.2]
      exact ⟨found, stored, rfl⟩
    · exact ⟨slot, hslot, rfl⟩
  | @admission entry counts missing served same =>
    rw [admissions_store]
    have hgrown := slot?_grown_of_store hslot
    rw [slot?_grown] at hgrown
    split at hgrown
    · next hkey =>
      cases hgrown
      rw [if_pos ⟨Prod.ext hkey.1 hkey.2, rfl⟩]
    · next hkey =>
      rw [if_neg fun h => hkey ⟨congrArg Prod.fst h.1, congrArg Prod.snd h.1⟩]
      exact ⟨slot, hgrown, rfl⟩

theorem Used.lastUse_le (hused : cache.Used loaders loader name .admission after) (h : cache.Sound)
    {dropped kept : ClassKey} {old new : CacheSlot}
    (hold : cache.slot? dropped.1 dropped.2 = some old)
    (hdropped : after.slot? dropped.1 dropped.2 = none)
    (hnew : after.slot? kept.1 kept.2 = some new) : old.lastUse ≤ new.lastUse := by
  cases hused with
  | @admission entry counts missing served same =>
    have hgrown : ((cache.recount counts).grown loader name entry).slot? dropped.1 dropped.2 =
        some old := by
      rw [slot?_grown, if_neg]
      · exact hold
      · rintro ⟨rfl, rfl⟩
        cases missing.symm.trans hold
    have hkept := slot?_grown_of_store hnew
    rw [store_eq] at hdropped hnew
    split at hdropped
    · next hfull =>
      rw [if_pos hfull] at hnew
      exact lastUse_le_of_trim ((h.recount counts).distinct.grown loader name entry) dropped kept
        hgrown hdropped hkept (Option.isSome_of_eq_some hnew)
    · cases hgrown.symm.trans hdropped

end Cache

namespace Agent

def uses (agent : Agent) : List Operation → List Use
  | [] => []
  | operation :: rest => (agent.use? operation).toList ++ (agent.step operation).1.uses rest

theorem uses_concat (agent : Agent) (past : List Operation) (operation : Operation) :
    agent.uses (past ++ [operation]) =
      agent.uses past ++ ((agent.run past).1.use? operation).toList := by
  induction past generalizing agent with
  | nil =>
    rw [List.nil_append, uses, uses, uses, List.append_nil, List.nil_append]
    rfl
  | cons first rest ih =>
    rw [List.cons_append, uses, uses, ih, List.append_assoc]
    rfl

/-- The stamps are right for a history of uses. -/
structure Stamped (history : List Use) (agent : Agent) : Prop where
  sound : agent.cache.Sound
  admissions_eq : agent.cache.admissions = Use.admissions history
  lastUse_eq : ∀ {loader name slot}, agent.cache.slot? loader name = some slot →
    slot.lastUse = Use.admissionsUpTo UseKind.stamps (loader, name) history

variable {history : List Use} {agent : Agent}

theorem stamped_withCache (edition : Edition) (loaders : Loaders) (handles : List Handle)
    (capacity : Nat) : (withCache edition loaders handles capacity).Stamped [] where
  sound := Cache.sound_ofCapacity capacity loaders
  admissions_eq := rfl
  lastUse_eq h := nomatch h

theorem Stamped.step (h : agent.Stamped history) (operation : Operation) :
    (agent.step operation).1.Stamped (history ++ (agent.use? operation).toList) := by
  have hcleared := cleared_cleared agent operation
  have hsound := h.sound.cleared hcleared
  have hadmissions := hcleared.admissions.trans h.admissions_eq
  cases huse : agent.use? operation with
  | none =>
    obtain ⟨counts, hstep, -⟩ := step_of_unused huse
    rw [Option.toList_none, List.append_nil]
    refine ⟨?_, ?_, ?_⟩
    · rw [hstep]
      exact hsound.recount counts
    · rw [hstep]
      exact hadmissions
    · intro loader name slot hslot
      rw [hstep] at hslot
      exact h.lastUse_eq (hcleared.slots hslot)
  | some use =>
    have hused := used_step huse
    rw [Option.toList_some]
    refine ⟨hsound.used hused, ?_, ?_⟩
    · rw [hused.admissions, hadmissions, Use.admissions_concat]
    · intro loader name slot hslot
      have hlast := hused.lastUse hslot
      rw [Use.admissionsUpTo_concat]
      by_cases hof : use.isOf UseKind.stamps (loader, name)
      · have hboth : use.key = (loader, name) ∧ use.kind.stamps := by
          simpa [Use.isOf] using hof
        rw [if_pos hboth] at hlast
        rw [if_pos hof, hlast, hused.admissions, hadmissions, Use.admissions_concat]
      · have hneither : ¬ (use.key = (loader, name) ∧ use.kind.stamps) := by
          simpa [Use.isOf] using hof
        rw [if_neg hneither] at hlast
        obtain ⟨before, hbefore, heq⟩ := hlast
        rw [if_neg hof, ← heq]
        exact h.lastUse_eq (hcleared.slots hbefore)

theorem ofPolicy_eq (policy : Policy) (capacity : Nat) :
    ofPolicy policy capacity = withCache (.first policy) .initial [] capacity := rfl

theorem stamped_run (edition : Edition) (loaders : Loaders) (handles : List Handle)
    (capacity : Nat) (past : List Operation) :
    ((withCache edition loaders handles capacity).run past).1.Stamped
      ((withCache edition loaders handles capacity).uses past) := by
  induction past using List.reverseRecOn with
  | nil => exact stamped_withCache edition loaders handles capacity
  | append_singleton past operation ih =>
    rw [run_append, uses_concat]
    exact ih.step operation

/-- An admission drops only classes that were used no later than those it keeps, refreshes aside;
and refreshes included, where the class that is dropped was not last used by one. -/
theorem used_no_later_of_dropped (edition : Edition) (loaders : Loaders) (handles : List Handle)
    (capacity : Nat) (past : List Operation) (operation : Operation)
    (admitted dropped kept : ClassKey) :
    let start := withCache edition loaders handles capacity
    let agent := (start.run past).1
    let next := (agent.step operation).1
    let uses := start.uses (past ++ [operation])
    agent.use? operation = some ⟨admitted, .admission⟩ →
    dropped ∈ (agent.cleared operation).classes → dropped ∉ next.cache.classes →
    kept ∈ next.cache.classes →
    Use.admissionsUpTo UseKind.stamps dropped uses ≤ Use.admissionsUpTo UseKind.stamps kept uses ∧
      (Use.lastKind? dropped uses ≠ some .refresh →
        Use.admissionsUpTo UseKind.any dropped uses ≤ Use.admissionsUpTo UseKind.any kept uses) := by
  intro start agent next uses huse hheld hdropped hkept
  have hagent : agent.Stamped (start.uses past) :=
    stamped_run edition loaders handles capacity past
  have hnext : next.Stamped uses := by
    have hstep := hagent.step operation
    rwa [← uses_concat] at hstep
  have hcleared := cleared_cleared agent operation
  have hsound := hagent.sound.cleared hcleared
  rw [Cache.mem_classes hsound.distinct] at hheld
  rw [Cache.mem_classes hnext.sound.distinct] at hdropped hkept
  obtain ⟨old, hold⟩ := Option.isSome_iff_exists.1 hheld
  obtain ⟨new, hnew⟩ := Option.isSome_iff_exists.1 hkept
  have hnone : next.cache.slot? dropped.1 dropped.2 = none := by
    rwa [Option.not_isSome_iff_eq_none] at hdropped
  have hused := used_step huse
  have hle := hused.lastUse_le hsound hold hnone hnew
  -- the class that is admitted is not one that was held, so its stamp is no matter here
  have hother : admitted ≠ dropped := by
    rintro rfl
    cases hused.missing.symm.trans hold
  have hstamp : Use.admissionsUpTo UseKind.stamps dropped uses =
      Use.admissionsUpTo UseKind.stamps dropped (start.uses past) := by
    have hnot : Use.isOf UseKind.stamps dropped ⟨admitted, .admission⟩ = false := by
      simp [Use.isOf, hother]
    change Use.admissionsUpTo UseKind.stamps dropped (start.uses (past ++ [operation])) = _
    rw [uses_concat]
    change Use.admissionsUpTo UseKind.stamps dropped
      (start.uses past ++ (agent.use? operation).toList) = _
    rw [huse, Option.toList_some, Use.admissionsUpTo_concat, if_neg (by simp [hnot])]
  have hstamps : Use.admissionsUpTo UseKind.stamps dropped uses ≤
      Use.admissionsUpTo UseKind.stamps kept uses := by
    rw [hstamp, ← hagent.lastUse_eq (hcleared.slots hold), ← hnext.lastUse_eq hnew]
    exact hle
  refine ⟨hstamps, fun hkind => ?_⟩
  calc
    Use.admissionsUpTo UseKind.any dropped uses = Use.admissionsUpTo UseKind.stamps dropped uses :=
      (Use.admissionsUpTo_stamps hkind).symm
    _ ≤ Use.admissionsUpTo UseKind.stamps kept uses := hstamps
    _ ≤ Use.admissionsUpTo UseKind.any kept uses := Use.admissionsUpTo_le_any _ _ _

def refreshingRun : List Operation :=
  sixteenLoads ++ [.replacePolicy .idle, .load .boot (some "a") []]

def seventeenthLoad : Operation := .load .boot (some "q") []

def refreshedAgent : Agent := ((withCache (.first .idle) .initial [] 16).run refreshingRun).1

theorem use?_seventeenth :
    refreshedAgent.use? seventeenthLoad = some ⟨(.boot, "q"), .admission⟩ := by decide +kernel

theorem dropped_seventeenth :
    let next := (refreshedAgent.step seventeenthLoad).1.cache
    (.boot, "a") ∉ next.classes ∧ (.boot, "b") ∉ next.classes ∧ (.boot, "d") ∈ next.classes := by
  intro next
  have hsound : (refreshedAgent.cleared seventeenthLoad).Sound :=
    (stamped_run _ _ _ _ _).sound.cleared (cleared_cleared refreshedAgent _)
  have hbound : (refreshedAgent.cleared seventeenthLoad).capacity = 16 := by decide +kernel
  obtain ⟨entry, counts, hnext⟩ :=
    (used_step use?_seventeenth).eq_trim hsound (by decide +kernel)
  have hdistinct := (hsound.recount counts).distinct.grown .boot "q" entry
  generalize hgrown : ((refreshedAgent.cleared seventeenthLoad).recount counts).grown
    .boot "q" entry = grown at hnext hdistinct
  have huses : grown.uses =
      (sixteenNames ++ ["q"]).zipIdx.map fun place => (place.2 + 1, .boot, place.1) := by
    rw [← hgrown]
    rfl
  have hkept : grown.kept = 14 := by
    rw [← hgrown, Cache.kept, Cache.capacity_grown, Cache.capacity_recount, hbound]
  have holdest : grown.oldest = [(1, .boot, "a"), (2, .boot, "b"), (3, .boot, "c")] := by
    -- the uses come in the order of their stamps, so sorting leaves them as they are
    rw [Cache.oldest, huses, hkept, List.mergeSort_of_pairwise (by decide)]
    rfl
  have hsize : grown.kept < grown.size := by
    rw [← Cache.length_uses, huses, hkept]
    decide
  have hclasses : next.classes = grown.classes \ (grown.oldest.map Prod.snd).toFinset := by
    rw [← Cache.classes_trim hdistinct hsize, ← hnext]
  rw [hclasses, holdest, Cache.classes, huses]
  decide

theorem used_no_later_of_dropped_second :
    let uses := (withCache (.first .idle) .initial [] 16).uses
      (refreshingRun ++ [seventeenthLoad])
    Use.lastKind? (.boot, "b") uses = some .admission ∧
      Use.admissionsUpTo UseKind.any (.boot, "b") uses ≤
        Use.admissionsUpTo UseKind.any (.boot, "d") uses := by
  intro uses
  have hkind : Use.lastKind? (.boot, "b") uses = some .admission := by decide +kernel
  obtain ⟨-, hle⟩ := used_no_later_of_dropped (.first .idle) .initial [] 16 refreshingRun
    seventeenthLoad (.boot, "q") (.boot, "b") (.boot, "d") use?_seventeenth (by decide +kernel)
    dropped_seventeenth.2.1 dropped_seventeenth.2.2
  exact ⟨hkind, hle (by rw [hkind]; decide)⟩

/-- The class that was answered last is dropped, and one that was not asked for since it was
admitted is kept. -/
theorem not_used_no_later_of_dropped :
    ¬ ∀ (policy : Policy) (capacity : Nat) (past : List Operation) (operation : Operation)
        (admitted dropped kept : ClassKey),
      let start := ofPolicy policy capacity
      let agent := (start.run past).1
      let next := (agent.step operation).1
      let uses := start.uses (past ++ [operation])
      agent.use? operation = some ⟨admitted, .admission⟩ →
      dropped ∈ (agent.cleared operation).classes → dropped ∉ next.cache.classes →
      kept ∈ next.cache.classes →
      Use.admissionsUpTo UseKind.any dropped uses ≤ Use.admissionsUpTo UseKind.any kept uses := by
  intro h
  simp only [ofPolicy_eq] at h
  have hle := h .idle 16 refreshingRun seventeenthLoad (.boot, "q") (.boot, "a") (.boot, "d")
    use?_seventeenth (by decide +kernel) dropped_seventeenth.1 dropped_seventeenth.2.2
  have hdropped : Use.admissionsUpTo UseKind.any (.boot, "a")
      ((withCache (.first .idle) .initial [] 16).uses (refreshingRun ++ [seventeenthLoad])) =
        16 := by decide +kernel
  have hkept : Use.admissionsUpTo UseKind.any (.boot, "d")
      ((withCache (.first .idle) .initial [] 16).uses (refreshingRun ++ [seventeenthLoad])) =
        4 := by decide +kernel
  rw [hdropped, hkept] at hle
  omega

end Agent

end ClassSieve
