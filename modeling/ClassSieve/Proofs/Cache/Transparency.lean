import ClassSieve.Proofs.Cache.History

/-!
# What the cache answers against what parsing would answer

A look-up is answered under the policy in force, and as a fresh evaluation would answer it as long
as the same bytes are supplied and every policy so far can evaluate them. A failure that is stored
stays the answer under later policies, also under one that can evaluate the bytes; it is the only
thing that can stand between a look-up and the answer of an evaluation that succeeds.
-/
namespace ClassSieve
open ClassFile

/-- What an entry may hold for a class of which `bytes` were supplied. -/
inductive Entry.Explained (edition : Edition) (policies : List Policy) (name : String)
    (bytes : Bytes) : Entry → Prop
  | resolved {info : ClassInfo} {decision : Decision} {generation : Nat}
      (generation_le : generation ≤ edition.generation)
      (header : parseHeader bytes = .ok info.getHeader)
      (current : generation = edition.generation →
        ∃ seen, edition.policy.evaluate (some name) bytes = .ok (seen, decision)) :
      Explained edition policies name bytes ⟨.resolved info decision, generation⟩
  | failed {fault : Fault} {generation : Nat} {policy : Policy}
      (generation_le : generation ≤ edition.generation) (policy_mem : policy ∈ policies)
      (evaluates : policy.evaluate (some name) bytes = .error fault) :
      Explained edition policies name bytes ⟨.failed fault, generation⟩

namespace Entry
variable {edition : Edition} {policies : List Policy} {name : String} {bytes : Bytes}
  {entry : Entry}

theorem Explained.generation_le (h : entry.Explained edition policies name bytes) :
    entry.generation ≤ edition.generation := by
  cases h with
  | resolved hle => exact hle
  | failed hle => exact hle

theorem Explained.replace (h : entry.Explained edition policies name bytes) (policy : Policy) :
    entry.Explained (edition.replace policy) (policies ++ [policy]) name bytes := by
  cases h with
  | resolved hle hheader hcurrent =>
    refine .resolved (Nat.le_succ_of_le hle) hheader fun heq => ?_
    simp only [Edition.replace] at heq
    omega
  | failed hle hmem hfault =>
    exact .failed (Nat.le_succ_of_le hle) (List.mem_append_left _ hmem) hfault

theorem compute_generation (edition : Edition) (name : Option String) (bytes : Bytes) :
    (compute edition name bytes).generation = edition.generation := by
  rw [compute]
  split <;> rfl

theorem redecide_generation (edition : Edition) (name : String) (entry : Entry) :
    (entry.redecide edition name).generation = edition.generation := by
  rw [redecide]
  split <;> rfl

theorem explained_compute (hmem : edition.policy ∈ policies) :
    (compute edition (some name) bytes).Explained edition policies name bytes := by
  rw [compute]
  cases h : edition.policy.evaluate (some name) bytes with
  | ok result =>
    obtain ⟨info, decision⟩ := result
    exact .resolved (Nat.le_refl _) (Policy.parseHeader_of_evaluate h) fun _ => ⟨info, h⟩
  | error fault => exact .failed (Nat.le_refl _) hmem h

theorem Explained.redecide (h : entry.Explained edition policies name bytes)
    (hparse : entry.needsParse edition name = false) :
    (entry.redecide edition name).Explained edition policies name bytes := by
  cases h with
  | @resolved info _ _ hle hheader hcurrent =>
    refine .resolved (Nat.le_refl _) hheader fun _ => ?_
    have hsame : (ClassInfo.header info.getHeader).getHeader = info.getHeader := rfl
    have hdecide : edition.policy.decideWith (edition.policy.names.decide name)
        (.header info.getHeader) = edition.policy.decide name info :=
      Policy.decideWith_congr hsame hparse
    rw [← hdecide]
    exact ⟨.header info.getHeader, Policy.evaluate_of_parseHeader hheader hparse⟩
  | failed hle hmem hfault => exact .failed (Nat.le_refl _) hmem hfault

theorem answer_generation {stored : Option Entry}
    (hstored : ∀ entry, stored = some entry → entry.generation ≤ edition.generation) :
    (answer edition name bytes stored).generation = edition.generation := by
  cases stored with
  | none => exact compute_generation ..
  | some entry =>
    have hle := hstored entry rfl
    rw [answer]
    split
    · split
      · exact compute_generation ..
      · exact redecide_generation ..
    · omega

theorem explained_answer {stored : Option Entry} {given : List Bytes}
    (hmem : edition.policy ∈ policies) (hbytes : bytes ∈ given)
    (hstored : ∀ entry, stored = some entry →
      ∃ before ∈ given, entry.Explained edition policies name before) :
    ∃ before ∈ given,
      (answer edition name bytes stored).Explained edition policies name before := by
  cases stored with
  | none => exact ⟨bytes, hbytes, explained_compute hmem⟩
  | some entry =>
    obtain ⟨before, hbefore, hentry⟩ := hstored entry rfl
    rw [answer]
    split
    · split
      · exact ⟨bytes, hbytes, explained_compute hmem⟩
      · next hparse =>
        exact ⟨before, hbefore, hentry.redecide (Bool.eq_false_iff.2 hparse)⟩
    · exact ⟨before, hbefore, hentry⟩

theorem Explained.evaluate_eq (h : entry.Explained edition policies name bytes)
    (hgeneration : entry.generation = edition.generation) (hfault : entry.fault? = none) :
    ∃ info decision, edition.policy.evaluate (some name) bytes = .ok (info, decision) ∧
      entry.decision = decision ∧ entry.header? = some info.getHeader := by
  cases h with
  | resolved hle hheader hcurrent =>
    obtain ⟨seen, hseen⟩ := hcurrent hgeneration
    have hsame := Policy.parseHeader_of_evaluate hseen
    rw [hheader, Except.ok.injEq] at hsame
    exact ⟨seen, _, hseen, rfl, congrArg some hsame⟩
  | failed => cases hfault

theorem Explained.exists_policy (h : entry.Explained edition policies name bytes) {fault : Fault}
    (hfault : entry.fault? = some fault) :
    ∃ policy ∈ policies, policy.evaluate (some name) bytes = .error fault := by
  cases h with
  | resolved => cases hfault
  | failed _ hmem hevaluates =>
    cases hfault
    exact ⟨_, hmem, hevaluates⟩

theorem fault?_eq_some_iff {fault : Fault} :
    entry.fault? = some fault ↔ entry.outcome = .failed fault := by
  cases h : entry.outcome <;> simp [fault?, h]

theorem fault?_redecide (edition : Edition) (name : String) (entry : Entry) :
    (entry.redecide edition name).fault? = entry.fault? := by
  rw [redecide, fault?, fault?]
  cases entry.outcome <;> rfl

theorem fault?_answer_of_failed {fault : Fault} (hfault : entry.fault? = some fault) :
    (answer edition name bytes (some entry)).fault? = some fault := by
  have hparse : entry.needsParse edition name = false := by
    rw [needsParse, fault?_eq_some_iff.1 hfault]
  simp only [answer, hparse]
  split
  · rw [if_neg Bool.false_ne_true, fault?_redecide, hfault]
  · exact hfault

theorem fault?_answer_of_evaluate {info : ClassInfo} {decision : Decision} {stored : Option Entry}
    (hevaluate : edition.policy.evaluate (some name) bytes = .ok (info, decision))
    (hstored : stored.bind fault? = none) :
    (answer edition name bytes stored).fault? = none := by
  have hcompute : (compute edition (some name) bytes).fault? = none := by
    rw [compute, hevaluate]
    rfl
  cases stored with
  | none => exact hcompute
  | some entry =>
    rw [answer]
    split
    · split
      · exact hcompute
      · rw [fault?_redecide]
        exact hstored
    · exact hstored

end Entry

namespace Agent
variable {first : Policy} {past : List Operation} {agent : Agent} {operation : Operation}
  {loader : LoaderKey} {name : String} {bytes : Bytes}

/-- The policy in force and all that the cache holds come from the history `past`. -/
structure Explained (first : Policy) (past : List Operation) (agent : Agent) : Prop where
  policy_mem : agent.edition.policy ∈ installed first past
  entry : ∀ {loader name entry}, agent.cache.stored? loader name = some entry →
    ∃ bytes ∈ supplied loader name past,
      entry.Explained agent.edition (installed first past) name bytes

theorem explained_withCache (edition : Edition) (loaders : Loaders) (handles : List Handle)
    (capacity : Nat) :
    Explained edition.policy [] (withCache edition loaders handles capacity) where
  policy_mem := List.mem_singleton.2 rfl
  entry h := by cases h

theorem Explained.lookup (h : agent.Explained first past)
    (hlookup : operation.lookup? = some (loader, name, bytes)) :
    ∃ answer, (agent.step operation).2 = .lookup answer ∧
      answer.entry.generation = agent.edition.generation ∧
      ∃ given ∈ supplied loader name (past ++ [operation]),
        answer.entry.Explained agent.edition (installed first past) name given := by
  obtain ⟨answer, stored, hanswer, hentry, hstored⟩ := step_lookup agent hlookup
  refine ⟨answer, hanswer, ?_, ?_⟩
  · rw [hentry]
    apply Entry.answer_generation
    intro entry hsome
    obtain ⟨given, -, hexplained⟩ := h.entry (hstored entry hsome).2
    exact hexplained.generation_le
  · rw [hentry, supplied_concat]
    apply Entry.explained_answer h.policy_mem (Operation.mem_supply_of_lookup? hlookup _)
    intro entry hsome
    obtain ⟨hload, hknown⟩ := hstored entry hsome
    obtain ⟨given, hgiven, hexplained⟩ := h.entry hknown
    refine ⟨given, ?_, hexplained⟩
    rw [hload, Operation.supply, if_pos ⟨rfl, rfl⟩]
    exact List.mem_cons_of_mem _ hgiven

theorem Explained.step (h : agent.Explained first past) (operation : Operation) :
    (agent.step operation).1.Explained first (past ++ [operation]) := by
  have hedition := step_edition agent operation
  have hentries : ∀ {loader name entry},
      (agent.step operation).1.cache.stored? loader name = some entry →
        ∃ bytes ∈ supplied loader name (past ++ [operation]),
          entry.Explained agent.edition (installed first past) name bytes := by
    intro loader name entry hentry
    rcases stored?_of_step hentry with ⟨bytes, answer, hlookup, hanswer, rfl⟩ | ⟨hother, hbefore⟩
    · obtain ⟨same, hsame, -, hgiven⟩ := h.lookup hlookup
      rw [hanswer] at hsame
      cases hsame
      exact hgiven
    · rw [supplied_concat, Operation.supply_of_lookup?_ne hother]
      exact h.entry hbefore
  cases hpolicy : operation.policy? with
  | none =>
    rw [hpolicy] at hedition
    have hinstalled : installed first (past ++ [operation]) = installed first past := by
      rw [installed_concat, hpolicy, Option.toList_none, List.append_nil]
    refine ⟨?_, fun hentry => ?_⟩
    · rw [hedition, hinstalled]
      exact h.policy_mem
    · rw [hedition, hinstalled]
      exact hentries hentry
  | some policy =>
    rw [hpolicy] at hedition
    have hinstalled : installed first (past ++ [operation]) = installed first past ++ [policy] := by
      rw [installed_concat, hpolicy, Option.toList_some]
    refine ⟨?_, fun hentry => ?_⟩
    · rw [hedition, hinstalled]
      exact List.mem_append_right _ (List.mem_singleton.2 rfl)
    · rw [hedition, hinstalled]
      obtain ⟨bytes, hbytes, hexplained⟩ := hentries hentry
      exact ⟨bytes, hbytes, hexplained.replace policy⟩

theorem Explained.run (h : agent.Explained first past) (rest : List Operation) :
    (agent.run rest).1.Explained first (past ++ rest) := by
  induction rest generalizing agent past with
  | nil => rwa [List.append_nil]
  | cons operation rest ih =>
    rw [List.append_cons]
    exact ih (h.step operation)

theorem explained_run (edition : Edition) (loaders : Loaders) (handles : List Handle)
    (capacity : Nat) (past : List Operation) :
    ((withCache edition loaders handles capacity).run past).1.Explained edition.policy past :=
  (explained_withCache edition loaders handles capacity).run past

/-- A look-up by name is answered under the policy in force; and it answers what an evaluation
does when the class was given the same bytes throughout and no policy so far fails on them. -/
theorem lookup_transparent (edition : Edition) (loaders : Loaders) (handles : List Handle)
    (capacity : Nat) (past : List Operation) (operation : Operation) (loader : LoaderKey)
    (name : String) (bytes : Bytes) (hlookup : operation.lookup? = some (loader, name, bytes)) :
    let agent := ((withCache edition loaders handles capacity).run past).1
    ∃ answer, (agent.step operation).2 = .lookup answer ∧
      answer.entry.generation = agent.edition.generation ∧
      ((∀ given ∈ supplied loader name (past ++ [operation]), given = bytes) →
        (∀ policy ∈ installed edition.policy past,
          ∃ result, policy.evaluate (some name) bytes = .ok result) →
        ∃ info decision,
          agent.edition.policy.evaluate (some name) bytes = .ok (info, decision) ∧
          answer.entry.decision = decision ∧ answer.entry.header? = some info.getHeader) := by
  intro agent
  have hagent := explained_run edition loaders handles capacity past
  obtain ⟨answer, hanswer, hgeneration, given, hgiven, hexplained⟩ := hagent.lookup hlookup
  refine ⟨answer, hanswer, hgeneration, fun hsame hsucceeds => ?_⟩
  rw [hsame given hgiven] at hexplained
  apply hexplained.evaluate_eq hgeneration
  cases hfault : answer.entry.fault? with
  | none => rfl
  | some fault =>
    obtain ⟨policy, hmem, herror⟩ := hexplained.exists_policy hfault
    obtain ⟨result, hresult⟩ := hsucceeds policy hmem
    rw [hresult] at herror
    cases herror

def headerAlone : Bytes :=
  [0xCA, 0xFE, 0xBA, 0xBE, 0, 0, 0, 52, 0, 3, 1, 0, 1, 0x41, 7, 0, 1, 0x80, 0, 0, 2, 0, 0, 0, 0]

def policyOf (verdict : Verdict) : Policy :=
  .ofRules (.ofPatterns [⟨.leading, "", verdict⟩] .excludeVeto) []

def fieldPolicy : Policy :=
  .ofRules (.ofPatterns [] .excludeVeto) [⟨.included, .declaresField ⟨none, none, none, none⟩⟩]

theorem lookup_transparent_refreshed :
    ∃ answer, ((((ofPolicy (policyOf .included) 16).run
        [.load .boot (some "A") headerAlone, .replacePolicy (policyOf .excluded)]).1.step
          (.load .boot (some "A") headerAlone)).2 = .lookup answer ∧
      answer.entry.generation = 2 ∧ answer.entry.decision = .excluded) := by
  obtain ⟨answer, hanswer, hgeneration, hdecided⟩ :=
    lookup_transparent (.first (policyOf .included)) .initial [] 16
      [.load .boot (some "A") headerAlone, .replacePolicy (policyOf .excluded)]
      (.load .boot (some "A") headerAlone) .boot "A" headerAlone rfl
  have hsucceeds : ∀ policy ∈ [policyOf .included, policyOf .excluded],
      ∃ result, policy.evaluate (some "A") headerAlone = .ok result := by
    intro policy hpolicy
    simp only [List.mem_cons, List.not_mem_nil, or_false] at hpolicy
    rcases hpolicy with rfl | rfl <;> exact ⟨_, rfl⟩
  obtain ⟨info, decision, hevaluate, hdecision, -⟩ := hdecided (by decide) hsucceeds
  refine ⟨answer, hanswer, hgeneration, hdecision.trans ?_⟩
  cases hevaluate
  rfl

/-- An evaluation that succeeds is what a load answers, unless a failure is stored for the class.
The failure is then answered as it is, without a look at the bytes, and it is one that a policy
installed at some time of the run gives for them. -/
theorem load_of_evaluate (edition : Edition) (loaders : Loaders) (handles : List Handle)
    (capacity : Nat) (past : List Operation) (loader : LoaderKey) (name : String) (bytes : Bytes)
    (info : ClassInfo) (decision : Decision)
    (hsame : ∀ given ∈ supplied loader name past, given = bytes) :
    let agent := ((withCache edition loaders handles capacity).run past).1
    let stored := (agent.cache.sweepIfDue agent.loaders).stored? loader name
    agent.edition.policy.evaluate (some name) bytes = .ok (info, decision) →
    ∃ answer, (agent.step (.load loader (some name) bytes)).2 = .lookup answer ∧
      (stored.bind Entry.fault? = none →
        answer.entry.fault? = none ∧ answer.entry.decision = decision) ∧
      ∀ fault, stored.bind Entry.fault? = some fault →
        answer.entry = ⟨.failed fault, agent.edition.generation⟩ ∧ answer.bytesRead = false ∧
        ∃ policy ∈ installed edition.policy past,
          policy.evaluate (some name) bytes = .error fault := by
  intro agent stored hevaluate
  have hagent : agent.Explained edition.policy past :=
    explained_run edition loaders handles capacity past
  have hload : (Operation.load loader (some name) bytes).lookup? = some (loader, name, bytes) := rfl
  obtain ⟨answer, hanswer, hgeneration, given, hgiven, hexplained⟩ := hagent.lookup hload
  have hlookup : answer = (agent.cache.getOrCompute agent.loaders agent.edition loader name
      bytes).2 := by
    cases hanswer
    rfl
  have hentry : answer.entry = Entry.answer agent.edition name bytes stored := by
    rw [hlookup, Cache.getOrCompute_entry]
  rw [supplied_concat, Operation.supply, if_pos ⟨rfl, rfl⟩, List.mem_cons] at hgiven
  rw [hgiven.elim id (hsame given)] at hexplained
  refine ⟨answer, hanswer, fun hstored => ?_, fun fault hstored => ?_⟩
  · have hfault : answer.entry.fault? = none := by
      rw [hentry]
      exact Entry.fault?_answer_of_evaluate hevaluate hstored
    obtain ⟨seen, found, hfound, hdecision, -⟩ := hexplained.evaluate_eq hgeneration hfault
    rw [hevaluate, Except.ok.injEq, Prod.mk.injEq] at hfound
    exact ⟨hfault, by rw [hdecision, hfound.2]⟩
  · obtain ⟨entry, hsome, hfailed⟩ := Option.bind_eq_some_iff.1 hstored
    have hfault : answer.entry.fault? = some fault := by
      rw [hentry, hsome]
      exact Entry.fault?_answer_of_failed hfailed
    have hread : answer.bytesRead = false := by
      rw [hlookup]
      exact Cache.getOrCompute_bytesRead _ _ _ _ _ _ hsome (Entry.fault?_eq_some_iff.1 hfailed)
    refine ⟨?_, hread, hexplained.exists_policy hfault⟩
    rw [← hgeneration, ← Entry.fault?_eq_some_iff.1 hfault]

theorem load_of_evaluate_failed :
    ∃ answer, (((ofPolicy fieldPolicy 16).run [.load .boot (some "A") headerAlone,
        .replacePolicy (policyOf .included)]).1.step (.load .boot (some "A") headerAlone)).2 =
          .lookup answer ∧
      answer.entry = ⟨.failed (.malformed 25 .truncated), 2⟩ ∧ answer.bytesRead = false := by
  obtain ⟨answer, hanswer, -, hstored⟩ :=
    load_of_evaluate (.first fieldPolicy) .initial [] 16
      [.load .boot (some "A") headerAlone, .replacePolicy (policyOf .included)]
      .boot "A" headerAlone _ _ (by decide) rfl
  obtain ⟨hentry, hread, -⟩ := hstored (.malformed 25 .truncated) rfl
  exact ⟨answer, hanswer, hentry, hread⟩

/-- A failure outlives the policy under which it came about: the class cannot be read as far as its
fields, and remains a failure under a policy that asks for its name alone. -/
theorem not_load_of_evaluate :
    ¬ ∀ (policy : Policy) (capacity : Nat) (past : List Operation) (loader : LoaderKey)
        (name : String) (bytes : Bytes) (info : ClassInfo) (decision : Decision) (answer : Lookup),
      let agent := ((ofPolicy policy capacity).run past).1
      (∀ operation ∈ past, ∀ given,
        operation.lookup? = some (loader, name, given) → given = bytes) →
      agent.edition.policy.evaluate (some name) bytes = .ok (info, decision) →
      (agent.step (.load loader (some name) bytes)).2 = .lookup answer →
      answer.entry.fault? = none ∧ answer.entry.decision = decision := by
  intro h
  have hsame : ∀ operation ∈ [Operation.load .boot (some "A") headerAlone,
      .replacePolicy (policyOf .included)], ∀ given,
        operation.lookup? = some (.boot, "A", given) → given = headerAlone := by
    intro operation hoperation given hgiven
    simp only [List.mem_cons, List.not_mem_nil, or_false] at hoperation
    rcases hoperation with rfl | rfl
    · cases hgiven
      rfl
    · cases hgiven
  have hrecovers := h fieldPolicy 16 _ .boot "A" headerAlone _ _ _ hsame rfl rfl
  cases hrecovers.1

end Agent

end ClassSieve
