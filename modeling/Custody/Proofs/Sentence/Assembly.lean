import Custody.Proofs.Sentence.Ways

/-!
# What is assembled from the links

Assembly answers for exactly those sentences of which chains can be made (`Assemblable`): those that
were recorded as chains are covered, the links of the others resolve and have no cycle, and every
way of two or more of them is covered. The units are then the recorded chains and, for each single
sentence that nothing follows, that sentence or the chain of the way to it.

* **`assemble_eq_ok_iff`**: when there is an answer, and which.
* **`assemble_exact`**: one unit for every sentence that is last, and none besides.
-/

namespace Custody

namespace Sentence

variable {sentences units : List Sentence} {parts : List Sentence} {track : Option Track}

/-! ## Sentences that can be served one after the other -/

/-- None of the components is extended, and either all or none of them are recalled. -/
structure Compatible (parts : List Sentence) : Prop where
  not_extended : ∀ s, single s ∈ parts → s.term.isExtended = false
  recalls : (∀ c ∈ parts, c.recallType.isRecall = true) ∨ ∀ c ∈ parts, c.recallType.isRecall = false

theorem checkCovered_chain_eq_ok_iff :
    (chain parts track).checkCovered = .ok () ↔ parts ≠ [] ∧ Compatible parts := by
  -- each of the three refusals is the negation of one condition
  have hempty : parts.isEmpty = true ↔ parts = [] := List.isEmpty_iff
  have hextended : parts.any (·.single?.any (·.term.isExtended)) = true
      ↔ ¬ ∀ s, single s ∈ parts → s.term.isExtended = false := by
    rw [List.any_eq_true]
    constructor
    · rintro ⟨c, hc, hany⟩ hnone
      cases c with
      | single s => exact absurd (hnone s hc) (by simpa [single?] using hany)
      | chain => cases hany
    · intro hsome
      push Not at hsome
      obtain ⟨s, hs, hextended⟩ := hsome
      exact ⟨single s, hs, by simpa [single?] using hextended⟩
  have hmixed : (parts.any (·.recallType.isRecall) && !parts.all (·.recallType.isRecall)) = true
      ↔ ¬ ((∀ c ∈ parts, c.recallType.isRecall = true)
        ∨ ∀ c ∈ parts, c.recallType.isRecall = false) := by
    simp only [Bool.and_eq_true, List.any_eq_true, Bool.not_eq_true', List.all_eq_false, not_or,
      not_forall, exists_prop, Bool.not_eq_true, Bool.not_eq_false]
    exact and_comm
  simp only [checkCovered]
  split
  · next h => simp [hempty.mp h]
  · next hne =>
    split
    · next h => simpa using fun _ hcompatible => hextended.mp h hcompatible.not_extended
    · next hnone =>
      split
      · next h => simpa using fun _ hcompatible => hmixed.mp h hcompatible.recalls
      · next hrecalls =>
        rw [hextended, not_not] at hnone
        rw [hmixed, not_not] at hrecalls
        simpa using ⟨fun h => hne (hempty.mpr h), hnone, hrecalls⟩

/-! ## The checks on the way -/

theorem repeated?_eq_none_iff {seen : List Identifier} {singles : List Single} :
    Single.repeated? seen singles = none
      ↔ Single.Distinct singles ∧ ∀ s ∈ singles, s.identifier ∉ seen := by
  induction singles generalizing seen with
  | nil => simp [Single.repeated?, Single.Distinct]
  | cons s rest ih =>
    rw [Single.repeated?]
    split
    · next hseen => simp [hseen]
    · next hnew =>
      -- what has been seen grows by the first, so the rest must differ from it as well
      rw [ih]
      simp only [Single.Distinct, List.map_cons, List.nodup_cons, List.mem_map, List.mem_cons,
        forall_eq_or_imp, not_or, not_exists, not_and]
      constructor
      · rintro ⟨hdistinct, hrest⟩
        exact ⟨⟨fun t ht heq => (hrest t ht).1 heq, hdistinct⟩, hnew, fun t ht => (hrest t ht).2⟩
      · rintro ⟨⟨hfirst, hdistinct⟩, _, hrest⟩
        exact ⟨hdistinct, fun t ht => ⟨fun heq => hfirst t ht heq, hrest t ht⟩⟩

/-- Every sentence that is followed is recorded. -/
def LinksResolve (singles : List Single) : Prop :=
  ∀ t ∈ singles, ∀ i, t.consecutiveTo = some i → ∃ s ∈ singles, s.identifier = i

theorem unknownParent?_eq_none_iff {singles : List Single} :
    Single.unknownParent? singles = none ↔ LinksResolve singles := by
  simp only [Single.unknownParent?, List.find?_eq_none, List.mem_filterMap, LinksResolve]
  constructor
  · intro h t ht i hlink
    simpa using h i ⟨t, ht, hlink⟩
  · rintro h i ⟨t, ht, hlink⟩
    simpa using h t ht i hlink

theorem coveredPath_eq_ok_iff {way : List Single} {unit : Sentence} :
    coveredPath way = .ok unit ↔ (ofPath way).checkCovered = .ok () ∧ ofPath way = unit := by
  rw [coveredPath, Answered.bind_eq_ok]
  constructor
  · rintro ⟨⟨⟩, hcovered, hunit⟩
    exact ⟨hcovered, Answered.pure_eq_ok.mp hunit⟩
  · rintro ⟨hcovered, hunit⟩
    exact ⟨(), hcovered, Answered.pure_eq_ok.mpr hunit⟩

theorem mapM_coveredPath_eq_ok_iff {ways : List (List Single)} :
    ways.mapM coveredPath = .ok units
      ↔ (∀ way ∈ ways, (ofPath way).checkCovered = .ok ()) ∧ units = ways.map ofPath := by
  rw [Answered.mapM_eq_ok]
  simp only [coveredPath_eq_ok_iff]
  induction ways generalizing units with
  | nil => simp
  | cons way ways ih =>
    rw [List.forall₂_cons_left_iff, List.forall_mem_cons, List.map_cons]
    constructor
    · rintro ⟨unit, rest, ⟨hcovered, rfl⟩, hrest, rfl⟩
      obtain ⟨hall, rfl⟩ := ih.mp hrest
      exact ⟨⟨hcovered, hall⟩, rfl⟩
    · rintro ⟨⟨hcovered, hall⟩, rfl⟩
      exact ⟨_, _, ⟨hcovered, rfl⟩, ih.mpr ⟨hall, rfl⟩, rfl⟩

/-- The sentences that were recorded one by one. -/
abbrev singlesOf (sentences : List Sentence) : List Single := sentences.filterMap single?

/-- **What is checked before there is an answer.** -/
theorem assemble_eq_ok {sentences units : List Sentence} :
    assemble sentences = .ok units
      ↔ (∀ c ∈ sentences.filter isChain, c.checkCovered = .ok ())
        ∧ Single.Distinct (singlesOf sentences) ∧ LinksResolve (singlesOf sentences)
        ∧ (∀ way ∈ Single.paths (singlesOf sentences), (ofPath way).checkCovered = .ok ())
        ∧ (∀ s ∈ singlesOf sentences, ∃ way ∈ Single.paths (singlesOf sentences),
          ∃ t ∈ way, t.identifier = s.identifier)
        ∧ units = sentences.filter isChain ++ (Single.paths (singlesOf sentences)).map ofPath := by
  have hrepeated : Single.repeated? [] (singlesOf sentences) = none
      ↔ Single.Distinct (singlesOf sentences) := by
    simp [repeated?_eq_none_iff]
  rw [← hrepeated, ← unknownParent?_eq_none_iff]
  generalize hsingles : singlesOf sentences = singles
  generalize hways : Single.paths singles = ways
  -- what the checks compute is what the statement asks for
  have hnoWay : (singles.any fun s => !ways.any (·.any (·.identifier = s.identifier))) = false
      ↔ ∀ s ∈ singles, ∃ way ∈ ways, ∃ t ∈ way, t.identifier = s.identifier := by
    simp
  simp only [assemble, hsingles, hways, Answered.bind_eq_ok, Answered.forM_eq_ok]
  -- the checks one after the other: each that fails ends the run
  cases Single.repeated? [] singles with
  | some i => simp [Answered.bind_eq_ok, Answered.throw_ne_ok]
  | none =>
    cases Single.unknownParent? singles with
    | some i => simp [Answered.bind_eq_ok, Answered.throw_ne_ok]
    | none =>
      simp only [Answered.bind_eq_ok, mapM_coveredPath_eq_ok_iff, ← hnoWay]
      cases singles.any fun s => !ways.any (·.any (·.identifier = s.identifier)) with
      | true =>
        simp only [if_true, Answered.bind_eq_ok, Answered.throw_ne_ok, false_and, and_false,
          exists_false, Bool.true_eq_false]
      | false =>
        simp only [Bool.false_eq_true, if_false, Answered.pure_eq_ok, true_and]
        constructor
        · rintro ⟨_, hchains, _, ⟨hways, rfl⟩, rfl⟩
          exact ⟨hchains, hways, rfl⟩
        · rintro ⟨hchains, hways, rfl⟩
          exact ⟨(), hchains, _, ⟨hways, rfl⟩, rfl⟩

/-- Every unit is covered. -/
theorem assemble_covered (h : assemble sentences = .ok units) :
    ∀ unit ∈ units, unit.checkCovered = .ok () := by
  obtain ⟨hchains, _, _, hways, _, rfl⟩ := assemble_eq_ok.mp h
  intro unit hunit
  rcases List.mem_append.mp hunit with hunit | hunit
  · exact hchains unit hunit
  · obtain ⟨way, hway, rfl⟩ := List.mem_map.mp hunit
    exact hways way hway

/-! ## The unit of a way -/

theorem singles_ofPath (way : List Single) : (ofPath way).singles = way := by
  have hmap : (way.map single).filterMap single? = way := by
    rw [List.filterMap_map]
    exact List.filterMap_some
  match way with
  | [] => rfl
  | [s] => rfl
  | s :: t :: rest => exact hmap

theorem ofPath_injective : Function.Injective ofPath := by
  intro way way' heq
  rw [← singles_ofPath way, heq, singles_ofPath]

/-- The unit of the way to a sentence: the sentence itself if it follows none, or else a chain. -/
theorem ofPath_eq {singles way : List Single} {s : Single} (h : Single.WayTo singles s way) :
    ofPath way = if s.consecutiveTo = none then single s else chain (way.map single) none := by
  split
  · next hfirst => rw [h.eq_singleton_iff.mpr hfirst, ofPath]
  · next hfollows =>
    have hne : way ≠ [s] := fun heq => hfollows (h.eq_singleton_iff.mp heq)
    rw [ofPath]
    rintro t rfl
    have hconcat : Single.WayTo singles s ([] ++ [t]) := h
    obtain rfl := hconcat.eq_of_concat
    exact hne rfl

theorem checkCovered_ofPath_iff {singles way : List Single} {s : Single}
    (h : Single.WayTo singles s way) :
    (ofPath way).checkCovered = .ok () ↔ (2 ≤ way.length → Compatible (way.map single)) := by
  have hpos := h.length_pos
  match way with
  | [] => cases hpos
  | [t] => simp [ofPath, checkCovered]
  | t :: u :: rest =>
    have hchain : ofPath (t :: u :: rest) = chain ((t :: u :: rest).map single) none := rfl
    rw [hchain, checkCovered_chain_eq_ok_iff]
    simp

/-! ## When there is an answer -/

/-- Sentences of which chains can be made. -/
structure Assemblable (sentences : List Sentence) : Prop where
  /-- What was recorded as a chain has components that can be served one after the other. -/
  chains : ∀ parts track, chain parts track ∈ sentences → parts ≠ [] ∧ Compatible parts
  distinct : Single.Distinct (singlesOf sentences)
  resolve : LinksResolve (singlesOf sentences)
  acyclic : Single.Acyclic (singlesOf sentences)
  /-- So have the ways of two or more. -/
  ways : ∀ s way, Single.WayTo (singlesOf sentences) s way → Single.IsLast (singlesOf sentences) s →
    2 ≤ way.length → Compatible (way.map single)

theorem forall_checkCovered_iff :
    (∀ c ∈ sentences.filter isChain, c.checkCovered = .ok ())
      ↔ ∀ parts track, chain parts track ∈ sentences → parts ≠ [] ∧ Compatible parts := by
  constructor
  · intro h parts track hmem
    exact checkCovered_chain_eq_ok_iff.mp (h _ (List.mem_filter.mpr ⟨hmem, rfl⟩))
  · intro h c hc
    obtain ⟨hmem, hchain⟩ := List.mem_filter.mp hc
    cases c with
    | single s => cases hchain
    | chain parts track => exact checkCovered_chain_eq_ok_iff.mpr (h parts track hmem)

/-- The ways pass every sentence iff the links have no cycle. -/
theorem forall_mem_paths_iff {singles : List Single} (hdistinct : Single.Distinct singles)
    (hresolve : LinksResolve singles) :
    (∀ s ∈ singles, ∃ way ∈ Single.paths singles, ∃ t ∈ way, t.identifier = s.identifier)
      ↔ Single.Acyclic singles := by
  rw [Single.acyclic_iff hdistinct hresolve]
  refine forall₂_congr fun s hs => ?_
  constructor
  · rintro ⟨way, hway, t, ht, hsame⟩
    -- a path that a sentence is on begins with a way to it
    obtain ⟨last, hlast, _⟩ := (Single.mem_paths hdistinct).mp hway
    obtain ⟨part, hpart, _⟩ := hlast.exists_of_mem ht
    obtain rfl := hdistinct.eq_of_identifier_eq hpart.mem_singles hs hsame
    exact ⟨part, hpart⟩
  · rintro ⟨way, hway⟩
    -- and a way to it leads on to a last sentence, as nothing goes round in a circle
    obtain ⟨before, rfl⟩ := hway.exists_eq_concat
    obtain ⟨last, more, hlast, hisLast⟩ := hway.exists_last hdistinct
    exact ⟨_, (Single.mem_paths hdistinct).mpr ⟨last, hlast, hisLast⟩, s, by simp, rfl⟩

/-- **When there is an answer, and which.** -/
theorem assemble_eq_ok_iff :
    assemble sentences = .ok units ↔ Assemblable sentences
      ∧ units = sentences.filter isChain ++ (Single.paths (singlesOf sentences)).map ofPath := by
  -- the paths are the ways to the last sentences, of which only the longer are checked
  have hcovered (hdistinct : Single.Distinct (singlesOf sentences)) :
      (∀ way ∈ Single.paths (singlesOf sentences), (ofPath way).checkCovered = .ok ())
        ↔ ∀ s way, Single.WayTo (singlesOf sentences) s way →
          Single.IsLast (singlesOf sentences) s → 2 ≤ way.length → Compatible (way.map single) := by
    constructor
    · intro h s way hway hlast
      exact (checkCovered_ofPath_iff hway).mp
        (h way ((Single.mem_paths hdistinct).mpr ⟨s, hway, hlast⟩))
    · intro h way hmem
      obtain ⟨s, hway, hlast⟩ := (Single.mem_paths hdistinct).mp hmem
      exact (checkCovered_ofPath_iff hway).mpr (h s way hway hlast)
  rw [assemble_eq_ok, forall_checkCovered_iff]
  constructor
  · rintro ⟨hchains, hdistinct, hresolve, hways, hpassed, hunits⟩
    exact ⟨⟨hchains, hdistinct, hresolve, (forall_mem_paths_iff hdistinct hresolve).mp hpassed,
      (hcovered hdistinct).mp hways⟩, hunits⟩
  · rintro ⟨h, hunits⟩
    exact ⟨h.chains, h.distinct, h.resolve, (hcovered h.distinct).mpr h.ways,
      (forall_mem_paths_iff h.distinct h.resolve).mpr h.acyclic, hunits⟩

/-! ## One unit for every sentence that is last -/

/-- The ways that are listed lead to the sentences that are last, each to one of its own. -/
theorem exists_lasts {singles : List Single} (hdistinct : Single.Distinct singles)
    (hways : ∀ s ∈ singles, ∃ way, Single.WayTo singles s way) :
    ∃ lasts : List Single, lasts.Perm (singles.filter (Single.IsLast singles))
      ∧ List.Forall₂ (Single.WayTo singles) lasts (Single.paths singles) := by
  obtain ⟨lasts, hlasts⟩ := Answered.exists_forall₂
    (R := fun s way => Single.WayTo singles s way ∧ Single.IsLast singles s)
    fun way hway => (Single.mem_paths hdistinct).mp hway
  have hto := hlasts.imp fun _ _ h => h.1
  -- a sentence has one way and a way one end, so one list repeats nothing if the other does not
  have hunique : Relator.BiUnique (Single.WayTo singles) := by
    refine ⟨fun s t way hs ht => ?_, fun s way way' hway hway' => hway.unique hdistinct hway'⟩
    obtain ⟨before, rfl⟩ := ht.exists_eq_concat
    exact hs.eq_of_concat.symm
  have hnodup : lasts.Nodup := (List.rel_nodup hunique hto).mpr (Single.nodup_paths hdistinct)
  refine ⟨lasts, (List.perm_ext_iff_of_nodup hnodup (hdistinct.nodup.filter _)).mpr fun s => ?_,
    hto⟩
  rw [List.mem_filter, decide_eq_true_iff]
  constructor
  · intro hs
    obtain ⟨way, _, hway, hlast⟩ := Answered.exists_of_mem_right hlasts.flip hs
    exact ⟨hway.mem_singles, hlast⟩
  · rintro ⟨hs, hlast⟩
    obtain ⟨way, hway⟩ := hways s hs
    exact (List.rel_mem hunique hway hto).mpr ((Single.mem_paths hdistinct).mpr ⟨s, hway, hlast⟩)

/-- **Assembly is exact.** It answers for those sentences of which chains can be made, and only for
them. The units are the recorded chains, followed by one unit for every sentence that is last: the
sentence itself if it follows none, or else the chain of the sentences on the way to it. No unit is
listed twice, and every sentence is in one. -/
theorem assemble_exact (sentences : List Sentence) :
    ((∃ units, assemble sentences = .ok units) ↔ Assemblable sentences)
      ∧ ∀ units, assemble sentences = .ok units → ∃ lasts linked,
        units = sentences.filter isChain ++ linked
        ∧ lasts.Perm ((singlesOf sentences).filter (Single.IsLast (singlesOf sentences)))
        ∧ List.Forall₂ (fun s unit => ∃ way, Single.WayTo (singlesOf sentences) s way
            ∧ unit = if s.consecutiveTo = none then single s else chain (way.map single) none)
          lasts linked
        ∧ linked.Nodup
        ∧ ∀ s ∈ singlesOf sentences, ∃ unit ∈ linked, s ∈ unit.singles := by
  refine ⟨⟨fun ⟨_, h⟩ => (assemble_eq_ok_iff.mp h).1,
    fun h => ⟨_, assemble_eq_ok_iff.mpr ⟨h, rfl⟩⟩⟩, fun units h => ?_⟩
  obtain ⟨hable, rfl⟩ := assemble_eq_ok_iff.mp h
  have hways := (Single.acyclic_iff hable.distinct hable.resolve).mp hable.acyclic
  obtain ⟨lasts, hperm, hto⟩ := exists_lasts hable.distinct hways
  refine ⟨lasts, (Single.paths (singlesOf sentences)).map ofPath, rfl, hperm, ?_, ?_, ?_⟩
  · exact List.forall₂_map_right_iff.mpr (hto.imp fun s way hway => ⟨way, hway, ofPath_eq hway⟩)
  · exact (Single.nodup_paths hable.distinct).map ofPath_injective
  · intro s hs
    obtain ⟨way, hway⟩ := hways s hs
    obtain ⟨before, rfl⟩ := hway.exists_eq_concat
    -- the way to a sentence goes on until nothing follows, and passes the sentence
    obtain ⟨last, more, hlast, hisLast⟩ := hway.exists_last hable.distinct
    refine ⟨_, List.mem_map_of_mem ((Single.mem_paths hable.distinct).mpr ⟨last, hlast, hisLast⟩),
      ?_⟩
    rw [singles_ofPath]
    simp

end Sentence

/-- The identifier of one digit over and over, that of a line of the record. -/
def Identifier.ofLine (line : UInt32) : Identifier :=
  ⟨.replicate 32 ⟨line.toNat % 16, Nat.mod_lt _ (by decide)⟩⟩

/-- A committal of four weeks on a line of the record, which may follow that on another line. -/
def Single.linked (line : UInt32) (follows : Option UInt32) : Single where
  identifier := .ofLine line
  caseSequence := 1
  lineSequence := line
  sentencedAt := ⟨738000, by decide, by decide⟩
  offence := { committedAt := ⟨737000, by decide, by decide⟩, code := "TH68010", marks := {} }
  recallType := .notRecalled
  consecutiveTo := follows.map .ofLine
  track := none
  term := .botus (Duration.of .weeks 4)

namespace Sentence

/-- A sentence that two others follow, one by itself, and a chain that was recorded as such. -/
def fork : List Sentence :=
  [single (.linked 3 (some 1)), single (.linked 1 none), single (.linked 2 (some 1)),
    chain [single (.linked 5 none), single (.linked 6 none)] none, single (.linked 4 none)]

theorem paths_fork : Single.paths (singlesOf fork) = [[.linked 1 none, .linked 2 (some 1)],
    [.linked 1 none, .linked 3 (some 1)], [.linked 4 none]] := by
  have hroots : (singlesOf fork).filter (·.consecutiveTo.isNone)
      = [.linked 1 none, .linked 4 none] := by decide +kernel
  -- two followers are sorted, by insertion as far as the kernel is concerned
  have hnext : Single.successors (singlesOf fork) (.linked 1 none)
      = [.linked 2 (some 1), .linked 3 (some 1)] := by
    rw [Single.successors_eq_insertionSort]
    decide +kernel
  rw [Single.paths, hroots, List.flatMap_cons, List.flatMap_cons,
    Single.pathsFrom_of_ne_nil (by simp [hnext]), hnext, List.flatMap_cons, List.flatMap_cons,
    Single.pathsFrom_of_nil (by decide +kernel), Single.pathsFrom_of_nil (by decide +kernel),
    Single.pathsFrom_of_nil (by decide +kernel)]
  rfl

/-- Four units: the recorded chain, one for each of the two followers, and the single sentence. -/
theorem assemble_exact_fork : Assemblable fork
    ∧ ∃ units lasts linked, assemble fork = .ok units
      ∧ units.map (fun unit => unit.sequences.map Prod.snd) = [[5, 6], [1, 2], [1, 3], [4]]
      ∧ units = fork.filter isChain ++ linked
      ∧ lasts.Perm ((singlesOf fork).filter (Single.IsLast (singlesOf fork)))
      ∧ List.Forall₂ (fun s unit => ∃ way, Single.WayTo (singlesOf fork) s way
          ∧ unit = if s.consecutiveTo = none then single s else chain (way.map single) none)
        lasts linked
      ∧ linked.Nodup
      ∧ ∀ s ∈ singlesOf fork, ∃ unit ∈ linked, s ∈ unit.singles := by
  have heval : (fun units : List Sentence =>
        units.map fun unit => unit.sequences.map Prod.snd) <$> assemble fork
      = .ok [[5, 6], [1, 2], [1, 3], [4]] := by
    rw [assemble, paths_fork]
    decide +kernel
  obtain ⟨units, hunits, hlines⟩ := Answered.map_eq_ok.mp heval
  obtain ⟨hable, hexact⟩ := assemble_exact fork
  obtain ⟨lasts, linked, hlinked⟩ := hexact units hunits
  exact ⟨hable.mp ⟨units, hunits⟩, units, lasts, linked, hunits, hlines, hlinked⟩

end Sentence

end Custody
