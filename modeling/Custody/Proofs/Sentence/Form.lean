import Custody.Proofs.Identifier
import Custody.Sentence.Form

/-!
# Sentences read back from their JSON form

The members of a single sentence, those of its term and its kind share one object, and a chain holds
its components as objects in it. Each of them is read under names that the others do not use.

* **`Single.ofMembers?_toMembers`**: a single sentence is read back, whatever its kind.
* **`Sentence.read?_write`**: a sentence is read back however deep its chains are nested.
* **`Sentence.depth_write_le`**: where chains are not nested, the form of a sentence is not deep.
-/

namespace Custody

open Json

/-! ### Offences -/

instance : LawfulJsonForm OffenceMarks where
  ofJson?_toJson m := by
    simp only [toJson, ofJson?]
    simp [List.lookup_append]
  toJson_ne_null _ := nofun
  exact_toJson m := by simp [toJson, Exact]

instance : LawfulJsonForm Offence where
  ofJson?_toJson o := by
    simp only [toJson, ofJson?]
    simp [List.lookup_append]
  toJson_ne_null _ := nofun
  exact_toJson o := by simp [toJson, Exact]

/-! ### Single sentences -/

theorem Term.kindName_ne_chainKind (t : Term) : t.kindName ≠ Sentence.chainKind := by
  cases t <;> simp [kindName, Sentence.chainKind]

namespace Single

theorem required?_type (s : Single) :
    Members.required? s.toMembers "type" = some s.term.kindName := by
  simp [toMembers, List.lookup_append]

/-- **A single sentence is read back from its members, whatever its kind.** -/
theorem ofMembers?_toMembers (s : Single) : ofMembers? s.term.kindName s.toMembers = some s := by
  obtain ⟨identifier, caseSequence, lineSequence, sentencedAt, offence, recallType, consecutiveTo,
    track, term⟩ := s
  cases term <;>
    simp [ofMembers?, toMembers, Term.kindName, Term.toMembers, Term.ofMembers?, List.lookup_append]

theorem exactMembers_toMembers (s : Single) : ExactMembers s.toMembers := by
  have hterm : ExactMembers s.term.toMembers := by
    cases s.term <;> simp [Term.toMembers]
  simp [toMembers, hterm]

end Single

/-! ### Sentences -/

namespace Sentence

mutual

/-- **A sentence is read back however deep its chains are nested.** -/
theorem read?_write : ∀ s : Sentence, read? s.write = some s
  | single s => by
    rw [write, read?]
    simp only [s.required?_type, Option.bind_eq_bind, Option.bind_some,
      if_neg s.term.kindName_ne_chainKind, s.ofMembers?_toMembers, Option.map_some]
  | chain parts track => by
    let members : Members := member "type" chainKind ++ [("components", arr (writeAll parts))]
      ++ memberIfSome "identification_track" track
    have hkind : Members.required? members "type" = some chainKind := by
      simp [members, List.lookup_append]
    have htrack : Members.optional? members "identification_track" = some track := by
      simp [members, List.lookup_append, List.lookup_cons]
    have hparts : readComponents? members = some parts := by
      show readAll? (writeAll parts) = some parts
      exact readAll?_writeAll parts
    show read? (obj members) = some (chain parts track)
    rw [read?]
    simp only [hkind, htrack, hparts, Option.bind_eq_bind, Option.bind_some, if_true]

theorem readAll?_writeAll : ∀ parts : List Sentence, readAll? (writeAll parts) = some parts
  | [] => rfl
  | s :: rest => by
    have hs := read?_write s
    have hrest := readAll?_writeAll rest
    simp [writeAll, readAll?, hs, hrest]

end

mutual

theorem exact_write : ∀ s : Sentence, s.write.Exact
  | single s => s.exactMembers_toMembers
  | chain parts track => by
    have hparts := exactItems_writeAll parts
    rw [write]
    simp [Exact, ExactMembers, hparts]

theorem exactItems_writeAll : ∀ parts : List Sentence, ExactItems (writeAll parts)
  | [] => trivial
  | s :: rest => ⟨exact_write s, exactItems_writeAll rest⟩

end

instance : LawfulJsonForm Sentence where
  ofJson?_toJson s := s.read?_write
  toJson_ne_null s := by cases s <;> exact nofun
  exact_toJson s := s.exact_write

/-! ### Depth -/

theorem depth_toJson_duration (d : Duration) : (toJson d).depth ≤ 1 := by
  refine Nat.succ_le_succ (depthOfMembers_le fun m hm => ?_)
  obtain ⟨e, _, rfl⟩ := List.mem_map.mp hm
  exact Nat.le_refl 0

theorem depth_toJson_offence (o : Offence) : (toJson o).depth ≤ 2 :=
  Nat.le_refl 2

theorem depthOfMembers_term_le (t : Term) : depthOfMembers t.toMembers ≤ 1 := by
  cases t with
  | standard t =>
    simp only [Term.toMembers, List.append_assoc, depthOfMembers_append_le,
      depthOfMembers_member_le]
    exact ⟨depth_toJson_duration _, Nat.zero_le _, Nat.zero_le _, Nat.zero_le _⟩
  | extended custodial licence =>
    simp only [Term.toMembers, depthOfMembers_append_le, depthOfMembers_member_le]
    exact ⟨depth_toJson_duration _, depth_toJson_duration _⟩
  | botus duration => exact depthOfMembers_member_le.mpr (depth_toJson_duration _)

theorem depth_write_single_le (s : Single) : (single s).write.depth ≤ 3 := by
  refine Nat.succ_le_succ ?_
  simp only [Single.toMembers, List.append_assoc, depthOfMembers_append_le,
    depthOfMembers_member_le]
  exact ⟨Nat.zero_le _, Nat.zero_le _, Nat.zero_le _, Nat.zero_le _, Nat.zero_le _,
    depth_toJson_offence _, Nat.zero_le _, depthOfMembers_memberIfSome_le fun _ => Nat.zero_le _,
    depthOfMembers_memberIfSome_le fun _ => Nat.zero_le _,
    Nat.le_succ_of_le (depthOfMembers_term_le s.term)⟩

theorem writeAll_eq_map (parts : List Sentence) : writeAll parts = parts.map write := by
  induction parts with
  | nil => rfl
  | cons s rest ih => rw [writeAll, ih, List.map_cons]

/-- **Where chains are not nested, the form of a sentence is not deep.** -/
theorem depth_write_le {s : Sentence} (h : ∀ part ∈ s.components, part.isChain = false) :
    s.write.depth ≤ 5 := by
  cases s with
  | single s => exact Nat.le_trans (depth_write_single_le s) (by decide)
  | chain parts track =>
    -- chains are not nested, so that the components are single
    have hparts : depthOfItems (writeAll parts) ≤ 3 := by
      rw [writeAll_eq_map]
      refine depthOfItems_le (List.forall_mem_map.mpr fun part hpart => ?_)
      cases part with
      | single s => exact depth_write_single_le s
      | chain => cases h _ hpart
    refine Nat.succ_le_succ ?_
    simp only [List.append_assoc, depthOfMembers_append_le, depthOfMembers_member_le]
    refine ⟨Nat.zero_le _, ?_, depthOfMembers_memberIfSome_le fun _ => Nat.zero_le _⟩
    simp only [depthOfMembers, depth]
    omega

end Sentence

end Custody
