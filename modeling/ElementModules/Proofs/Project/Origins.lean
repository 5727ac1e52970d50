import ElementModules.Proofs.Project.Rearranging

/-!
# Where the files of an arranged project come from

An arrangement puts files at the places of its plan, and modules of libraries into their directories.
So a file below a directory in which nothing is put comes from below that directory, and a file that is
no module and stands at no place was there before.

## Main results

* `arrange_induct`: what is kept by the steps of an arrangement.
* `exists_of_arrange`, `file_of_arrange`: the files of an arranged project.
-/

namespace ElementModules.Project

open ElementModules.Tree

variable {t : Tree} {s p : Path} {plan : LayoutPlan} {libraries : List Library} {d front : Address}
  {n : Text} {c : Content}

/-- **What an arrangement keeps**: what is kept when something is put at a place, and when a library is
flattened. -/
theorem arrange_induct {P : Tree → Prop} (h : IsOrderly t s plan libraries) (ht : P t)
    (hput : ∀ u u', ∀ p ∈ places s plan, Puts p.address u u' → P u → P u')
    (hflatten : ∀ u u', ∀ l ∈ libraries, Flattens l.dir.address u u' → P u → P u') :
    P (arrange t s plan libraries).1 := by
  have hlaid : P (layOut t s plan) := by
    refine each_induct (each_induct (each_induct ht fun u p hp hu => ?_) fun u r hr hu => ?_)
      fun u b hb hu => ?_
    · have hmem : p ∈ places s plan := List.mem_append_left _ (List.mem_append_left _ hp)
      exact hput u _ p hmem (Puts.of_addsDirs (addsDirs_placeDir (h.down_place hmem) u)) hu
    · have hmem := target_mem (s := s) hr
      exact hput u _ _ hmem (puts_relocate (h.down_source (source_mem hr)) (h.down_place hmem) u) hu
    · have hmem := stub_mem (s := s) hb
      exact hput u _ _ hmem (puts_placeStub (h.down_place hmem) u b.body) hu
  rw [arrange_fst]
  split_ifs
  · refine (each_induct (P := fun u => IsOrderly u s plan libraries ∧ P u)
      ⟨(layOut_isDone h).1, hlaid⟩ fun u l hl ⟨hu, hP⟩ => ?_).2
    have hf := flattens_flatten (hu.down_library hl) hu.proper
    exact ⟨hu.of_flattens hf, hflatten u _ l hl hf hP⟩
  · exact ht

section

variable (h : IsOrderly t s plan libraries)
include h

/-- **A file below a directory** comes from below it, if nothing is put there. -/
theorem exists_of_arrange (hplaces : ∀ p ∈ places s plan, ¬ IsBelow d p.address)
    (hd : d <+: front)
    (hc : (arrange t s plan libraries).1.get? (front ++ [n]) = some (.file c)) :
    ∃ front', d <+: front' ∧ t.get? (front' ++ [n]) = some (.file c) := by
  refine arrange_induct (P := fun u => ∀ front, d <+: front → u.get? (front ++ [n]) = some (.file c) →
    ∃ front', d <+: front' ∧ t.get? (front' ++ [n]) = some (.file c)) h
    (fun front hd hc => ⟨front, hd, hc⟩) (fun u u' p hp hputs hu front hd hc => ?_)
    (fun u u' l hl hf hu front hd hc => ?_) front hd hc
  · have hbelow : IsBelow d (front ++ [n]) := by
      obtain ⟨ns, rfl⟩ := hd
      rw [List.append_assoc]
      exact isBelow_append (by simp)
    rcases hputs _ _ hc with hc | ⟨hway, -⟩
    · exact hu front hd hc
    · exact absurd (hbelow.trans_isPrefix hway.1) (hplaces p hp)
  · rcases hf.fresh _ c hc with hc | ⟨ns, m, he, -, -, hc⟩
    · exact hu front hd hc
    · -- the module moved up, but not out of the directory
      obtain ⟨hfront, hm⟩ := List.append_inj' he rfl
      obtain rfl := List.singleton_inj.1 hm
      refine hu (l.dir.address ++ ns) ?_ (by rwa [List.append_assoc])
      exact (hfront ▸ hd).trans (List.prefix_append _ _)

/-- A file that is no module and stands at no place was there before. -/
theorem file_of_arrange (hplaces : ∀ p ∈ places s plan, p.address ≠ front ++ [n])
    (hn : isModuleName n = false)
    (hc : (arrange t s plan libraries).1.get? (front ++ [n]) = some (.file c)) :
    t.get? (front ++ [n]) = some (.file c) := by
  refine arrange_induct (P := fun u => u.get? (front ++ [n]) = some (.file c) →
    t.get? (front ++ [n]) = some (.file c)) h id (fun u u' p hp hputs hu hc => hu ?_)
    (fun u u' l hl hf hu hc => hu ?_) hc
  · rcases hputs _ _ hc with hc | ⟨-, hdir | he⟩
    · exact hc
    · cases hdir
    · exact absurd he.symm (hplaces p hp)
  · exact (hf.file_iff (fun m hm => by
      rw [List.getLast?_concat] at hm
      exact Option.some.inj hm ▸ hn) c).1 hc

end

end ElementModules.Project
