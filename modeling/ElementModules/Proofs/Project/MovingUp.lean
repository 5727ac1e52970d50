import ElementModules.Proofs.Project.Preserving

/-!
# Modules that move up

When a library is flattened, its nested modules are worked on in order, and every move takes a place
from the modules behind it. So a module moves exactly if nothing stood in its place at first and no
module in front of it has its name (`Moves`). What the tree is then (`MovedUp`) and what the entries
say follows by induction on the modules: after the first one moved, the others move that have another
name and would have moved anyway.

Main results: `each_flattenModule` and `Moves.namesLe`, only the first module of its name moves.
-/

namespace ElementModules.Project

open ElementModules.Tree

variable {l : Library} {t t' : Tree} {d : Address} {ns names : List Text} {n : Text} {c : Content}
  {as : List (List Text)}

/-! ### Nested modules -/

/-- A module that lies below a directory, but not in it. -/
def IsNested (t : Tree) (d : Address) (names : List Text) : Prop :=
  ∃ ns n c, names = ns ++ [n] ∧ ns ≠ [] ∧ isModuleName n = true ∧ (∀ m ∈ ns ++ [n], IsFileName m)
    ∧ t.get? (d ++ (ns ++ [n])) = some (.file c)

/-- The modules below a directory that do not lie in it. -/
def nestedIn (l : Library) (t : Tree) (d : Address) : List (List Text) :=
  (t.moduleNames {} d).filter fun names => !l.isFlat (extendPath l.dir names)

section Listed

variable (hproper : t.IsProper)
include hproper

theorem isNested_of_mem (h : names ∈ nestedIn l t d) : IsNested t d names := by
  obtain ⟨hmem, hflat⟩ := List.mem_filter.1 h
  obtain ⟨c, hc, -, -, -, -, n, hlast, hn, -⟩ := mem_moduleNames_iff_get?.1 hmem
  obtain ⟨ns, rfl⟩ := List.getLast?_eq_some_iff.1 hlast
  have hnames : ∀ m ∈ ns ++ [n], IsFileName m := fun m hm =>
    hproper _ _ hc m (List.mem_append_right _ hm)
  refine ⟨ns, n, c, rfl, fun hns => ?_, hn, hnames, hc⟩
  rw [(isFlat_extendPath_concat l hnames).2 hns] at hflat
  cases hflat

theorem mem_nestedIn (h : ns ++ [n] ∈ t.moduleNames {} d) (hns : ns ≠ []) :
    ns ++ [n] ∈ nestedIn l t d := by
  obtain ⟨c, hc, -⟩ := mem_moduleNames_iff_get?.1 h
  have hnames : ∀ m ∈ ns ++ [n], IsFileName m := fun m hm =>
    hproper _ _ hc m (List.mem_append_right _ hm)
  exact List.mem_filter.2 ⟨h, by simpa using mt (isFlat_extendPath_concat l hnames).1 hns⟩

end Listed

/-! ### Places -/

/-- The place in a directory into which a module below it would move. -/
def placeOf (d : Address) (names : List Text) : Address := d ++ names.getLast?.toList

@[simp] theorem placeOf_concat (d : Address) (ns : List Text) (n : Text) :
    placeOf d (ns ++ [n]) = d ++ [n] := by
  rw [placeOf, List.getLast?_concat]
  rfl

theorem placeOf_eq_iff {a b : List Text} : placeOf d a = placeOf d b ↔ a.getLast? = b.getLast? := by
  rw [placeOf, placeOf, List.append_cancel_left_eq]
  cases a.getLast? <;> cases b.getLast? <;> simp

theorem IsNested.ne_placeOf (h : IsNested t d names) (ms : List Text) : d ++ names ≠ placeOf d ms := by
  obtain ⟨ns, n, -, rfl, hns, -⟩ := h
  intro he
  have := congrArg List.length he
  have := List.length_pos_iff.2 hns
  have : ms.getLast?.toList.length ≤ 1 := by cases ms.getLast? <;> simp
  simp only [placeOf, List.length_append, List.length_singleton] at *
  omega

/-! ### One module -/

/-- The entry for a nested module that moves or stays. -/
def moduleEntry (l : Library) (moves : Bool) (names : List Text) : Entry :=
  let target : Path := l.dir.join ⟨names.getLast?.getD []⟩
  if moves then ⟨.normalize, extendPath l.dir names, .moved, some ("→ " ++ target.text)⟩
  else ⟨.normalize, extendPath l.dir names, .conflict, some (target.text ++ " already exists, kept both")⟩

@[simp] theorem moduleEntry_path (l : Library) (moves : Bool) (names : List Text) :
    (moduleEntry l moves names).path = extendPath l.dir names := by
  cases moves <;> rfl

theorem moduleEntry_outcome (l : Library) (moves : Bool) (names : List Text) :
    (moduleEntry l moves names).outcome = if moves then .moved else .conflict := by
  cases moves <;> rfl

/-- **What becomes of a nested module**: it moves if nothing stands in its place. -/
theorem flattenModule_eq (hloc : t.locate l.dir = .ok d) (hdir : t.get? d = some .dir)
    (h : IsNested t d names) :
    flattenModule l t (extendPath l.dir names)
      = if t.get? (placeOf d names) = none
        then (t.transfer (d ++ names) (placeOf d names), some (moduleEntry l true names))
        else (t, some (moduleEntry l false names)) := by
  obtain ⟨ns, n, c, rfl, -, -, hnames, hc⟩ := h
  have hn := hnames n (by simp)
  have htarget := locate_join_of_dir hn hloc hdir
  have hr := hn.requiresDirectory_join l.dir
  have hsource := locate_extendPath_of_get? hnames hloc hc
  have hfile : t.isFile (extendPath l.dir (ns ++ [n])) = true :=
    isFile_iff.2 ⟨_, c, hsource, hc, requiresDirectory_extendPath_concat hn _ _⟩
  rw [flattenModule, Library.flattenedPath?, fileName?_extendPath_concat hn, placeOf_concat]
  simp only [Option.map_some, relocate, hfile]
  cases hg : t.get? (d ++ [n]) with
  | none =>
    have hfree : t.hasNode (l.dir.join ⟨n⟩) = false := by
      simp [hasNode, node, htarget, hg, Except.isOk, Except.toBool]
    have hmoved : t.moveFile (extendPath l.dir (ns ++ [n])) (l.dir.join ⟨n⟩)
        = (t.transfer (d ++ (ns ++ [n])) (d ++ [n]), .ok ()) := by
      rw [moveFile, makeParents_of_locate htarget]
      simp [rename, hsource, htarget, hr, hg]
    simp [hfree, hmoved, resultEntry, moduleEntry]
  | some m =>
    have htaken : t.hasNode (l.dir.join ⟨n⟩) = true := by
      cases m <;> simp [hasNode, node, htarget, hg, hr, Except.isOk, Except.toBool]
    simp [htaken, moduleEntry]

/-! ### The tree after some moves -/

/-- A tree in which some modules below a directory moved into it. -/
structure MovedUp (d : Address) (P : List Text → Prop) (t t' : Tree) : Prop where
  arrived : ∀ names, P names → t'.get? (placeOf d names) = t.get? (d ++ names)
  left : ∀ names, P names → t'.get? (d ++ names) = none
  stays : ∀ a, (∀ names, P names → a ≠ d ++ names ∧ a ≠ placeOf d names) → t'.get? a = t.get? a

section MovedUp

variable {P : List Text → Prop} (h : MovedUp d P t t')
include h

/-- What became of an address. -/
theorem MovedUp.cases (a : Address) :
    (∃ names, P names ∧ a = d ++ names ∧ t'.get? a = none)
      ∨ (∃ names, P names ∧ a = placeOf d names ∧ t'.get? a = t.get? (d ++ names))
      ∨ t'.get? a = t.get? a := by
  by_cases hleft : ∃ names, P names ∧ a = d ++ names
  · obtain ⟨names, hP, rfl⟩ := hleft
    exact .inl ⟨names, hP, rfl, h.left names hP⟩
  · by_cases harrived : ∃ names, P names ∧ a = placeOf d names
    · obtain ⟨names, hP, rfl⟩ := harrived
      exact .inr (.inl ⟨names, hP, rfl, h.arrived names hP⟩)
    · exact .inr (.inr (h.stays a fun names hP =>
        ⟨fun he => hleft ⟨names, hP, he⟩, fun he => harrived ⟨names, hP, he⟩⟩))

/-- Modules that moved to free places. -/
theorem MovedUp.flattens (hnested : ∀ names, P names → IsNested t d names)
    (hfree : ∀ names, P names → t.get? (placeOf d names) = none) : Flattens d t t' where
  outside a ha := by
    rcases h.cases a with ⟨names, hP, rfl, -⟩ | ⟨names, hP, rfl, -⟩ | he
    · obtain ⟨ns, n, c, rfl, -⟩ := hnested names hP
      exact absurd (isBelow_append (by simp)) ha
    · obtain ⟨ns, n, c, rfl, -⟩ := hnested names hP
      rw [placeOf_concat] at ha
      exact absurd (isBelow_append (by simp)) ha
    · exact he
  dir a ha := by
    rcases h.cases a with ⟨names, -, -, he⟩ | ⟨names, hP, -, he⟩ | he
    · rw [he] at ha
      cases ha
    · obtain ⟨ns, n, c, rfl, -, -, -, hc⟩ := hnested names hP
      rw [he, hc] at ha
      cases ha
    · rwa [he] at ha
  fresh a c ha := by
    rcases h.cases a with ⟨names, -, -, he⟩ | ⟨names, hP, rfl, he⟩ | he
    · rw [he] at ha
      cases ha
    · obtain ⟨ns, n, c', rfl, hns, hn, -⟩ := hnested names hP
      rw [he] at ha
      exact .inr ⟨ns, n, placeOf_concat d ns n, hns, hn, ha⟩
    · exact .inl (he ▸ ha)
  kept a c ha := by
    rcases h.cases a with ⟨names, hP, rfl, -⟩ | ⟨names, hP, rfl, -⟩ | he
    · obtain ⟨ns, n, c', rfl, hns, hn, -⟩ := hnested names hP
      exact .inr ⟨ns, n, rfl, hns, hn⟩
    · rw [hfree names hP] at ha
      cases ha
    · exact .inl (he.trans ha)

end MovedUp

/-! ### Which modules move -/

/-- Whether a module moves when some nested modules are worked on in order: nothing stands in its
place, and it is the first one of its name. -/
def Moves (t : Tree) (d : Address) (as : List (List Text)) (names : List Text) : Prop :=
  t.get? (placeOf d names) = none ∧ as.find? (fun ms => ms.getLast? = names.getLast?) = some names

instance (t : Tree) (d : Address) (as : List (List Text)) : DecidablePred (Moves t d as) :=
  fun _ => inferInstanceAs (Decidable (_ ∧ _))

/-- Of the modules with one name the first one moves, if their place is free. -/
theorem exists_moves (hmem : names ∈ as) (hfree : t.get? (placeOf d names) = none) :
    ∃ b ∈ as, Moves t d as b ∧ placeOf d b = placeOf d names := by
  have hsome : (as.find? fun ms => ms.getLast? = names.getLast?).isSome := by
    rw [List.find?_isSome]
    exact ⟨names, hmem, decide_eq_true rfl⟩
  obtain ⟨b, hb⟩ := Option.isSome_iff_exists.1 hsome
  have hlast : b.getLast? = names.getLast? := by simpa using List.find?_some hb
  have hplace : placeOf d b = placeOf d names := placeOf_eq_iff.2 hlast
  exact ⟨b, List.mem_of_find?_eq_some hb, ⟨by rw [hplace, hfree], by rw [hlast, hb]⟩, hplace⟩

section Order

variable {a b : List Text}

/-- Whether the first module moves depends on its place alone. -/
theorem moves_head : Moves t d (a :: as) a ↔ t.get? (placeOf d a) = none := by
  simp [Moves]

theorem moves_cons_iff (hne : b ≠ a) :
    Moves t d (a :: as) b ↔ a.getLast? ≠ b.getLast? ∧ Moves t d as b := by
  rw [Moves, Moves, List.find?_cons]
  by_cases he : a.getLast? = b.getLast?
  · simp [he, hne.symm]
  · simp [he]

/-- What moves behind a module that stays. -/
theorem moves_of_stays (hne : b ≠ a) (htaken : t.get? (placeOf d a) ≠ none) :
    Moves t d as b ↔ Moves t d (a :: as) b := by
  rw [moves_cons_iff hne]
  refine (and_iff_right_of_imp fun h he => ?_).symm
  rw [← placeOf_eq_iff (d := d)] at he
  exact htaken (he ▸ h.1)

/-- The tree after a module moved. -/
theorem get?_moved (ha : IsNested t d a) (hdir : t.get? d = some .dir)
    (hfree : t.get? (placeOf d a) = none) (x : Address) :
    (t.transfer (d ++ a) (placeOf d a)).get? x
      = if x = d ++ a then none else if x = placeOf d a then t.get? (d ++ a) else t.get? x := by
  have hne := ha.ne_placeOf a
  obtain ⟨ns, n, c, rfl, -, -, -, hc⟩ := ha
  have hplace : t.hasPlace (placeOf d (ns ++ [n])) = true := by simp [hasPlace, hdir]
  rw [get?_transfer hc hne hplace (by rw [hfree]; simp), hc]

/-- What moves behind a module that moved. -/
theorem moves_of_moved (ha : IsNested t d a) (hdir : t.get? d = some .dir)
    (hfree : t.get? (placeOf d a) = none) (hne : b ≠ a) :
    Moves (t.transfer (d ++ a) (placeOf d a)) d as b ↔ Moves t d (a :: as) b := by
  have hfile : t.get? (d ++ a) ≠ none := by
    obtain ⟨ns, n, c, rfl, -, -, -, hc⟩ := ha
    simp [hc]
  rw [moves_cons_iff hne, Moves, Moves, get?_moved ha hdir hfree, if_neg (ha.ne_placeOf b).symm]
  by_cases he : a.getLast? = b.getLast?
  · simp [he, placeOf_eq_iff.2 he.symm, hfile]
  · have hplace : placeOf d b ≠ placeOf d a := fun hc => he (placeOf_eq_iff.1 hc).symm
    simp [he, hplace]

end Order

/-! ### All moves -/

/-- The moves of some modules when the first one moves. -/
theorem MovedUp.cons {a : List Text} (hdir : t.get? d = some .dir)
    (ha : IsNested t d a) (hnested : ∀ names ∈ as, IsNested t d names) (hnot : a ∉ as)
    (hfree : t.get? (placeOf d a) = none)
    (h : MovedUp d (fun names => names ∈ as ∧ Moves (t.transfer (d ++ a) (placeOf d a)) d as names)
      (t.transfer (d ++ a) (placeOf d a)) t') :
    MovedUp d (fun names => names ∈ a :: as ∧ Moves t d (a :: as) names) t t' := by
  have hget := get?_moved ha hdir hfree
  have hne : ∀ b ∈ as, b ≠ a := fun b hb he => hnot (he ▸ hb)
  have hiff : ∀ b ∈ as, Moves (t.transfer (d ++ a) (placeOf d a)) d as b ↔ Moves t d (a :: as) b :=
    fun b hb => moves_of_moved ha hdir hfree (hne b hb)
  have hsplit : ∀ b, b ∈ a :: as ∧ Moves t d (a :: as) b →
      b = a ∨ b ∈ as ∧ Moves (t.transfer (d ++ a) (placeOf d a)) d as b := by
    rintro b ⟨hb, hm⟩
    exact (List.mem_cons.1 hb).imp_right fun hb => ⟨hb, (hiff b hb).2 hm⟩
  refine ⟨fun b hb => ?_, fun b hb => ?_, fun x hx => ?_⟩
  · rcases hsplit b hb with rfl | hb
    · -- no module behind it moves to the same place
      rw [h.stays _ fun b' hb' => ⟨((hnested b' hb'.1).ne_placeOf b).symm, fun he => ?_⟩, hget,
        if_neg (ha.ne_placeOf b).symm, if_pos rfl]
      have hnone := hb'.2.1
      rw [← he, hget, if_neg (ha.ne_placeOf b).symm, if_pos rfl] at hnone
      obtain ⟨ns, n, c, rfl, -, -, -, hc⟩ := ha
      rw [hc] at hnone
      cases hnone
    · rw [h.arrived b hb, hget, if_neg (by simpa using hne b hb.1),
        if_neg ((hnested b hb.1).ne_placeOf a)]
  · rcases hsplit b hb with rfl | hb
    · rw [h.stays _ fun b' hb' => ⟨by simpa using (hne b' hb'.1).symm, ha.ne_placeOf b'⟩, hget,
        if_pos rfl]
    · exact h.left b hb
  · obtain ⟨hleft, harrived⟩ := hx a ⟨List.mem_cons_self, moves_head.2 hfree⟩
    rw [h.stays x fun b hb => hx b ⟨List.mem_cons_of_mem a hb.1, (hiff b hb.1).1 hb.2⟩, hget,
      if_neg hleft, if_neg harrived]

/-- **What moves and what the entries say.** -/
theorem each_flattenModule (hloc : t.locate l.dir = .ok d) (hdir : t.get? d = some .dir)
    (hnested : ∀ names ∈ as, IsNested t d names) (hnodup : as.Nodup) :
    (t.each (fun t names => flattenModule l t (extendPath l.dir names)) as).2
        = as.map (fun names => some (moduleEntry l (Moves t d as names) names))
      ∧ MovedUp d (fun names => names ∈ as ∧ Moves t d as names) t
        (t.each (fun t names => flattenModule l t (extendPath l.dir names)) as).1 := by
  induction as generalizing t with
  | nil => exact ⟨rfl, ⟨by simp, by simp, fun _ _ => rfl⟩⟩
  | cons a as ih =>
    obtain ⟨hnot, hnodup⟩ := List.nodup_cons.1 hnodup
    obtain ⟨ha, hnested⟩ := List.forall_mem_cons.1 hnested
    have hne : ∀ b ∈ as, b ≠ a := fun b hb he => hnot (he ▸ hb)
    have hkeeps := keepsDirs_flattenModule l t (extendPath l.dir a)
    rw [each_cons, List.map_cons]
    rw [flattenModule_eq hloc hdir ha] at hkeeps ⊢
    by_cases hfree : t.get? (placeOf d a) = none
    · rw [if_pos hfree] at hkeeps ⊢
      have hstill : ∀ b ∈ as, IsNested (t.transfer (d ++ a) (placeOf d a)) d b := by
        intro b hb
        obtain ⟨ns, n, c, rfl, hns, hn, hnames, hc⟩ := hnested b hb
        refine ⟨ns, n, c, rfl, hns, hn, hnames, ?_⟩
        rw [get?_moved ha hdir hfree, if_neg, if_neg ((hnested _ hb).ne_placeOf a), hc]
        simpa using hne _ hb
      obtain ⟨hanswers, hmoved⟩ := ih (hkeeps.locate hloc) (hkeeps.dir d hdir) hstill hnodup
      refine ⟨?_, .cons hdir ha hnested hnot hfree hmoved⟩
      rw [hanswers, decide_eq_true (moves_head.2 hfree)]
      refine congrArg (List.cons _) (List.map_congr_left fun b hb => ?_)
      rw [decide_eq_decide.2 (moves_of_moved ha hdir hfree (hne b hb))]
    · rw [if_neg hfree]
      have hiff : ∀ b ∈ as, Moves t d as b ↔ Moves t d (a :: as) b := fun b hb =>
        moves_of_stays (hne b hb) hfree
      obtain ⟨hanswers, hmoved⟩ := ih hloc hdir hnested hnodup
      have hP : (fun names => names ∈ as ∧ Moves t d as names)
          = fun names => names ∈ a :: as ∧ Moves t d (a :: as) names := by
        funext b
        refine propext ⟨fun hb => ⟨List.mem_cons_of_mem a hb.1, (hiff b hb.1).1 hb.2⟩, fun hb => ?_⟩
        rcases List.mem_cons.1 hb.1 with rfl | hmem
        · exact absurd (moves_head.1 hb.2) hfree
        · exact ⟨hmem, (hiff b hmem).2 hb.2⟩
      refine ⟨?_, hP ▸ hmoved⟩
      rw [hanswers, decide_eq_false (mt moves_head.1 hfree)]
      refine congrArg (List.cons _) (List.map_congr_left fun b hb => ?_)
      rw [decide_eq_decide.2 (hiff b hb)]

/-- Only the first module of its name moves. -/
theorem Moves.namesLe {ms : List Text} (h : Moves t d as names)
    (hpair : as.Pairwise fun a b => namesLe a b) (hms : ms ∈ as)
    (hlast : ms.getLast? = names.getLast?) : namesLe names ms := by
  obtain ⟨-, front, rest, rfl, hfront⟩ := List.find?_eq_some_iff_append.1 h.2
  rcases List.mem_append.1 hms with hms | hms
  · simpa [hlast] using hfront ms hms
  · rcases List.mem_cons.1 hms with rfl | hms
    · simpa [Tree.namesLe] using lexLe_total charLt_strictLinear.lexLt ms ms
    · exact (List.pairwise_cons.1 (List.pairwise_append.1 hpair).2.1).1 ms hms

end ElementModules.Project
