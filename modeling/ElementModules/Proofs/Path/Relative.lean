import ElementModules.Proofs.Tree.Locating

/-!
# Paths that are taken apart and put together

A path that follows a base is cut out of the text of a path from the first place behind the base to
the last one, and its components are those behind the base (`Path.components_of_relativeTo?`). A
relative path that is appended to another one adds its names (`Path.address_join`), and so it leads
further down if both go down.

Main results: `Path.components_of_relativeTo?`, `Path.address_join`, `Path.isDown_join`.
-/

namespace ElementModules

/-! ### Places behind other ones -/

/-- A place, seen from further in front. -/
def Place.shift (offset : Nat) (x : Place) : Place :=
  ⟨x.component, offset + x.start, offset + x.stop⟩

theorem placesAfter_shift (offset k : Nat) (ps : List Text) :
    placesAfter (offset + k) ps = (placesAfter k ps).map (Place.shift offset) := by
  induction ps generalizing k with
  | nil => rfl
  | cons p ps ih =>
    have hoffset : offset + k + p.length + 1 = offset + (k + p.length + 1) := by omega
    cases hp : pieceComponent? p with
    | none => rw [placesAfter_of_none hp, placesAfter_of_none hp, hoffset, ih]
    | some c =>
      rw [placesAfter_of_some hp, placesAfter_of_some hp, hoffset, ih, List.map_cons, Place.shift,
        Nat.add_assoc]

/-- The pieces from a place on: the places from there on are theirs. -/
theorem exists_pieces_from {offset : Nat} {ps : List Text} {before after : List Place} {x : Place}
    (h : placesAfter offset ps = before ++ x :: after) :
    ∃ qs q rs, ps = qs ++ q :: rs ∧ x.start = offset + (slashed qs).length
      ∧ pieceComponent? q ≠ none ∧ placesAfter x.start (q :: rs) = x :: after := by
  induction ps generalizing offset before with
  | nil => simp [placesAfter] at h
  | cons p ps ih =>
    -- the place is one of the other pieces
    have hrest : ∀ {before : List Place},
        placesAfter (offset + p.length + 1) ps = before ++ x :: after →
        ∃ qs q rs, p :: ps = qs ++ q :: rs ∧ x.start = offset + (slashed qs).length
          ∧ pieceComponent? q ≠ none ∧ placesAfter x.start (q :: rs) = x :: after := by
      intro before hb
      obtain ⟨qs, q, rs, rfl, hstart, hq, hplaces⟩ := ih hb
      refine ⟨p :: qs, q, rs, rfl, ?_, hq, hplaces⟩
      rw [length_slashed_cons]
      omega
    cases hp : pieceComponent? p with
    | none => exact hrest (placesAfter_of_none hp ps ▸ h)
    | some c =>
      rw [placesAfter_of_some hp] at h
      cases before with
      | nil =>
        obtain ⟨rfl, rfl⟩ := List.cons.inj h
        exact ⟨[], p, ps, rfl, rfl, by simp [hp], placesAfter_of_some hp ps⟩
      | cons y before => exact hrest (List.cons.inj h).2

namespace Path

/-- The places of a relative path, and its pieces behind slashes. -/
theorem places_of_relative {p : Path} (h : p.isAbsolute = false) :
    p.places = placesAfter 0 (splitSlashes p.text)
      ∨ ∃ ps, splitSlashes p.text = ['.'] :: ps ∧ p.places = ⟨.here, 0, 1⟩ :: placesAfter 2 ps := by
  rcases places_cases p with ⟨hplaces, -⟩ | ⟨first, ps, c, hp, hplaces, ⟨rfl, -, hps⟩ | ⟨rfl, rfl⟩⟩
  · exact .inl hplaces
  · obtain ⟨q, ps, rfl⟩ := List.exists_cons_of_ne_nil hps
    rw [isAbsolute, text_of_pieces hp] at h
    simp [slashed_cons] at h
  · exact .inr ⟨ps, hp, hplaces⟩

/-- **The path from a place on**: its places are those from there on. -/
theorem places_drop {p : Path} (h : p.isAbsolute = false) {before after : List Place} {x : Place}
    (hp : p.places = before ++ x :: after) :
    (⟨p.text.drop x.start⟩ : Path).places.map (Place.shift x.start) = x :: after := by
  have hslashed : '/' :: p.text = slashed (splitSlashes p.text) := by
    obtain ⟨first, ps, hps⟩ := exists_splitSlashes_eq_cons p.text
    rw [hps]
    exact congrArg ('/' :: ·) (text_of_pieces hps)
  have hfree : ∀ q ∈ splitSlashes p.text, '/' ∉ q := slash_not_mem_piece
  -- the pieces from the place on, if it is no dot at the start
  have hcut : ∀ {qs rs : List Text} {q : Text}, splitSlashes p.text = qs ++ q :: rs →
      x.start = (slashed qs).length → pieceComponent? q ≠ none →
      placesAfter x.start (q :: rs) = x :: after →
      (⟨p.text.drop x.start⟩ : Path).places.map (Place.shift x.start) = x :: after := by
    intro qs rs q hpieces hstart hq hplaces
    have htext : p.text.drop x.start = q ++ slashed rs := by
      have hdrop := congrArg (List.drop (x.start + 1)) hslashed
      rw [List.drop_succ_cons, hpieces, slashed_append, hstart] at hdrop
      rw [hstart, hdrop, ← List.drop_drop, List.drop_left]
      rfl
    rw [hpieces] at hfree
    have hsplit : splitSlashes (q ++ slashed rs) = q :: rs :=
      splitSlashes_slashed (hfree q (by simp)) fun r hr => hfree r (by simp [hr])
    have hnil : q ≠ [] := fun hc => hq (by rw [pieceComponent?, if_pos (.inl hc)])
    have hdot : q ≠ ['.'] := fun hc => hq (by rw [pieceComponent?, if_pos (.inr hc)])
    have hplaces' : (⟨p.text.drop x.start⟩ : Path).places = placesAfter 0 (q :: rs) := by
      rw [places, htext, hsplit]
      simp [hnil, hdot]
    rw [hplaces', ← placesAfter_shift, Nat.add_zero, hplaces]
  rcases places_of_relative h with hplaces | ⟨ps, hps, hplaces⟩
  · obtain ⟨qs, q, rs, hpieces, hstart, hq, hx⟩ := exists_pieces_from (hplaces ▸ hp)
    exact hcut hpieces (by rw [hstart, Nat.zero_add]) hq hx
  · rw [hplaces] at hp
    cases before with
    | nil =>
      obtain ⟨rfl, -⟩ := List.cons.inj hp
      have hshift : Place.shift 0 = id := by
        funext y
        simp [Place.shift]
      rw [List.drop_zero, hshift, List.map_id, hplaces]
      exact hp
    | cons y before =>
      obtain ⟨qs, q, rs, hpieces, hstart, hq, hx⟩ := exists_pieces_from (List.cons.inj hp).2
      refine @hcut (['.'] :: qs) rs q (by rw [hps, hpieces]; rfl) ?_ hq hx
      rw [hstart, length_slashed_cons]
      rfl

/-- **What follows a base** has the components that follow those of the base. -/
theorem components_of_relativeTo? {base p r : Path} (hp : p.isAbsolute = false)
    (h : base.relativeTo? p = some r) :
    base.components <+: p.components ∧ p.components = base.components ++ r.components := by
  have hbase : base.components.length = base.places.length := List.length_map _
  rw [relativeTo?] at h
  split_ifs at h with htake
  have hpre : base.components <+: p.components := htake ▸ List.take_prefix _ _
  refine ⟨hpre, ?_⟩
  have hr : r.components = p.components.drop base.places.length := by
    rw [components, components, ← List.map_drop]
    cases hfirst : p.places.drop base.places.length with
    | nil =>
      simp only [hfirst] at h
      obtain rfl := Option.some.inj h
      rfl
    | cons x after =>
      have hplaces : p.places = p.places.take base.places.length ++ x :: after := by
        rw [← hfirst, List.take_append_drop]
      obtain ⟨init, last, hlast⟩ := (List.eq_nil_or_concat (x :: after)).resolve_left (by simp)
      rw [List.concat_eq_append] at hlast
      have hgetLast : p.places.getLast? = some last := by
        rw [hplaces, hlast, ← List.append_assoc, List.getLast?_concat]
      simp only [hfirst, hgetLast] at h
      obtain rfl := Option.some.inj h
      have hdrop := places_drop hp hplaces
      rw [hlast] at hdrop
      obtain ⟨init', last', hplaces', hinit, hlast'⟩ : ∃ init' last',
          (⟨p.text.drop x.start⟩ : Path).places = init' ++ [last'] ∧ init'.map (Place.shift x.start) = init
            ∧ last'.shift x.start = last := by
        obtain ⟨a, b, hab, ha, hb⟩ := List.map_eq_append_iff.1 hdrop
        obtain ⟨y, rfl, hy⟩ := List.map_eq_singleton_iff.1 hb
        exact ⟨a, y, hab, ha, hy⟩
      have hcut : (p.text.take last.stop).drop x.start = (p.text.drop x.start).take last'.stop := by
        rw [List.drop_take, ← hlast', Place.shift]
        congr 1
        show x.start + last'.stop - x.start = last'.stop
        omega
      have htaken := (components_take (p := ⟨p.text.drop x.start⟩) (x := last') hplaces').1
      have hcomponent : ∀ xs : List Place,
          (xs.map (Place.shift x.start)).map Place.component = xs.map Place.component := fun xs => by
        rw [List.map_map]
        rfl
      rw [hcut, ← components, htaken, hlast, ← hcomponent, List.map_append, hinit, List.map_singleton,
        hlast']
  rw [hr, ← hbase]
  obtain ⟨s, hs⟩ := hpre
  rw [← hs, List.drop_left]

/-- Something follows a base if the path starts with its components. -/
theorem exists_relativeTo? {base p : Path} (h : base.components <+: p.components) :
    ∃ r, base.relativeTo? p = some r := by
  have htake : base.components = p.components.take base.places.length := by
    rw [← List.length_map Place.component, ← components]
    exact List.prefix_iff_eq_take.1 h
  rw [relativeTo?, if_pos htake]
  split
  · exact ⟨_, rfl⟩
  · exact ⟨_, rfl⟩

/-! ### Paths put together -/

variable {p q : Path}

/-- The components of all pieces of a path but a slash or a dot at its start. -/
def steps (p : Path) : List Component := (splitSlashes p.text).filterMap pieceComponent?

theorem components_eq_steps (p : Path) :
    p.components = p.steps ∨ ∃ c, (c = .root ∨ c = .here) ∧ p.components = c :: p.steps := by
  obtain ⟨first, ps, hp⟩ := exists_splitSlashes_eq_cons p.text
  rw [components_eq, steps, hp]
  by_cases hnil : first = []
  · cases ps with
    | nil => exact .inl (by rw [hnil]; rfl)
    | cons q ps => exact .inr ⟨.root, .inl rfl, by rw [hnil]; rfl⟩
  · by_cases hhere : first = ['.']
    · exact .inr ⟨.here, .inr rfl, by rw [hhere]; rfl⟩
    · exact .inl (componentsOf_of_ne hnil hhere ps)

/-- A null character in a path is one in a name. -/
theorem null_mem_text_iff : '\x00' ∈ p.text ↔ ∃ n, .name n ∈ p.components ∧ '\x00' ∈ n := by
  constructor
  · intro h
    obtain ⟨first, ps, hp⟩ := exists_splitSlashes_eq_cons p.text
    obtain ⟨n, hn, hnull⟩ : ∃ n ∈ splitSlashes p.text, '\x00' ∈ n := by
      rw [text_of_pieces hp, List.mem_append, slashed, List.mem_flatMap] at h
      rw [hp]
      rcases h with h | ⟨n, hn, h⟩
      · exact ⟨first, List.mem_cons_self, h⟩
      · exact ⟨n, List.mem_cons_of_mem _ hn, by simpa using h⟩
    have hname : pieceComponent? n = some (.name n) := by
      rw [pieceComponent?, if_neg, if_neg]
      · rintro rfl
        exact absurd hnull (by decide)
      · rintro (rfl | rfl) <;> exact absurd hnull (by decide)
    have hstep : .name n ∈ p.steps := List.mem_filterMap.2 ⟨n, hn, hname⟩
    refine ⟨n, ?_, hnull⟩
    rcases components_eq_steps p with hc | ⟨c, -, hc⟩ <;> rw [hc]
    · exact hstep
    · exact List.mem_cons_of_mem c hstep
  · rintro ⟨n, hn, hnull⟩
    exact mem_of_mem_piece n (piece_of_mem_components hn).1 _ hnull

theorem steps_join (h : q.isAbsolute = false) (p : Path) : (p.join q).steps = p.steps ++ q.steps := by
  rw [join, if_neg (by simp [h])]
  by_cases hnil : p.text = []
  · rw [if_pos (by simp [hnil]), steps, steps, hnil]
    rfl
  · by_cases hslash : p.text.getLast? = some '/'
    · obtain ⟨r, hr⟩ := List.getLast?_eq_some_iff.1 hslash
      have hend : splitSlashes (r ++ ['/']) = splitSlashes r ++ [[]] := splitSlashes_append r []
      rw [if_pos (by simp [hslash]), steps, steps, steps, hr, List.append_assoc,
        List.singleton_append, splitSlashes_append, hend, List.filterMap_append,
        List.filterMap_append]
      simp [pieceComponent?]
    · rw [if_neg (by simp [hnil, hslash]), steps, steps, steps, splitSlashes_append,
        List.filterMap_append]

theorem isDown_iff_steps : p.IsDown ↔ .up ∉ p.steps := by
  rcases components_eq_steps p with h | ⟨c, hc, h⟩
  · rw [IsDown, h]
  · rw [IsDown, h, List.mem_cons, not_or]
    rcases hc with rfl | rfl <;> simp

/-- **The components of a path that is appended** to another one are its steps. -/
theorem components_join (h : q.isAbsolute = false) (hp : p.text ≠ []) :
    (p.join q).components = p.components ++ q.steps := by
  rw [components_eq, components_eq, join, if_neg (by simp [h])]
  by_cases hslash : p.text.getLast? = some '/'
  · obtain ⟨r, hr⟩ := List.getLast?_eq_some_iff.1 hslash
    have hend : splitSlashes (r ++ ['/']) = splitSlashes r ++ [[]] := splitSlashes_append r []
    rw [if_pos (by simp [hslash]), hr, List.append_assoc, List.singleton_append,
      splitSlashes_append, hend]
    by_cases hnil : splitSlashes r = [[]]
    · obtain ⟨piece, pieces, hq⟩ := exists_splitSlashes_eq_cons q.text
      rw [hnil, List.singleton_append, List.singleton_append, componentsOf_root (by simp [hq]),
        componentsOf_root (by simp)]
      rfl
    · have hne : splitSlashes r ≠ [] := by
        obtain ⟨piece, pieces, hr⟩ := exists_splitSlashes_eq_cons r
        simp [hr]
      rw [componentsOf_append hne hnil, componentsOf_append hne hnil]
      simp [pieceComponent?, steps]
  · obtain ⟨piece, pieces, hpieces⟩ := exists_splitSlashes_eq_cons p.text
    have hnil : splitSlashes p.text ≠ [[]] := by
      intro hc
      have htext := text_of_pieces hc
      simp [slashed, hp] at htext
    rw [if_neg (by simp [hp, hslash]), splitSlashes_append, componentsOf_append (by simp [hpieces]) hnil,
      steps]

theorem address_eq_steps : p.address = p.steps.filterMap Component.name? := by
  rcases components_eq_steps p with h | ⟨c, hc, h⟩
  · rw [address, h]
  · rw [address, h]
    rcases hc with rfl | rfl <;> rfl

/-- **The address of a path that is appended** to another one. -/
theorem address_join (h : q.isAbsolute = false) (p : Path) :
    (p.join q).address = p.address ++ q.address := by
  rw [address_eq_steps, address_eq_steps, address_eq_steps, steps_join h, List.filterMap_append]

theorem isDown_join (h : q.isAbsolute = false) : (p.join q).IsDown ↔ p.IsDown ∧ q.IsDown := by
  rw [isDown_iff_steps, isDown_iff_steps, isDown_iff_steps, steps_join h, List.mem_append, not_or]

theorem root_not_mem_filterMap (ps : List Text) : .root ∉ ps.filterMap pieceComponent? := by
  intro hc
  obtain ⟨q, -, hq⟩ := List.mem_filterMap.1 hc
  rw [pieceComponent?] at hq
  split_ifs at hq <;> cases hq

theorem isAbsolute_iff : p.isAbsolute = true ↔ .root ∈ p.components := by
  obtain ⟨first, ps, hp⟩ := exists_splitSlashes_eq_cons p.text
  rw [components_eq, hp]
  by_cases hnil : first = []
  · rw [isAbsolute, text_of_pieces hp, hnil]
    cases ps with
    | nil => simp [componentsOf, slashed]
    | cons q ps => simp [componentsOf, slashed]
  · rw [isAbsolute_of_piece hp hnil]
    by_cases hhere : first = ['.']
    · rw [hhere, componentsOf_here]
      simpa using root_not_mem_filterMap ps
    · rw [componentsOf_of_ne hnil hhere]
      simpa using root_not_mem_filterMap (first :: ps)

/-! ### Where paths lead that are put together -/

theorem root_not_mem_steps (p : Path) : .root ∉ p.steps := root_not_mem_filterMap _

/-- A relative path has the goal of its steps, and an absolute one has none. -/
theorem goal_eq_ok_iff {a : Address} :
    p.goal = .ok a ↔ p.isAbsolute = false ∧ p.steps.foldlM Tree.step [] = .ok a := by
  rw [goal, ← Bool.not_eq_true, isAbsolute_iff]
  rcases components_eq_steps p with h | ⟨c, rfl | rfl, h⟩
  · simp [h, root_not_mem_steps]
  · rw [h, List.foldlM_cons]
    simp [Tree.step, bind, Except.bind]
  · rw [h, List.foldlM_cons]
    simp [Tree.step, bind, Except.bind, root_not_mem_steps]

/-- The file name is the last step. -/
theorem getLast?_steps {n : Text} (h : p.fileName? = some n) :
    p.steps.getLast? = some (.name n) := by
  have hlast : p.components.getLast? = some (.name n) := by
    rw [fileName?] at h
    split at h
    next hlast => rw [hlast, Option.some.inj h]
    · cases h
  rcases components_eq_steps p with hc | ⟨c, hfirst, hc⟩ <;> rw [hc] at hlast
  · exact hlast
  · rw [List.getLast?_cons, Option.some.injEq] at hlast
    cases hs : p.steps.getLast? with
    | none => rcases hfirst with rfl | rfl <;> simp [hs] at hlast
    | some d => simpa [hs] using hlast

/-- A path whose last step is a name leads to a place with that name. -/
theorem getLast?_of_goal {a : Address} {n : Text} (h : p.goal = .ok a)
    (hs : p.steps.getLast? = some (.name n)) : a.getLast? = some n := by
  obtain ⟨cs, hcs⟩ := List.getLast?_eq_some_iff.1 hs
  obtain ⟨-, hsteps⟩ := goal_eq_ok_iff.1 h
  rw [hcs, List.foldlM_append] at hsteps
  cases hm : cs.foldlM Tree.step [] with
  | error e =>
    rw [hm] at hsteps
    cases hsteps
  | ok m =>
    have hstep : (Tree.step m (.name n) >>= pure) = .ok a := by rwa [hm] at hsteps
    rw [Tree.step] at hstep
    split_ifs at hstep
    · obtain rfl := Except.ok.inj hstep
      exact List.getLast?_concat
    · cases hstep

/-- Components that lead somewhere from the top lead on from everywhere. -/
theorem foldlM_step_of_nil {b : Address} {cs : List Component}
    (h : cs.foldlM Tree.step [] = .ok b) (r : Address) : cs.foldlM Tree.step r = .ok (r ++ b) := by
  suffices hall : ∀ a, cs.foldlM Tree.step a = .ok b → cs.foldlM Tree.step (r ++ a) = .ok (r ++ b) by
    simpa using hall [] h
  clear h
  intro a h
  induction cs generalizing a with
  | nil => exact congrArg Except.ok (congrArg (r ++ ·) (Except.ok.inj h))
  | cons c cs ih =>
    rw [List.foldlM_cons] at h ⊢
    cases hs : Tree.step a c with
    | error e =>
      rw [hs] at h
      cases h
    | ok m =>
      have hstep : Tree.step (r ++ a) c = .ok (r ++ m) := by
        cases c with
        | root => cases hs
        | here => rw [← Except.ok.inj hs]; rfl
        | up =>
          rw [Tree.step] at hs
          split_ifs at hs with hnil
          rw [← Except.ok.inj hs, Tree.step, if_neg (by simp [hnil]), List.dropLast_append_of_ne_nil hnil]
        | name n =>
          rw [Tree.step] at hs
          split_ifs at hs with hsize
          rw [← Except.ok.inj hs, Tree.step_name hsize, List.append_assoc]
      rw [hs] at h
      rw [hstep]
      exact ih m h

theorem exists_foldlM_of_isPrefix {a b : Address} {cs ds : List Component} (hcs : cs <+: ds)
    (h : ds.foldlM Tree.step a = .ok b) : ∃ m, cs.foldlM Tree.step a = .ok m := by
  obtain ⟨es, rfl⟩ := hcs
  rw [List.foldlM_append] at h
  cases hm : cs.foldlM Tree.step a with
  | error e =>
    rw [hm] at h
    cases h
  | ok m => exact ⟨m, rfl⟩

/-- **The goal of a path that is appended** to another one and does not climb above it. -/
theorem goal_join {a b : Address} (hp : p.text ≠ []) (ha : p.goal = .ok a) (hb : q.goal = .ok b) :
    (p.join q).goal = .ok (a ++ b) := by
  obtain ⟨hrelative, hsteps⟩ := goal_eq_ok_iff.1 hb
  rw [goal] at ha ⊢
  rw [components_join hrelative hp, List.foldlM_append, ha]
  exact foldlM_step_of_nil hsteps a

theorem goal_of_goal_join {a : Address} (hp : p.text ≠ []) (hq : q.isAbsolute = false)
    (h : (p.join q).goal = .ok a) : ∃ b, p.goal = .ok b := by
  rw [goal, components_join hq hp] at h
  exact exists_foldlM_of_isPrefix (List.prefix_append _ _) h

/-- A path that does not climb above another one leads through addresses at or below the goal of that
one, when it is appended. -/
theorem leadsThrough_join {a b : Address} (hp : p.text ≠ []) (hb : q.goal = .ok b)
    (h : (p.join q).LeadsThrough a) : p.LeadsThrough a ∨ ∃ k, p.goal = .ok k ∧ k <+: a := by
  obtain ⟨cs, hcs, hgoal⟩ := h
  obtain ⟨hrelative, hsteps⟩ := goal_eq_ok_iff.1 hb
  rw [components_join hrelative hp] at hcs
  rcases List.prefix_or_prefix_of_prefix hcs (List.prefix_append _ _) with hfront | ⟨ds, rfl⟩
  · exact .inl ⟨cs, hfront, hgoal⟩
  · right
    have hds := (List.prefix_append_right_inj _).1 hcs
    obtain ⟨k, hk⟩ := exists_foldlM_of_isPrefix (List.prefix_append _ _) hgoal
    obtain ⟨m, hm⟩ := exists_foldlM_of_isPrefix hds hsteps
    rw [List.foldlM_append, hk] at hgoal
    exact ⟨k, hk, m, Except.ok.inj ((foldlM_step_of_nil hm k).symm.trans hgoal)⟩

/-- A path that goes down has no steps but its names. -/
theorem steps_of_isDown (h : p.IsDown) : p.steps = p.address.map .name := by
  obtain ⟨ns, hns, -⟩ := exists_names (isDown_iff_steps.1 h)
  rw [address_eq_steps, steps, hns, filterMap_name?_map]

/-- The goal of a path that goes down is its address. -/
theorem IsDown.goal_eq_ok_iff (h : p.IsDown) {a : Address} :
    p.goal = .ok a ↔ p.isAbsolute = false ∧ a = p.address ∧ ∀ n ∈ p.address, Text.size n ≤ 255 := by
  rw [Path.goal_eq_ok_iff, steps_of_isDown h, Tree.foldlM_names_eq_ok_iff, List.nil_append]

/-- A path that goes down leads through the addresses in front of its own. -/
theorem IsDown.isPrefix_of_leadsThrough (h : p.IsDown) {a : Address} (ha : p.LeadsThrough a) :
    a <+: p.address := by
  obtain ⟨cs, hcs, hgoal⟩ := ha
  have hnames : ∀ {cs : List Component}, cs <+: p.address.map .name →
      cs.foldlM Tree.step [] = .ok a → a <+: p.address := by
    intro cs hcs hgoal
    obtain ⟨ns, hns, rfl⟩ := List.prefix_map_iff.1 hcs
    obtain ⟨rfl, -⟩ := Tree.foldlM_names_eq_ok_iff.1 hgoal
    exact hns
  have hfirst : ∀ {c : Component}, cs <+: c :: p.address.map .name →
      (∀ m, Tree.step [] c = .ok m → m = []) → a <+: p.address := by
    intro c hcs hc
    rcases List.prefix_cons_iff.1 hcs with rfl | ⟨ds, rfl, hds⟩
    · rw [← Except.ok.inj hgoal]
      exact List.nil_prefix
    · rw [List.foldlM_cons] at hgoal
      cases hm : Tree.step [] c with
      | error e =>
        rw [hm] at hgoal
        cases hgoal
      | ok m =>
        obtain rfl := hc m hm
        rw [hm] at hgoal
        exact hnames hds hgoal
  rcases (components_of_isDown h).1 with ⟨hc | hc, -⟩ | ⟨hc, -⟩
  · exact hnames (hc ▸ hcs) hgoal
  · exact hfirst (hc ▸ hcs) fun m hm => by simpa [Tree.step, eq_comm] using hm
  · exact hfirst (hc ▸ hcs) fun m hm => by cases hm

/-- A path to which a name is appended, however long it is. -/
theorem join_name {n : Text} (hslash : '/' ∉ n) (hn : pieceComponent? n = some (.name n)) (p : Path) :
    (p.join ⟨n⟩).address = p.address ++ [n] ∧ ((p.join ⟨n⟩).IsDown ↔ p.IsDown) := by
  have hsteps : (⟨n⟩ : Path).steps = [.name n] := by
    rw [steps, splitSlashes_of_not_mem hslash]
    simp [hn]
  have hrelative : (⟨n⟩ : Path).isAbsolute = false := by
    rw [isAbsolute, decide_eq_false_iff_not]
    exact fun hc => hslash (List.mem_of_mem_head? hc)
  rw [address_join hrelative, isDown_join hrelative, address_eq_steps (p := ⟨n⟩),
    isDown_iff_steps (p := ⟨n⟩), hsteps]
  exact ⟨rfl, by simp⟩

/-- The name of a file goes down. -/
theorem isDown_of_fileName? {n : Text} (h : p.fileName? = some n) : (⟨n⟩ : Path).IsDown := by
  rw [fileName?] at h
  split at h
  next m hlast =>
    obtain rfl := Option.some.inj h
    obtain ⟨hpiece, -, -, hdots⟩ := piece_of_mem_components (List.mem_of_getLast? hlast)
    rw [isDown_iff_steps, steps, splitSlashes_of_not_mem (slash_not_mem_piece m hpiece)]
    simp only [List.filterMap_cons, List.filterMap_nil, pieceComponent?, if_neg hdots]
    split_ifs <;> simp
  · cases h

end Path

namespace Tree

variable {t t' : Tree} {p q : Path} {a : Address}

/-- A relative path is followed by its steps. -/
theorem locate_eq_ok_iff_steps : t.locate p = .ok a ↔ p.text ≠ [] ∧ '\x00' ∉ p.text
    ∧ p.isAbsolute = false ∧ t.follow [] p.steps = .ok a := by
  have hroot : .root ∉ p.steps := Path.root_not_mem_filterMap _
  rw [locate_eq_ok_iff_follow, ← Bool.not_eq_true, Path.isAbsolute_iff]
  rcases Path.components_eq_steps p with h | ⟨c, rfl | rfl, h⟩
  · simp [h, hroot]
  · simp [h, follow_cons_eq_ok_iff, step]
  · simp [h, hroot, follow_cons_eq_ok_iff, step]

/-- Paths with the same components lead to the same place. -/
theorem locate_congr (h : p.components = q.components) : t.locate p = t.locate q := by
  have hempty : p.text = [] ↔ q.text = [] := by
    rw [← Path.components_eq_nil_iff, h, Path.components_eq_nil_iff]
  have hnull : '\x00' ∈ p.text ↔ '\x00' ∈ q.text := by
    rw [Path.null_mem_text_iff, h, Path.null_mem_text_iff]
  rw [locate, locate, h]
  simp only [hempty, hnull]

theorem isDir_congr (h : p.components = q.components) : t.isDir p = t.isDir q := by
  rw [Bool.eq_iff_iff, isDir_iff, isDir_iff, locate_congr h]

/-- A path that leads to a node if it leads there in any tree. -/
def IsSteady (t : Tree) (p : Path) : Prop :=
  ∀ (t' : Tree) (a : Address) (n : Node), t'.locate p = .ok a → t.get? a = some n → t.locate p = .ok a

/-- A path that goes down from a directory is steady. -/
theorem isSteady_join (hp : t.isDir p = true) (hq : q.IsDown) : IsSteady t (p.join q) := by
  intro t' a n hl hn
  obtain ⟨hempty, hnull, habsolute, hfollow⟩ := locate_eq_ok_iff_steps.1 hl
  have hrelative : q.isAbsolute = false := by
    rw [Bool.eq_false_iff]
    intro hc
    rw [Path.join, if_pos hc, hc] at habsolute
    cases habsolute
  rw [Path.steps_join hrelative, Path.steps_of_isDown hq, follow_append_eq_ok_iff] at hfollow
  obtain ⟨m, hm, hnames⟩ := hfollow
  obtain ⟨d, hd, hdir⟩ := isDir_iff.1 hp
  have hd' := (locate_eq_ok_iff_steps.1 hd).2.2.2
  obtain rfl := Except.ok.inj ((goal_of_follow hm).symm.trans (goal_of_follow hd'))
  obtain ⟨rfl, hsize, -⟩ := follow_names_eq_ok_iff.1 hnames
  refine locate_eq_ok_iff_steps.2 ⟨hempty, hnull, habsolute, ?_⟩
  rw [Path.steps_join hrelative, Path.steps_of_isDown hq]
  refine follow_append_eq_ok_iff.2 ⟨m, hd', follow_names_eq_ok_iff.2 ⟨rfl, hsize, ?_⟩⟩
  exact fun ns hns hne => get?_of_isPrefix hn ((List.prefix_append_right_inj m).2 hns)
    (by simpa using hne)

end Tree

end ElementModules
