import ElementModules.Library

/-!
# Components of paths

The text of a path falls into pieces between slashes, and its components are those of its pieces. The
parent of a path is cut out of its text, and it has all components but the last
(`Path.components_of_parent?`). A file name that is appended to a path is one more component
(`Path.join_piece`).

A path without the component `..` goes **down**: it leads to the address that its names spell, if it
leads anywhere.

## Main results

* `Path.components_of_parent?`, `Path.join_piece`: the components of the parent, and those of a path
  with a name appended.
* `Path.fileName?_of_components`, `Library.isFlat_iff`: the file name, and when a path is flat.
-/

namespace ElementModules

/-! ### Pieces -/

/-- The component of a piece behind the first one. -/
def pieceComponent? (piece : Text) : Option Component :=
  if piece = [] ∨ piece = ['.'] then none
  else if piece = ['.', '.'] then some .up
  else some (.name piece)

/-- The components of the pieces of a path. -/
def componentsOf : List Text → List Component
  | [] | [[]] => []
  | [] :: ps => .root :: ps.filterMap pieceComponent?
  | ['.'] :: ps => .here :: ps.filterMap pieceComponent?
  | ps => ps.filterMap pieceComponent?

theorem splitSlashes_slash (t : Text) : splitSlashes ('/' :: t) = [] :: splitSlashes t := by
  rw [splitSlashes, if_pos rfl]

theorem exists_splitSlashes_eq_cons (t : Text) : ∃ p ps, splitSlashes t = p :: ps := by
  cases t with
  | nil => exact ⟨[], [], rfl⟩
  | cons c t =>
    rw [splitSlashes]
    split
    · exact ⟨_, _, rfl⟩
    · split <;> exact ⟨_, _, rfl⟩

theorem splitSlashes_cons {c : Char} (hc : c ≠ '/') {t p : Text} {ps : List Text}
    (h : splitSlashes t = p :: ps) : splitSlashes (c :: t) = (c :: p) :: ps := by
  rw [splitSlashes, if_neg hc, h]

/-- A slash parts the pieces in front of it from those behind it. -/
theorem splitSlashes_append (a b : Text) :
    splitSlashes (a ++ '/' :: b) = splitSlashes a ++ splitSlashes b := by
  induction a with
  | nil => exact splitSlashes_slash b
  | cons c a ih =>
    by_cases hc : c = '/'
    · rw [hc, List.cons_append, splitSlashes_slash, splitSlashes_slash, ih, List.cons_append]
    · obtain ⟨p, ps, hp⟩ := exists_splitSlashes_eq_cons a
      rw [hp, List.cons_append] at ih
      rw [List.cons_append, splitSlashes_cons hc ih, splitSlashes_cons hc hp, List.cons_append]

theorem splitSlashes_of_not_mem {t : Text} (h : '/' ∉ t) : splitSlashes t = [t] := by
  induction t with
  | nil => rfl
  | cons c t ih =>
    obtain ⟨hc, ht⟩ := not_or.1 (mt List.mem_cons.2 h)
    exact splitSlashes_cons (Ne.symm hc) (ih ht)

/-- No piece holds a slash. -/
theorem slash_not_mem_piece {t : Text} : ∀ p ∈ splitSlashes t, '/' ∉ p := by
  induction t with
  | nil => simp [splitSlashes]
  | cons c t ih =>
    by_cases hc : c = '/'
    · rw [hc, splitSlashes_slash]
      intro p hp
      rcases List.mem_cons.1 hp with rfl | hp
      · exact List.not_mem_nil
      · exact ih p hp
    · obtain ⟨q, qs, hq⟩ := exists_splitSlashes_eq_cons t
      rw [splitSlashes_cons hc hq]
      intro p hp
      rcases List.mem_cons.1 hp with rfl | hp
      · have hq' := ih q (hq ▸ List.mem_cons_self)
        simp [Ne.symm hc, hq']
      · exact ih p (hq ▸ List.mem_cons_of_mem _ hp)

/-- All characters of a piece are characters of the text. -/
theorem mem_of_mem_piece {t : Text} : ∀ p ∈ splitSlashes t, ∀ c ∈ p, c ∈ t := by
  induction t with
  | nil => simp [splitSlashes]
  | cons c t ih =>
    by_cases hc : c = '/'
    · rw [hc, splitSlashes_slash]
      intro p hp d hd
      rcases List.mem_cons.1 hp with rfl | hp
      · cases hd
      · exact List.mem_cons_of_mem _ (ih p hp d hd)
    · obtain ⟨q, qs, hq⟩ := exists_splitSlashes_eq_cons t
      rw [splitSlashes_cons hc hq]
      intro p hp d hd
      rcases List.mem_cons.1 hp with rfl | hp
      · rcases List.mem_cons.1 hd with rfl | hd
        · exact List.mem_cons_self
        · exact List.mem_cons_of_mem _ (ih q (hq ▸ List.mem_cons_self) d hd)
      · exact List.mem_cons_of_mem _ (ih p (hq ▸ List.mem_cons_of_mem _ hp) d hd)

/-- The pieces behind the first one, each with the slash in front of it. -/
def slashed (ps : List Text) : Text := ps.flatMap ('/' :: ·)

theorem slashed_cons (p : Text) (ps : List Text) : slashed (p :: ps) = '/' :: (p ++ slashed ps) := rfl

theorem slashed_append (ps qs : List Text) : slashed (ps ++ qs) = slashed ps ++ slashed qs :=
  List.flatMap_append

theorem length_slashed_cons (p : Text) (ps : List Text) :
    (slashed (p :: ps)).length = p.length + 1 + (slashed ps).length := by
  rw [slashed_cons, List.length_cons, List.length_append]
  omega

/-- A text is its first piece and the others behind slashes. -/
theorem text_of_pieces {t p : Text} {ps : List Text} (h : splitSlashes t = p :: ps) :
    t = p ++ slashed ps := by
  induction t generalizing p ps with
  | nil =>
    obtain ⟨rfl, rfl⟩ := List.cons.inj h
    rfl
  | cons c t ih =>
    obtain ⟨q, qs, hq⟩ := exists_splitSlashes_eq_cons t
    by_cases hc : c = '/'
    · rw [hc, splitSlashes_slash, hq] at h
      obtain ⟨rfl, rfl⟩ := List.cons.inj h
      rw [hc, ih hq]
      rfl
    · rw [splitSlashes_cons hc hq] at h
      obtain ⟨rfl, rfl⟩ := List.cons.inj h
      rw [ih hq]
      rfl

theorem splitSlashes_slashed {p : Text} (hp : '/' ∉ p) {ps : List Text} (hps : ∀ q ∈ ps, '/' ∉ q) :
    splitSlashes (p ++ slashed ps) = p :: ps := by
  induction ps generalizing p with
  | nil => rw [slashed, List.flatMap_nil, List.append_nil, splitSlashes_of_not_mem hp]
  | cons q ps ih =>
    have hq := ih (hps q List.mem_cons_self) fun r hr => hps r (List.mem_cons_of_mem _ hr)
    rw [slashed, List.flatMap_cons, List.cons_append, splitSlashes_append, splitSlashes_of_not_mem hp]
    exact congrArg (p :: ·) hq

/-- A text that is cut at the end of a piece has the pieces up to there. -/
theorem splitSlashes_take {t : Text} {qs rs : List Text} {n : Nat} (h : splitSlashes t = qs ++ rs)
    (hne : qs ≠ []) (hn : n + 1 = (slashed qs).length) : splitSlashes (t.take n) = qs := by
  obtain ⟨q, qs, rfl⟩ := List.exists_cons_of_ne_nil hne
  rw [List.cons_append] at h
  have hfree : ∀ r ∈ q :: (qs ++ rs), '/' ∉ r := h ▸ slash_not_mem_piece
  have hstop : n = (q ++ slashed qs).length := by
    rw [length_slashed_cons] at hn
    rw [List.length_append]
    omega
  rw [text_of_pieces h, slashed_append, ← List.append_assoc, hstop, List.take_left]
  exact splitSlashes_slashed (hfree q List.mem_cons_self) fun r hr =>
    hfree r (List.mem_cons_of_mem _ (List.mem_append_left _ hr))

/-! ### Places -/

theorem placesAfter_of_none {offset : Nat} {p : Text} (h : pieceComponent? p = none) (ps : List Text) :
    placesAfter offset (p :: ps) = placesAfter (offset + p.length + 1) ps := by
  rw [pieceComponent?] at h
  split at h
  next hskip => simp [placesAfter, hskip]
  · split at h <;> cases h

theorem placesAfter_of_some {offset : Nat} {p : Text} {c : Component} (h : pieceComponent? p = some c)
    (ps : List Text) : placesAfter offset (p :: ps)
      = ⟨c, offset, offset + p.length⟩ :: placesAfter (offset + p.length + 1) ps := by
  rw [pieceComponent?] at h
  split at h
  · cases h
  next hskip =>
    split at h
    next hup =>
      obtain rfl := Option.some.inj h
      simp [placesAfter, hup]
    next hup =>
      obtain rfl := Option.some.inj h
      simp [placesAfter, hskip, hup]

theorem map_component_placesAfter (offset : Nat) (ps : List Text) :
    (placesAfter offset ps).map Place.component = ps.filterMap pieceComponent? := by
  induction ps generalizing offset with
  | nil => rfl
  | cons p ps ih =>
    cases hp : pieceComponent? p with
    | none => rw [placesAfter_of_none hp, List.filterMap_cons_none hp, ih]
    | some c => rw [placesAfter_of_some hp, List.filterMap_cons_some hp, List.map_cons, ih]

/-- The pieces up to a place: they have the components up to it, and they end where it ends. -/
theorem exists_pieces_upTo {offset : Nat} {ps : List Text} {before after : List Place} {x : Place}
    (h : placesAfter offset ps = before ++ x :: after) :
    ∃ qs rs, ps = qs ++ rs ∧ qs.filterMap pieceComponent? = (before ++ [x]).map Place.component
      ∧ x.stop + 1 = offset + (slashed qs).length ∧ qs.getLast? ≠ some ['.'] ∧ qs ≠ [] := by
  induction ps generalizing offset before with
  | nil => simp [placesAfter] at h
  | cons p ps ih =>
    -- the place is one of the other pieces
    have hrest : ∀ {before : List Place},
        placesAfter (offset + p.length + 1) ps = before ++ x :: after →
        ∃ qs rs, p :: ps = (p :: qs) ++ rs
          ∧ qs.filterMap pieceComponent? = (before ++ [x]).map Place.component
          ∧ x.stop + 1 = offset + (slashed (p :: qs)).length ∧ (p :: qs).getLast? ≠ some ['.'] := by
      intro before hb
      obtain ⟨qs, rs, rfl, hcomponents, hstop, hlast, hne⟩ := ih hb
      refine ⟨qs, rs, rfl, hcomponents, ?_, ?_⟩
      · rw [length_slashed_cons]
        omega
      · obtain ⟨q, qs, rfl⟩ := List.exists_cons_of_ne_nil hne
        rwa [List.getLast?_cons_cons]
    cases hp : pieceComponent? p with
    | none =>
      rw [placesAfter_of_none hp] at h
      obtain ⟨qs, rs, hps, hcomponents, hstop, hlast⟩ := hrest h
      exact ⟨p :: qs, rs, hps, by rw [List.filterMap_cons_none hp, hcomponents], hstop, hlast, by simp⟩
    | some c =>
      rw [placesAfter_of_some hp] at h
      cases before with
      | nil =>
        obtain ⟨rfl, -⟩ := List.cons.inj h
        refine ⟨[p], ps, rfl, by simp [hp], ?_, ?_, by simp⟩
        · rw [length_slashed_cons]
          rfl
        · rintro hc
          obtain rfl : p = ['.'] := by simpa using hc
          cases hp
      | cons y before =>
        obtain ⟨rfl, hb⟩ := List.cons.inj h
        obtain ⟨qs, rs, hps, hcomponents, hstop, hlast⟩ := hrest hb
        exact ⟨p :: qs, rs, hps, by simp [hp, hcomponents], hstop, hlast, by simp⟩

/-! ### The first piece -/

theorem componentsOf_root {ps : List Text} (h : ps ≠ []) :
    componentsOf ([] :: ps) = .root :: ps.filterMap pieceComponent? := by
  obtain ⟨q, qs, rfl⟩ := List.exists_cons_of_ne_nil h
  rfl

theorem componentsOf_here (ps : List Text) :
    componentsOf (['.'] :: ps) = .here :: ps.filterMap pieceComponent? := rfl

theorem componentsOf_of_ne {p : Text} (hp : p ≠ []) (hd : p ≠ ['.']) (ps : List Text) :
    componentsOf (p :: ps) = (p :: ps).filterMap pieceComponent? := by
  rw [componentsOf] <;> simp [hp, hd]

/-- Pieces that are appended add their components, unless there was only an empty piece before. -/
theorem componentsOf_append {ps : List Text} (hne : ps ≠ []) (h : ps ≠ [[]]) (qs : List Text) :
    componentsOf (ps ++ qs) = componentsOf ps ++ qs.filterMap pieceComponent? := by
  obtain ⟨p, ps, rfl⟩ := List.exists_cons_of_ne_nil hne
  by_cases hp : p = []
  · have hps : ps ≠ [] := fun he => h (by rw [hp, he])
    rw [hp, List.cons_append, componentsOf_root hps, componentsOf_root (by simp [hps]),
      List.filterMap_append, List.cons_append]
  · by_cases hd : p = ['.']
    · rw [hd, List.cons_append, componentsOf_here, componentsOf_here, List.filterMap_append,
        List.cons_append]
    · rw [List.cons_append, componentsOf_of_ne hp hd, componentsOf_of_ne hp hd, ← List.cons_append,
        List.filterMap_append]

namespace Path

theorem components_eq (p : Path) : p.components = componentsOf (splitSlashes p.text) := by
  rw [components, places]
  unfold componentsOf
  split <;> simp [map_component_placesAfter, *]

/-- The places of a path are those of its pieces, but its first piece may stand for the root or be a
dot. -/
theorem places_cases (p : Path) :
    (p.places = placesAfter 0 (splitSlashes p.text)
      ∧ ∀ qs, qs <+: splitSlashes p.text → componentsOf qs = qs.filterMap pieceComponent?)
    ∨ ∃ first ps c, splitSlashes p.text = first :: ps
        ∧ p.places = ⟨c, 0, 1⟩ :: placesAfter (first.length + 1) ps
        ∧ (first = [] ∧ c = .root ∧ ps ≠ [] ∨ first = ['.'] ∧ c = .here) := by
  obtain ⟨first, ps, hp⟩ := exists_splitSlashes_eq_cons p.text
  rw [places, hp]
  by_cases hnil : first = []
  · subst hnil
    cases ps with
    | nil =>
      refine .inl ⟨rfl, fun qs hqs => ?_⟩
      rcases List.prefix_cons_iff.1 hqs with rfl | ⟨t, rfl, ht⟩
      · rfl
      · rw [List.prefix_nil.1 ht]
        rfl
    | cons q ps => exact .inr ⟨[], q :: ps, .root, rfl, rfl, .inl ⟨rfl, rfl, by simp⟩⟩
  · by_cases hhere : first = ['.']
    · subst hhere
      exact .inr ⟨['.'], ps, .here, rfl, rfl, .inr ⟨rfl, rfl⟩⟩
    · refine .inl ⟨by simp [hnil, hhere], fun qs hqs => ?_⟩
      rcases List.prefix_cons_iff.1 hqs with rfl | ⟨t, rfl, -⟩
      · rfl
      · exact componentsOf_of_ne hnil hhere t

/-! ### Parents -/

/-- The path up to a place. -/
theorem components_take {p : Path} {before after : List Place} {x : Place}
    (h : p.places = before ++ x :: after) :
    (⟨p.text.take x.stop⟩ : Path).components = (before ++ [x]).map Place.component
      ∧ ((⟨p.text.take x.stop⟩ : Path).endsWithDot = true →
        (⟨p.text.take x.stop⟩ : Path).components = [.here]) := by
  -- it is enough to know which pieces end where the place ends
  have hcut : ∀ {qs rs : List Text}, splitSlashes p.text = qs ++ rs → qs ≠ [] →
      x.stop + 1 = (slashed qs).length → componentsOf qs = (before ++ [x]).map Place.component →
      (qs.getLast? = some ['.'] → componentsOf qs = [.here]) →
      (⟨p.text.take x.stop⟩ : Path).components = (before ++ [x]).map Place.component
        ∧ ((⟨p.text.take x.stop⟩ : Path).endsWithDot = true →
          (⟨p.text.take x.stop⟩ : Path).components = [.here]) := by
    intro qs rs hqs hne hstop hcomponents hdot
    rw [components_eq, endsWithDot, splitSlashes_take hqs hne hstop, decide_eq_true_eq]
    exact ⟨hcomponents, hdot⟩
  rcases places_cases p with ⟨hplaces, hpieces⟩ | ⟨first, ps, c, hp, hplaces, hfirst⟩
  · obtain ⟨qs, rs, hqs, hcomponents, hstop, hdot, hne⟩ := exists_pieces_upTo (hplaces ▸ h)
    exact hcut hqs hne (by omega) ((hpieces qs ⟨rs, hqs.symm⟩).trans hcomponents)
      fun hc => absurd hc hdot
  · rw [hplaces] at h
    cases before with
    | nil =>
      obtain ⟨rfl, -⟩ := List.cons.inj h
      rcases hfirst with ⟨rfl, rfl, hps⟩ | ⟨rfl, rfl⟩
      · obtain ⟨q, ps, rfl⟩ := List.exists_cons_of_ne_nil hps
        have htext : p.text = '/' :: (q ++ slashed ps) := text_of_pieces hp
        rw [htext]
        exact ⟨rfl, fun hc => absurd hc Bool.false_ne_true⟩
      · exact @hcut [['.']] ps hp (by simp) rfl rfl fun _ => rfl
    | cons y before =>
      obtain ⟨rfl, hbehind⟩ := List.cons.inj h
      obtain ⟨qs, rs, rfl, hcomponents, hstop, hdot, hne⟩ := exists_pieces_upTo hbehind
      refine @hcut (first :: qs) rs hp (by simp) ?_ ?_ fun hc => ?_
      · rw [length_slashed_cons]
        exact hstop
      · rw [List.cons_append, List.map_cons, ← hcomponents]
        rcases hfirst with ⟨rfl, rfl, -⟩ | ⟨rfl, rfl⟩
        · exact componentsOf_root hne
        · exact componentsOf_here qs
      · obtain ⟨q, qs, rfl⟩ := List.exists_cons_of_ne_nil hne
        rw [List.getLast?_cons_cons] at hc
        exact absurd hc hdot

/-- **The parent of a path** is cut out of its text and has all components but the last. -/
theorem components_of_parent? {p q : Path} (h : p.parent? = some q) :
    q.components = p.components.dropLast ∧ q.text <+: p.text
      ∧ (q.endsWithDot = true → q.components = [.here]) := by
  rw [parent?] at h
  split at h
  · cases h
  next last before hplaces =>
    split at h
    · cases h
    · obtain rfl := Option.some.inj h
      have hp : p.places = before.reverse ++ [last] := by
        rw [← List.reverse_reverse p.places, hplaces, List.reverse_cons]
      have hcomponents : p.components.dropLast = before.reverse.map Place.component := by
        rw [components, hp, List.map_append, List.map_singleton, List.dropLast_concat]
      rw [hcomponents]
      cases before with
      | nil =>
        refine ⟨rfl, List.take_prefix _ _, fun hc => absurd hc Bool.false_ne_true⟩
      | cons x before =>
        rw [List.reverse_cons, List.append_assoc, List.singleton_append] at hp
        obtain ⟨htake, hdot⟩ := components_take hp
        exact ⟨by rw [List.reverse_cons]; exact htake, List.take_prefix _ _, hdot⟩

/-- Only the root and the empty path have no parent. -/
theorem getLast?_of_parent? {p : Path} (h : p.parent? = none) :
    p.components = [] ∨ p.components.getLast? = some .root := by
  rw [parent?] at h
  split at h
  next hplaces =>
    left
    rw [components, List.reverse_eq_nil_iff.1 hplaces, List.map_nil]
  next last before hplaces =>
    split at h
    next hroot =>
      right
      rw [components, ← List.reverse_reverse p.places, hplaces, List.reverse_cons, List.map_append,
        List.map_singleton, List.getLast?_concat, hroot]
    · cases h

end Path

/-! ### File names -/

theorem Path.isAbsolute_of_not_mem {n : Text} (h : '/' ∉ n) : (⟨n⟩ : Path).isAbsolute = false := by
  rw [Path.isAbsolute, decide_eq_false_iff_not]
  exact fun hc => h (List.mem_of_mem_head? hc)

/-- A path with a name appended, however long it is: its pieces, its components and the characters of
its text. -/
theorem Path.join_piece {n : Text} (hslash : '/' ∉ n) (hpiece : pieceComponent? n = some (.name n))
    (p : Path) : ((splitSlashes (p.join ⟨n⟩).text).getLast? = some n)
    ∧ (p.join ⟨n⟩).components = p.components ++ [.name n]
    ∧ ∀ c ∈ (p.join ⟨n⟩).text, c ∈ p.text ∨ c = '/' ∨ c ∈ n := by
  have hne : n ≠ [] := by
    rintro rfl
    cases hpiece
  have hdot : n ≠ ['.'] := by
    rintro rfl
    cases hpiece
  have hn := splitSlashes_of_not_mem hslash
  have hone : [n].filterMap pieceComponent? = [.name n] := by simp [hpiece]
  rw [Path.components_eq, Path.components_eq, Path.join,
    if_neg (by simp [Path.isAbsolute_of_not_mem hslash])]
  by_cases hnil : p.text = []
  · rw [if_pos (by simp [hnil]), hnil, List.nil_append, hn]
    refine ⟨rfl, ?_, fun c hc => .inr (.inr hc)⟩
    rw [componentsOf_of_ne hne hdot, hone]
    rfl
  · by_cases hslash : p.text.getLast? = some '/'
    · obtain ⟨r, hr⟩ := List.getLast?_eq_some_iff.1 hslash
      rw [if_pos (by simp [hslash])]
      simp only [hr, List.append_assoc, List.singleton_append, splitSlashes_append, hn]
      obtain ⟨q, qs, hq⟩ := exists_splitSlashes_eq_cons r
      refine ⟨by simp, ?_, fun c hc => ?_⟩
      · by_cases hroot : splitSlashes r = [[]]
        · rw [hroot]
          exact congrArg (Component.root :: ·) hone
        · have hne : splitSlashes r ≠ [] := by simp [hq]
          rw [componentsOf_append hne hroot, componentsOf_append hne hroot, hone]
          simp [splitSlashes, pieceComponent?]
      · simp only [List.mem_append, List.mem_cons] at hc
        rcases hc with hc | rfl | hc
        · exact .inl (by simp [hc])
        · exact .inr (.inl rfl)
        · exact .inr (.inr hc)
    · rw [if_neg (by simp [hnil, hslash])]
      simp only [splitSlashes_append, hn]
      refine ⟨by simp, ?_, fun c hc => ?_⟩
      · obtain ⟨q, qs, hq⟩ := exists_splitSlashes_eq_cons p.text
        have hempty : splitSlashes p.text ≠ [[]] := fun he => hnil (text_of_pieces he)
        rw [componentsOf_append (by simp [hq]) hempty, hone]
      · simp only [List.mem_append, List.mem_cons] at hc
        exact hc

/-- A path with a name appended can stand for a file. -/
theorem Path.requiresDirectory_join_piece {n : Text} (hslash : '/' ∉ n)
    (hpiece : pieceComponent? n = some (.name n)) (p : Path) :
    (p.join ⟨n⟩).requiresDirectory = false := by
  have hne : ∀ k, pieceComponent? k ≠ some (.name k) → n ≠ k := by
    rintro k hk rfl
    exact hk hpiece
  rw [Path.requiresDirectory, (Path.join_piece hslash hpiece p).1]
  simp [hne [] (by decide), hne ['.'] (by decide), hne ['.', '.'] (by decide)]

/-- A name that a file or directory can have. -/
structure IsFileName (n : Text) : Prop where
  ne_nil : n ≠ []
  ne_dot : n ≠ ['.']
  ne_dots : n ≠ ['.', '.']
  slash_not_mem : '/' ∉ n
  null_not_mem : '\x00' ∉ n
  size_le : Text.size n ≤ 255

instance : DecidablePred IsFileName := fun n =>
  decidable_of_iff (n ≠ [] ∧ n ≠ ['.'] ∧ n ≠ ['.', '.'] ∧ '/' ∉ n ∧ '\x00' ∉ n ∧ Text.size n ≤ 255)
    ⟨fun ⟨h₁, h₂, h₃, h₄, h₅, h₆⟩ => ⟨h₁, h₂, h₃, h₄, h₅, h₆⟩,
      fun ⟨h₁, h₂, h₃, h₄, h₅, h₆⟩ => ⟨h₁, h₂, h₃, h₄, h₅, h₆⟩⟩

namespace IsFileName

variable {n : Text} (h : IsFileName n)
include h

theorem pieceComponent?_eq : pieceComponent? n = some (.name n) := by
  rw [pieceComponent?, if_neg (by simp [h.ne_nil, h.ne_dot]), if_neg h.ne_dots]

theorem isAbsolute_eq : (⟨n⟩ : Path).isAbsolute = false := Path.isAbsolute_of_not_mem h.slash_not_mem

/-- A path with a name appended: its pieces, its components and the characters of its text. -/
theorem join (p : Path) : ((splitSlashes (p.join ⟨n⟩).text).getLast? = some n)
    ∧ (p.join ⟨n⟩).components = p.components ++ [.name n]
    ∧ ∀ c ∈ (p.join ⟨n⟩).text, c ∈ p.text ∨ c = '/' ∨ c ∈ n :=
  Path.join_piece h.slash_not_mem h.pieceComponent?_eq p

theorem components_join (p : Path) : (p.join ⟨n⟩).components = p.components ++ [.name n] :=
  (h.join p).2.1

theorem requiresDirectory_join (p : Path) : (p.join ⟨n⟩).requiresDirectory = false :=
  Path.requiresDirectory_join_piece h.slash_not_mem h.pieceComponent?_eq p

theorem text_join_ne_nil (p : Path) : (p.join ⟨n⟩).text ≠ [] := by
  intro hc
  have hcomponents := h.components_join p
  rw [Path.components_eq, hc] at hcomponents
  exact absurd hcomponents (by simp [splitSlashes, componentsOf])

theorem null_not_mem_join {p : Path} (hp : '\x00' ∉ p.text) : '\x00' ∉ (p.join ⟨n⟩).text := by
  intro hc
  rcases (h.join p).2.2 _ hc with hc | hc | hc
  · exact hp hc
  · cases hc
  · exact h.null_not_mem hc

theorem fileName?_join (p : Path) : (p.join ⟨n⟩).fileName? = some n := by
  rw [Path.fileName?, h.components_join, List.getLast?_concat]

/-- A path with a name appended has a parent with the components of the path. -/
theorem exists_parent?_join (p : Path) :
    ∃ q, (p.join ⟨n⟩).parent? = some q ∧ q.components = p.components := by
  cases hq : (p.join ⟨n⟩).parent? with
  | none =>
    have hroot := Path.getLast?_of_parent? hq
    rw [h.components_join, List.getLast?_concat] at hroot
    simp at hroot
  | some q =>
    refine ⟨q, rfl, ?_⟩
    rw [(Path.components_of_parent? hq).1, h.components_join, List.dropLast_concat]

end IsFileName

end ElementModules
