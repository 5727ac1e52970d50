import ElementModules.Proofs.Tree.Moving
import ElementModules.Tree.Listing

/-!
# Paths that lead on by names

A listing names what it finds by the path of its directory with the names on the way appended. Such a
path leads to the address of the directory with these names behind it (`locate_extendPath_eq_ok_iff`), if they
are names that files can have.

## Main results

* `components_extendPath`, `locate_extendPath_eq_ok_iff`: where such a path leads.
* `makeParents_of_locate`: in front of a path that leads somewhere, nothing is to be made.
-/

namespace ElementModules

theorem IsFileName.isAbsolute_join {n : Text} (h : IsFileName n) {p : Path} (hp : p.text ≠ []) :
    (p.join ⟨n⟩).isAbsolute = p.isAbsolute := by
  obtain ⟨c, w, hw⟩ := List.exists_cons_of_ne_nil hp
  rw [Path.join, if_neg (by simp [h.isAbsolute_eq])]
  split <;> rw [Path.isAbsolute, Path.isAbsolute, hw, List.cons_append] <;> rfl

namespace Tree

variable {t : Tree} {p : Path} {names : List Text}

theorem extendPath_concat (p : Path) (names : List Text) (n : Text) :
    extendPath p (names ++ [n]) = (extendPath p names).join ⟨n⟩ := by
  rw [extendPath, List.foldl_append]
  rfl

section Names

variable (hnames : ∀ n ∈ names, IsFileName n)
include hnames

theorem components_extendPath (p : Path) :
    (extendPath p names).components = p.components ++ names.map .name := by
  induction names using List.reverseRecOn with
  | nil => simp [extendPath]
  | append_singleton names n ih =>
    have hn := hnames n (by simp)
    rw [extendPath_concat, hn.components_join, ih fun m hm => hnames m (by simp [hm])]
    simp

theorem isDown_extendPath (hp : p.IsDown) : (extendPath p names).IsDown := by
  rw [Path.IsDown, components_extendPath hnames, List.mem_append, not_or]
  exact ⟨hp, by simp⟩

theorem address_extendPath (p : Path) : (extendPath p names).address = p.address ++ names := by
  rw [Path.address, components_extendPath hnames, List.filterMap_append, Path.filterMap_name?_map]
  rfl

theorem text_extendPath (hempty : p.text ≠ []) (hnull : '\x00' ∉ p.text) :
    (extendPath p names).text ≠ [] ∧ '\x00' ∉ (extendPath p names).text
      ∧ (extendPath p names).isAbsolute = p.isAbsolute := by
  induction names using List.reverseRecOn with
  | nil => exact ⟨hempty, hnull, rfl⟩
  | append_singleton names n ih =>
    obtain ⟨hempty', hnull', habsolute⟩ := ih fun m hm => hnames m (by simp [hm])
    have hn := hnames n (by simp)
    rw [extendPath_concat]
    exact ⟨hn.text_join_ne_nil _, hn.null_not_mem_join hnull',
      (hn.isAbsolute_join hempty').trans habsolute⟩

/-- **A path with names behind it** leads to what they name. -/
theorem locate_extendPath_eq_ok_iff {d a : Address} (hl : t.locate p = .ok d) :
    t.locate (extendPath p names) = .ok a
      ↔ a = d ++ names ∧ ∀ b, b <+: names → b ≠ names → t.get? (d ++ b) = some .dir := by
  obtain ⟨hempty, hnull, hfollow⟩ := locate_eq_ok_iff_follow.1 hl
  obtain ⟨hempty', hnull', -⟩ := text_extendPath hnames hempty hnull
  have hsize : ∀ n ∈ names, Text.size n ≤ 255 := fun n hn => (hnames n hn).size_le
  rw [locate_eq_ok_iff_follow, components_extendPath hnames, follow_append_eq_ok_iff]
  simpa [hempty', hnull', hfollow, follow_names_eq_ok_iff] using fun _ _ => hsize

theorem goal_extendPath {d : Address} (h : p.goal = .ok d) :
    (extendPath p names).goal = .ok (d ++ names) := by
  rw [Path.goal] at h ⊢
  rw [components_extendPath hnames, List.foldlM_append, h]
  exact foldlM_names_eq_ok_iff.2 ⟨rfl, fun n hn => (hnames n hn).size_le⟩

/-- A node below a directory stands at the path with its names. -/
theorem locate_extendPath_of_get? {d : Address} (hl : t.locate p = .ok d) {n : Node}
    (hg : t.get? (d ++ names) = some n) : t.locate (extendPath p names) = .ok (d ++ names) :=
  (locate_extendPath_eq_ok_iff hnames hl).2 ⟨rfl, fun b hb hne =>
    get?_of_isPrefix hg ((List.prefix_append_right_inj d).2 hb) (by simpa using hne)⟩

end Names

theorem fileName?_extendPath_concat {n : Text} (hn : IsFileName n) (p : Path) (names : List Text) :
    (extendPath p (names ++ [n])).fileName? = some n := by
  rw [extendPath_concat, hn.fileName?_join]

theorem requiresDirectory_extendPath_concat {n : Text} (hn : IsFileName n) (p : Path)
    (names : List Text) : (extendPath p (names ++ [n])).requiresDirectory = false := by
  rw [extendPath_concat, hn.requiresDirectory_join]

/-- A module is flat if one name leads to it. -/
theorem isFlat_extendPath_concat (l : Library) {n : Text}
    (hnames : ∀ m ∈ names ++ [n], IsFileName m) :
    l.isFlat (extendPath l.dir (names ++ [n])) = true ↔ names = [] := by
  have hn := hnames n (by simp)
  have hinit : ∀ m ∈ names, IsFileName m := fun m hm => hnames m (by simp [hm])
  obtain ⟨q, hq, hcomponents⟩ := hn.exists_parent?_join (extendPath l.dir names)
  rw [Library.isFlat, extendPath_concat, hq, Option.any_some, Path.same_iff, hcomponents,
    components_extendPath hinit]
  simp

section Join

variable {n : Text} (hn : IsFileName n)
include hn

theorem isDown_join (hp : p.IsDown) : (p.join ⟨n⟩).IsDown :=
  have hnames : ∀ m ∈ [n], IsFileName m := by simpa using hn
  isDown_extendPath hnames hp

theorem address_join (p : Path) : (p.join ⟨n⟩).address = p.address ++ [n] :=
  have hnames : ∀ m ∈ [n], IsFileName m := by simpa using hn
  address_extendPath hnames p

theorem goal_join {d : Address} (h : p.goal = .ok d) : (p.join ⟨n⟩).goal = .ok (d ++ [n]) :=
  have hnames : ∀ m ∈ [n], IsFileName m := by simpa using hn
  goal_extendPath hnames h

/-- A path with a name behind that of a directory leads to a place in it. -/
theorem locate_join_of_dir {d : Address} (hl : t.locate p = .ok d) (hd : t.get? d = some .dir) :
    t.locate (p.join ⟨n⟩) = .ok (d ++ [n]) := by
  have hnames : ∀ m ∈ [n], IsFileName m := by simpa using hn
  refine (locate_extendPath_eq_ok_iff hnames hl).2 ⟨rfl, fun b hb hne => ?_⟩
  cases b with
  | nil => rwa [List.append_nil]
  | cons m b =>
    obtain ⟨rfl, htail⟩ := List.cons_prefix_cons.1 hb
    exact absurd (by rw [List.prefix_nil.1 htail]) hne

theorem locate_join (hp : p.IsDown) (hdir : t.isDir p = true) :
    t.locate (p.join ⟨n⟩) = .ok (p.address ++ [n]) := by
  obtain ⟨d, hl, hd⟩ := isDir_iff.1 hdir
  rw [← eq_address_of_locate hp hl]
  exact locate_join_of_dir hn hl hd

end Join

theorem listable_eq_ok_iff {a : Address} :
    t.listable p = .ok a ↔ t.locate p = .ok a ∧ t.get? a = some .dir := by
  rw [listable]
  cases hd : t.isDir p with
  | false =>
    have hno : ¬ (t.locate p = .ok a ∧ t.get? a = some .dir) := fun hc => by
      rw [isDir_iff.2 ⟨a, hc⟩] at hd
      cases hd
    simp [hno]
  | true =>
    obtain ⟨b, hl, hb⟩ := isDir_iff.1 hd
    rw [hl]
    simp only [Except.ok.injEq]
    exact ⟨fun he => ⟨he, he ▸ hb⟩, And.left⟩

/-- A directory is listed at its address. -/
theorem listable_of_isDir (hp : p.IsDown) (h : t.isDir p = true) : t.listable p = .ok p.address := by
  obtain ⟨a, hl, -⟩ := isDir_iff.1 h
  rw [listable, h, hl, eq_address_of_locate hp hl]

/-- In front of a path that leads somewhere, nothing is to be made. -/
theorem makeParents_of_locate {a : Address} (hl : t.locate p = .ok a) :
    t.makeParents p = (t, .ok ()) := by
  rw [makeParents]
  cases hq : p.parent? with
  | none => rfl
  | some q =>
    exact makeDirs_of_isDir (isDir_parent_of_locate hq hl)

end Tree

end ElementModules
