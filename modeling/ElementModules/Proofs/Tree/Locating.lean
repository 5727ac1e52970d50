import ElementModules.Proofs.Path
import ElementModules.Tree.Access
import Mathlib.Data.List.Induction
import Mathlib.Tactic.SplitIfs

/-!
# Where paths lead

A path goes **down** if no component of it is `..`. Such a path leads to the address that its names
spell (`Path.address`), if all directories on the way exist and no name is too long; so the address
does not depend on the tree. What a path leads to stays what it is as long as the nodes on the way
stay (`Keeps`): also a path that is blocked, by a file or by a name that is too long, stays blocked.

## Main results

* `goal_of_locate`, `locate_of_dirs`: where any path leads, also one that goes up.
* `follow_names_eq_ok_iff`, `eq_address_of_locate`: where a path that goes down leads.
* `locate_of_keeps`, `locate_error_of_keeps`: paths in a tree that keeps nodes of another one.
-/

namespace ElementModules

/-- The name in a component. -/
def Component.name? : Component → Option Text
  | .name n => some n
  | _ => none

namespace Path

/-- The address that the names of a path spell. -/
def address (p : Path) : Address := p.components.filterMap Component.name?

/-- The address to which the components of a path lead if all directories on the way exist. -/
def goal (p : Path) : Except Fault Address := p.components.foldlM Tree.step []

/-- The addresses through which the components of a path lead, up to the last one. -/
def LeadsThrough (p : Path) (a : Address) : Prop :=
  ∃ cs, cs <+: p.components ∧ cs.foldlM Tree.step [] = .ok a

/-- Only the empty path has no components. -/
theorem components_eq_nil_iff {p : Path} : p.components = [] ↔ p.text = [] := by
  refine ⟨fun h => ?_, fun h => by rw [components_eq, h]; rfl⟩
  obtain ⟨first, ps, hp⟩ := exists_splitSlashes_eq_cons p.text
  rw [components_eq, hp] at h
  by_cases hnil : first = []
  · by_cases hps : ps = []
    · rw [text_of_pieces hp, hnil, hps]
      rfl
    · rw [hnil, componentsOf_root hps] at h
      cases h
  · by_cases hhere : first = ['.']
    · rw [hhere, componentsOf_here] at h
      cases h
    · rw [componentsOf_of_ne hnil hhere, List.filterMap_eq_nil_iff] at h
      have := h first List.mem_cons_self
      rw [pieceComponent?, if_neg (by simp [hnil, hhere])] at this
      split at this <;> cases this

/-- The names in a path are pieces of its text. -/
theorem piece_of_mem_components {p : Path} {n : Text} (h : .name n ∈ p.components) :
    n ∈ splitSlashes p.text ∧ n ≠ [] ∧ n ≠ ['.'] ∧ n ≠ ['.', '.'] := by
  have hpiece : ∀ {ps : List Text}, .name n ∈ ps.filterMap pieceComponent? →
      n ∈ ps ∧ n ≠ [] ∧ n ≠ ['.'] ∧ n ≠ ['.', '.'] := by
    intro ps hn
    obtain ⟨q, hq, he⟩ := List.mem_filterMap.1 hn
    rw [pieceComponent?] at he
    split_ifs at he with hskip hdots
    · cases he
    · obtain rfl := Component.name.inj (Option.some.inj he)
      exact ⟨hq, fun hc => hskip (.inl hc), fun hc => hskip (.inr hc), hdots⟩
  obtain ⟨first, ps, hp⟩ := exists_splitSlashes_eq_cons p.text
  rw [components_eq, hp] at h
  rw [hp]
  have hrest : .name n ∈ ps.filterMap pieceComponent? →
      n ∈ first :: ps ∧ n ≠ [] ∧ n ≠ ['.'] ∧ n ≠ ['.', '.'] := fun hn =>
    ⟨List.mem_cons_of_mem _ (hpiece hn).1, (hpiece hn).2⟩
  by_cases hnil : first = []
  · by_cases hps : ps = []
    · rw [hnil, hps] at h
      cases h
    · rw [hnil, componentsOf_root hps] at h
      exact hrest (by simpa using h)
  · by_cases hhere : first = ['.']
    · rw [hhere, componentsOf_here] at h
      exact hrest (by simpa using h)
    · rw [componentsOf_of_ne hnil hhere] at h
      exact hpiece h

/-- A path that never leads to the directory above. -/
def IsDown (p : Path) : Prop := .up ∉ p.components

instance : DecidablePred IsDown := fun _ => inferInstanceAs (Decidable (¬ _))

theorem filterMap_name?_map (ns : List Text) :
    (ns.map Component.name).filterMap Component.name? = ns := by
  induction ns with
  | nil => rfl
  | cons n ns ih => rw [List.map_cons, List.filterMap_cons, ih]; rfl

/-- The names in the pieces of a text. -/
theorem exists_names {ps : List Text} (h : .up ∉ ps.filterMap pieceComponent?) :
    ∃ ns : List Text, ps.filterMap pieceComponent? = ns.map .name
      ∧ ∀ n ∈ ns, n ∈ ps ∧ n ≠ [] ∧ n ≠ ['.'] ∧ n ≠ ['.', '.'] := by
  induction ps with
  | nil => exact ⟨[], rfl, by simp⟩
  | cons p ps ih =>
    by_cases hskip : p = [] ∨ p = ['.']
    · have hnone : pieceComponent? p = none := by rw [pieceComponent?, if_pos hskip]
      rw [List.filterMap_cons_none hnone] at h ⊢
      obtain ⟨ns, hns, hmem⟩ := ih h
      exact ⟨ns, hns, fun n hn => ⟨List.mem_cons_of_mem _ (hmem n hn).1, (hmem n hn).2⟩⟩
    · have hne : p ≠ ['.', '.'] := by
        rintro rfl
        exact h (List.mem_filterMap.2 ⟨['.', '.'], List.mem_cons_self, rfl⟩)
      have hname : pieceComponent? p = some (.name p) := by
        rw [pieceComponent?, if_neg hskip, if_neg hne]
      rw [List.filterMap_cons_some hname] at h ⊢
      obtain ⟨ns, hns, hmem⟩ := ih fun hc => h (List.mem_cons_of_mem _ hc)
      obtain ⟨h1, h2⟩ := not_or.1 hskip
      refine ⟨p :: ns, by rw [hns]; rfl, fun n hn => ?_⟩
      rcases List.mem_cons.1 hn with rfl | hn
      · exact ⟨List.mem_cons_self, h1, h2, hne⟩
      · exact ⟨List.mem_cons_of_mem _ (hmem n hn).1, (hmem n hn).2⟩

/-- A path whose first piece is not empty is relative. -/
theorem isAbsolute_of_piece {p : Path} {first : Text} {ps : List Text}
    (h : splitSlashes p.text = first :: ps) (hne : first ≠ []) : p.isAbsolute = false := by
  obtain ⟨c, first, rfl⟩ := List.exists_cons_of_ne_nil hne
  have hc : c ≠ '/' := by
    rintro rfl
    exact slash_not_mem_piece _ (h ▸ List.mem_cons_self) List.mem_cons_self
  rw [isAbsolute, text_of_pieces h]
  simpa using hc

/-- A path that goes down has names only, behind a slash if it is absolute, and behind at most a dot
if it is not. -/
theorem components_of_isDown {p : Path} (h : p.IsDown) :
    ((p.components = p.address.map .name ∨ p.components = .here :: p.address.map .name)
          ∧ p.isAbsolute = false
        ∨ p.components = .root :: p.address.map .name ∧ p.isAbsolute = true)
      ∧ ∀ n ∈ p.address, n ∈ splitSlashes p.text ∧ n ≠ [] ∧ n ≠ ['.'] ∧ n ≠ ['.', '.'] := by
  have hcomponents := p.components_eq
  rw [IsDown, hcomponents] at h
  rw [address, hcomponents]
  obtain ⟨first, ps, hp⟩ := exists_splitSlashes_eq_cons p.text
  rw [hp] at h ⊢
  by_cases hnil : first = []
  · by_cases hps : ps = []
    · rw [hnil, hps]
      have hrelative : p.isAbsolute = false := by
        rw [isAbsolute, text_of_pieces hp, hnil, hps]
        rfl
      exact ⟨.inl ⟨.inl rfl, hrelative⟩, by simp [componentsOf]⟩
    · rw [hnil, componentsOf_root hps] at h ⊢
      obtain ⟨ns, hns, hmem⟩ := exists_names fun hc => h (List.mem_cons_of_mem _ hc)
      obtain ⟨q, qs, rfl⟩ := List.exists_cons_of_ne_nil hps
      have habsolute : p.isAbsolute = true := by
        rw [isAbsolute, text_of_pieces hp, hnil]
        rfl
      rw [hns, List.filterMap_cons_none rfl, filterMap_name?_map]
      exact ⟨.inr ⟨rfl, habsolute⟩, fun n hn =>
        ⟨List.mem_cons_of_mem _ (hmem n hn).1, (hmem n hn).2⟩⟩
  · have hrelative := isAbsolute_of_piece hp hnil
    by_cases hhere : first = ['.']
    · rw [hhere, componentsOf_here] at h ⊢
      obtain ⟨ns, hns, hmem⟩ := exists_names fun hc => h (List.mem_cons_of_mem _ hc)
      rw [hns, List.filterMap_cons_none rfl, filterMap_name?_map]
      exact ⟨.inl ⟨.inr rfl, hrelative⟩, fun n hn => ⟨List.mem_cons_of_mem _ (hmem n hn).1, (hmem n hn).2⟩⟩
    · rw [componentsOf_of_ne hnil hhere] at h ⊢
      obtain ⟨ns, hns, hmem⟩ := exists_names h
      rw [hns, filterMap_name?_map]
      exact ⟨.inl ⟨.inl rfl, hrelative⟩, hmem⟩

end Path

namespace Tree

variable {t t' : Tree}

/-- The nodes at some addresses are also in another tree. -/
def Keeps (P : Address → Prop) (t t' : Tree) : Prop :=
  ∀ a, P a → ∀ n, t.get? a = some n → t'.get? a = some n

theorem Keeps.refl (P : Address → Prop) (t : Tree) : Keeps P t t := fun _ _ _ h => h

theorem Keeps.trans {P : Address → Prop} {t t' t'' : Tree} (h : Keeps P t t')
    (h' : Keeps P t' t'') : Keeps P t t'' := fun a ha n hn => h' a ha n (h a ha n hn)

theorem Keeps.mono {P Q : Address → Prop} (h : Keeps P t t') (hPQ : ∀ a, Q a → P a) :
    Keeps Q t t' := fun a ha => h a (hPQ a ha)

/-! ### Directories above -/

/-- Everything lies in directories. -/
theorem get?_of_isPrefix {a b : Address} {n : Node} (h : t.get? b = some n) (hab : a <+: b)
    (hne : a ≠ b) : t.get? a = some .dir := by
  obtain ⟨c, rfl⟩ := hab
  induction c using List.reverseRecOn generalizing n with
  | nil => simp at hne
  | append_singleton c x ih =>
    have hparent : t.get? (a ++ c) = some .dir := by
      have hd := t.get?_dropLast h (by simp)
      rwa [← List.append_assoc, List.dropLast_concat] at hd
    by_cases hc : c = []
    · rwa [hc, List.append_nil] at hparent
    · exact ih hparent (by simpa using hc)

/-! ### Following names -/

theorem follow_cons_of_ok {a b : Address} {c : Component} {cs : List Component}
    (h : t.get? a = some .dir) (hs : step a c = .ok b) : t.follow a (c :: cs) = t.follow b cs := by
  simp only [follow, enter, h, hs]

theorem follow_cons_of_error {a : Address} {c : Component} {cs : List Component} {e : Fault}
    (h : t.get? a = some .dir) (hs : step a c = .error e) : t.follow a (c :: cs) = .error e := by
  simp only [follow, enter, h, hs]

/-- Components lead on from a directory only. -/
theorem follow_cons_eq_ok_iff {a b : Address} {c : Component} {cs : List Component} :
    t.follow a (c :: cs) = .ok b
      ↔ t.get? a = some .dir ∧ ∃ m, step a c = .ok m ∧ t.follow m cs = .ok b := by
  by_cases hd : t.get? a = some .dir
  · cases hs : step a c with
    | error e => simp [follow_cons_of_error hd hs]
    | ok m => simp [follow_cons_of_ok hd hs, hd]
  · have hstop : t.follow a (c :: cs) ≠ .ok b := by
      rw [follow, enter]
      cases hg : t.get? a with
      | none => simp
      | some n =>
        cases n with
        | dir => exact absurd hg hd
        | file c => simp
    simp [hstop, hd]

theorem follow_append_eq_ok_iff {a b : Address} {cs ds : List Component} :
    t.follow a (cs ++ ds) = .ok b ↔ ∃ m, t.follow a cs = .ok m ∧ t.follow m ds = .ok b := by
  induction cs generalizing a with
  | nil => simp [follow]
  | cons c cs ih =>
    simp only [List.cons_append, follow_cons_eq_ok_iff, ih]
    constructor
    · rintro ⟨hd, m, hs, k, hm, hk⟩
      exact ⟨k, ⟨hd, m, hs, hm⟩, hk⟩
    · rintro ⟨k, ⟨hd, m, hs, hm⟩, hk⟩
      exact ⟨hd, m, hs, k, hm, hk⟩

theorem step_name {a : Address} {n : Text} (h : Text.size n ≤ 255) :
    step a (.name n) = .ok (a ++ [n]) := if_pos h

theorem step_long_name {a : Address} {n : Text} (h : ¬ Text.size n ≤ 255) :
    step a (.name n) = .error .nameTooLong := if_neg h

/-- Names have a goal if all of them are short enough. -/
theorem foldlM_names_eq_ok_iff {a b : Address} {ns : List Text} :
    (ns.map Component.name).foldlM step a = .ok b ↔ b = a ++ ns ∧ ∀ n ∈ ns, Text.size n ≤ 255 := by
  induction ns generalizing a with
  | nil => simpa [pure, Except.pure] using eq_comm
  | cons n ns ih =>
    rw [List.map_cons, List.foldlM_cons]
    by_cases hn : Text.size n ≤ 255
    · rw [step_name hn]
      refine (ih (a := a ++ [n])).trans ?_
      simp [hn]
    · rw [step_long_name hn]
      simp [bind, Except.bind, hn]

/-- Names lead on if all of them are short enough and all directories on the way exist. -/
theorem follow_names_eq_ok_iff {a b : Address} {ns : List Text} :
    t.follow a (ns.map .name) = .ok b ↔ b = a ++ ns ∧ (∀ n ∈ ns, Text.size n ≤ 255)
      ∧ ∀ ms, ms <+: ns → ms ≠ ns → t.get? (a ++ ms) = some .dir := by
  induction ns generalizing a with
  | nil =>
    simp only [List.map_nil, follow, Except.ok.injEq, List.append_nil, List.not_mem_nil,
      false_implies, implies_true, true_and, List.prefix_nil]
    exact ⟨fun h => ⟨h.symm, fun ms hms hne => absurd hms hne⟩, fun h => h.1.symm⟩
  | cons n ns ih =>
    by_cases hd : t.get? a = some .dir
    · rw [List.map_cons]
      by_cases hn : Text.size n ≤ 255
      · rw [follow_cons_of_ok hd (step_name hn)]
        simp only [ih, List.append_assoc, List.singleton_append]
        refine and_congr_right fun _ => ?_
        constructor
        · rintro ⟨hsize, hdirs⟩
          refine ⟨List.forall_mem_cons.2 ⟨hn, hsize⟩, fun ms hms hne => ?_⟩
          cases ms with
          | nil => rwa [List.append_nil]
          | cons m ms =>
            obtain ⟨rfl, htail⟩ := List.cons_prefix_cons.1 hms
            exact hdirs ms htail fun he => hne (by rw [he])
        · rintro ⟨hsize, hdirs⟩
          refine ⟨(List.forall_mem_cons.1 hsize).2, fun ms hms hne => ?_⟩
          exact hdirs (n :: ms) (List.cons_prefix_cons.2 ⟨rfl, hms⟩) fun he => hne (List.cons.inj he).2
      · rw [follow_cons_of_error hd (step_long_name hn)]
        simp only [reduceCtorEq, false_iff]
        rintro ⟨-, hsize, -⟩
        exact hn (hsize n List.mem_cons_self)
    · have herror : ∃ e, t.follow a ((n :: ns).map .name) = .error e := by
        rw [List.map_cons, follow, enter]
        cases hg : t.get? a with
        | none => exact ⟨_, rfl⟩
        | some node =>
          cases node with
          | dir => exact absurd hg hd
          | file c => exact ⟨_, rfl⟩
      obtain ⟨e, he⟩ := herror
      rw [he]
      simp only [reduceCtorEq, false_iff]
      rintro ⟨-, -, hdirs⟩
      have := hdirs [] List.nil_prefix (by simp)
      rw [List.append_nil] at this
      exact hd this

/-- Names that are blocked stay blocked while the nodes in front of them stay. -/
theorem follow_names_error_of_keeps {a : Address} {ns : List Text} {e : Fault}
    (hk : Keeps (fun b => b <+: a ++ ns ∧ b ≠ a ++ ns) t t')
    (h : t.follow a (ns.map .name) = .error e)
    (he : e ≠ .notFound) : t'.follow a (ns.map .name) = .error e := by
  induction ns generalizing a with
  | nil => cases h
  | cons n ns ih =>
    have hkeep : ∀ node, t.get? a = some node → t'.get? a = some node :=
      hk a ⟨List.prefix_append a _, by simp⟩
    cases hg : t.get? a with
    | none =>
      rw [List.map_cons, follow, enter, hg] at h
      cases h
      exact absurd rfl he
    | some node =>
      cases node with
      | file c =>
        rw [List.map_cons, follow, enter, hg] at h
        rw [List.map_cons, follow, enter, hkeep _ hg]
        exact h
      | dir =>
        rw [List.map_cons] at h ⊢
        by_cases hn : Text.size n ≤ 255
        · rw [follow_cons_of_ok hg (step_name hn)] at h
          rw [follow_cons_of_ok (hkeep _ hg) (step_name hn)]
          refine ih (hk.mono fun b hb => ?_) h
          rwa [List.append_assoc, List.singleton_append] at hb
        · rw [follow_cons_of_error hg (step_long_name hn)] at h
          rw [follow_cons_of_error (hkeep _ hg) (step_long_name hn)]
          exact h

/-! ### Locating paths -/

variable {p : Path}

theorem locate_eq_ok_iff_follow {a : Address} : t.locate p = .ok a
    ↔ p.text ≠ [] ∧ '\x00' ∉ p.text ∧ t.follow [] p.components = .ok a := by
  rw [locate]
  split_ifs with hempty hnull
  · simp [hempty]
  · simp [hnull]
  · simp [hempty, hnull]

/-- Where a path leads depends on the directories only. -/
theorem locate_of_dirs (h : ∀ a, t.get? a = some .dir → t'.get? a = some .dir) {a : Address}
    (hl : t.locate p = .ok a) : t'.locate p = .ok a := by
  have hfollow : ∀ {cs : List Component} {b : Address}, t.follow b cs = .ok a →
      t'.follow b cs = .ok a := by
    intro cs
    induction cs with
    | nil => exact id
    | cons c cs ih =>
      intro b hb
      obtain ⟨hd, m, hs, hm⟩ := follow_cons_eq_ok_iff.1 hb
      exact follow_cons_eq_ok_iff.2 ⟨h b hd, m, hs, ih hm⟩
  obtain ⟨hempty, hnull, hf⟩ := locate_eq_ok_iff_follow.1 hl
  exact locate_eq_ok_iff_follow.2 ⟨hempty, hnull, hfollow hf⟩

theorem goal_of_follow {a b : Address} {cs : List Component} (h : t.follow a cs = .ok b) :
    cs.foldlM step a = .ok b := by
  induction cs generalizing a with
  | nil => exact h
  | cons c cs ih =>
    obtain ⟨-, m, hs, hm⟩ := follow_cons_eq_ok_iff.1 h
    rw [List.foldlM_cons, hs]
    exact ih hm

/-- A path leads nowhere but to its goal. -/
theorem goal_of_locate {a : Address} (h : t.locate p = .ok a) : p.goal = .ok a :=
  goal_of_follow (locate_eq_ok_iff_follow.1 h).2.2

/-- The names that a path leads through are names that files can have. -/
theorem isFileName_of_locate {a : Address} (h : t.locate p = .ok a) : ∀ n ∈ a, IsFileName n := by
  obtain ⟨-, hnull, hfollow⟩ := locate_eq_ok_iff_follow.1 h
  have hall : ∀ {cs : List Component} {b : Address}, t.follow b cs = .ok a →
      (∀ n ∈ b, IsFileName n) → (∀ c ∈ cs, c ∈ p.components) → ∀ n ∈ a, IsFileName n := by
    intro cs
    induction cs with
    | nil =>
      intro b hb hnames _
      exact Except.ok.inj hb ▸ hnames
    | cons c cs ih =>
      intro b hb hnames hmem
      obtain ⟨-, m, hs, hm⟩ := follow_cons_eq_ok_iff.1 hb
      refine ih hm ?_ fun x hx => hmem x (List.mem_cons_of_mem _ hx)
      cases c with
      | root => cases hs
      | here => exact Except.ok.inj hs ▸ hnames
      | up =>
        rw [step] at hs
        split_ifs at hs
        obtain rfl := Except.ok.inj hs
        exact fun n hn => hnames n (List.dropLast_subset _ hn)
      | name n =>
        rw [step] at hs
        split_ifs at hs with hsize
        obtain rfl := Except.ok.inj hs
        obtain ⟨hpiece, hne, hdot, hdots⟩ := Path.piece_of_mem_components
          (hmem _ List.mem_cons_self)
        have hn : IsFileName n := ⟨hne, hdot, hdots, slash_not_mem_piece n hpiece,
          fun hc => hnull (mem_of_mem_piece n hpiece _ hc), hsize⟩
        intro k hk
        rcases List.mem_append.1 hk with hk | hk
        · exact hnames k hk
        · exact List.mem_singleton.1 hk ▸ hn
  exact hall hfollow (by simp) fun _ => id

/-- A path that goes down and is relative is followed by its names. -/
theorem locate_eq (hdown : p.IsDown) (t : Tree) :
    t.locate p = if p.text = [] then .error .notFound
      else if '\x00' ∈ p.text then .error .nullInPath
      else if p.isAbsolute = true then .error .notFound
      else t.follow [] (p.address.map .name) := by
  rw [locate]
  by_cases hempty : p.text = []
  · rw [if_pos hempty, if_pos hempty]
  · rw [if_neg hempty, if_neg hempty]
    by_cases hnull : '\x00' ∈ p.text
    · rw [if_pos hnull, if_pos hnull]
    · rw [if_neg hnull, if_neg hnull]
      rcases (Path.components_of_isDown hdown).1 with ⟨hc, habsolute⟩ | ⟨hc, habsolute⟩
      · rw [if_neg (by simp [habsolute])]
        rcases hc with hc | hc
        · rw [hc]
        · rw [hc, follow_cons_of_ok t.get?_nil rfl]
      · rw [if_pos habsolute, hc, follow_cons_of_error t.get?_nil rfl]

/-- **Where a path leads** that goes down. -/
theorem locate_eq_ok_iff (hdown : p.IsDown) {a : Address} :
    t.locate p = .ok a ↔ p.text ≠ [] ∧ '\x00' ∉ p.text ∧ p.isAbsolute = false ∧ a = p.address
      ∧ (∀ n ∈ p.address, Text.size n ≤ 255)
      ∧ ∀ b, b <+: p.address → b ≠ p.address → t.get? b = some .dir := by
  rw [locate_eq hdown]
  split_ifs with hempty hnull habsolute
  · simp [hempty]
  · simp [hnull]
  · simp [habsolute]
  · simp [follow_names_eq_ok_iff, hempty, hnull, habsolute]

theorem eq_address_of_locate (hdown : p.IsDown) {a : Address} (h : t.locate p = .ok a) :
    a = p.address :=
  ((locate_eq_ok_iff hdown).1 h).2.2.2.1

/-- A path leads where it led as long as the nodes on the way stay. -/
theorem locate_of_keeps (hdown : p.IsDown) (hk : Keeps (· <+: p.address) t t') {a : Address}
    (h : t.locate p = .ok a) : t'.locate p = .ok a := by
  rw [locate_eq_ok_iff hdown] at h ⊢
  obtain ⟨hempty, hnull, habsolute, ha, hsize, hdirs⟩ := h
  exact ⟨hempty, hnull, habsolute, ha, hsize, fun b hb hne => hk b hb _ (hdirs b hb hne)⟩

/-- A path that is blocked stays blocked as long as the nodes in front of it stay. -/
theorem locate_error_of_keeps (hdown : p.IsDown)
    (hk : Keeps (fun b => b <+: p.address ∧ b ≠ p.address) t t') {e : Fault} (h : t.locate p = .error e) (he : e ≠ .notFound) : t'.locate p = .error e := by
  rw [locate_eq hdown] at h ⊢
  split_ifs at h ⊢
  · exact h
  · exact h
  · exact h
  · exact follow_names_error_of_keeps hk h he

/-- A path leads to a node if it leads there in some tree. -/
theorem locate_of_get? (hdown : p.IsDown) {a : Address} {n : Node} (h : t'.locate p = .ok a)
    (hn : t.get? a = some n) : t.locate p = .ok a := by
  rw [locate_eq_ok_iff hdown] at h ⊢
  obtain ⟨hempty, hnull, habsolute, rfl, hsize, -⟩ := h
  exact ⟨hempty, hnull, habsolute, rfl, hsize, fun b hb hne => get?_of_isPrefix hn hb hne⟩

/-! ### What stands at a path -/

/-- What stands at a path: a directory, or a file if the path can stand for one. -/
theorem node_eq_ok_iff {n : Node} : t.node p = .ok n
    ↔ ∃ a, t.locate p = .ok a ∧ t.get? a = some n
      ∧ (n = .dir ∨ p.requiresDirectory = false) := by
  rw [node]
  cases hl : t.locate p with
  | error e => simp
  | ok a =>
    simp only [Except.ok.injEq, exists_eq_left']
    cases hg : t.get? a with
    | none => simp
    | some m =>
      cases m with
      | dir => simp +contextual [iff_def]
      | file c =>
        cases hr : p.requiresDirectory
        · simp
        · simp +contextual [eq_comm]

theorem isDir_iff : t.isDir p = true ↔ ∃ a, t.locate p = .ok a ∧ t.get? a = some .dir := by
  have hnode : t.isDir p = true ↔ t.node p = .ok .dir := by
    rw [isDir]
    split <;> simp_all
  simp [hnode, node_eq_ok_iff]

theorem isFile_iff : t.isFile p = true
    ↔ ∃ a c, t.locate p = .ok a ∧ t.get? a = some (.file c) ∧ p.requiresDirectory = false := by
  have hnode : t.isFile p = true ↔ ∃ c, t.node p = .ok (.file c) := by
    rw [isFile]
    split <;> simp_all
  simp only [hnode, node_eq_ok_iff, reduceCtorEq, false_or]
  exact exists_comm

theorem readText_eq_ok_iff {x : Text} : t.readText p = .ok x
    ↔ ∃ a, t.locate p = .ok a ∧ t.get? a = some (.file (.text x)) ∧ p.requiresDirectory = false := by
  have hnode : t.readText p = .ok x ↔ t.node p = .ok (.file (.text x)) := by
    rw [readText]
    split <;> simp_all
  simp [hnode, node_eq_ok_iff]

theorem readText_eq_ok {x : Text} (h : t.readText p = .ok x) :
    ∃ a, t.locate p = .ok a ∧ t.get? a = some (.file (.text x)) := by
  obtain ⟨a, hl, hx, -⟩ := readText_eq_ok_iff.1 h
  exact ⟨a, hl, hx⟩

section File

variable {a : Address} (hl : t.locate p = .ok a) (hr : p.requiresDirectory = false)
include hl hr

/-- What is read at the path of a file: what stands where it leads. -/
theorem readText_of_locate : t.readText p = match t.get? a with
    | none => .error .notFound
    | some .dir => .error .isDirectory
    | some (.file (.bytes _)) => .error .notText
    | some (.file (.text x)) => .ok x := by
  rw [readText, node, hl]
  rcases hg : t.get? a with _ | _ | _ | _ <;> simp [hg, hr]

/-- What is written at the path of a file, unless a directory stands where it leads. -/
theorem writeFile_of_locate (c : Content) : t.writeFile p c
    = if t.get? a = some .dir then .error .isDirectory else .ok (t.setFile a c) := by
  rw [writeFile, hl]
  rcases hg : t.get? a with _ | _ | _ <;> simp [hg, hr]

end File

/-- A file that can be read in one tree can be read where it stands in another one. -/
theorem readText_of_file (hdown : p.IsDown) {x : Text} (h : t'.readText p = .ok x)
    (hfile : ∀ c, t'.get? p.address = some (.file c) → t.get? p.address = some (.file c)) :
    t.readText p = .ok x := by
  obtain ⟨a, hl, hx, hr⟩ := readText_eq_ok_iff.1 h
  obtain rfl := eq_address_of_locate hdown hl
  exact readText_eq_ok_iff.2 ⟨_, locate_of_get? hdown hl (hfile _ hx), hfile _ hx, hr⟩

theorem hasNode_iff : t.hasNode p = true ↔ t.isDir p = true ∨ t.isFile p = true := by
  rw [hasNode, isDir, isFile]
  cases t.node p with
  | error e => simp [Except.isOk, Except.toBool]
  | ok n => cases n <;> simp [Except.isOk, Except.toBool]

section Keeps

variable (hdown : p.IsDown) (hk : Keeps (· <+: p.address) t t')
include hdown hk

theorem isDir_of_keeps (h : t.isDir p = true) : t'.isDir p = true := by
  obtain ⟨a, hl, hg⟩ := isDir_iff.1 h
  have ha := eq_address_of_locate hdown hl
  exact isDir_iff.2 ⟨a, locate_of_keeps hdown hk hl, hk a (ha ▸ List.prefix_rfl) _ hg⟩

theorem isFile_of_keeps (h : t.isFile p = true) : t'.isFile p = true := by
  obtain ⟨a, c, hl, hg, hr⟩ := isFile_iff.1 h
  have ha := eq_address_of_locate hdown hl
  exact isFile_iff.2 ⟨a, c, locate_of_keeps hdown hk hl, hk a (ha ▸ List.prefix_rfl) _ hg, hr⟩

theorem hasNode_of_keeps (h : t.hasNode p = true) : t'.hasNode p = true := by
  rw [hasNode_iff] at h ⊢
  exact h.imp (isDir_of_keeps hdown hk) (isFile_of_keeps hdown hk)

end Keeps

end Tree

end ElementModules
