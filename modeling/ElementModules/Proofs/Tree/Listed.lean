import ElementModules.Tree.Listing
import ElementModules.Proofs.Tree.Locating

/-!
# Listings of related trees

When the modules below a directory move into it and empty directories go, little of the tree changes
(`Flattens`): everything that is not below the directory stays, no directory appears, and only modules
come and go. The rules that say what is left out stand in files that are no modules, so they stay the
same, and what is listed in the new tree was listed in the old one if it stood there.

## Main results

* `SameRules.isListed_eq`: listings in trees with the same rules.
* `mem_moduleNames_iff_get?`, `mem_dirNames_iff_get?`: what is listed, by addresses.
* `Flattens.mem_moduleNames`, `Flattens.mem_dirNames`: listings of the new tree.
* `pairwise_moduleNames`, `pairwise_dirNames`: the order of listings; deeper directories come first.
-/

namespace ElementModules.Tree

open Ignore

variable {t t' t'' : Tree} {a b d : Address} {c : Content}

/-! ### Nodes and addresses -/

theorem get?_of_mem {e : Address × Node} (h : e ∈ t.nodes) : t.get? e.1 = some e.2 := by
  have hne := (t.closed e.1 (List.mem_map_of_mem h)).1
  have hkey : ∀ {nodes : List (Address × Node)}, Keyed.Distinct nodes → e ∈ nodes →
      nodes.lookup e.1 = some e.2 := by
    intro nodes hd he
    induction nodes with
    | nil => cases he
    | cons x nodes ih =>
      obtain ⟨hx, hnodes⟩ := List.nodup_cons.1 hd
      rcases List.mem_cons.1 he with rfl | he
      · rw [List.lookup_cons, beq_self_eq_true]
      · have hne : e.1 ≠ x.1 := fun hc => hx (hc ▸ List.mem_map_of_mem he)
        rw [List.lookup_cons, beq_false_of_ne hne]
        exact ih hnodes he
  rw [get?_of_ne_nil t hne]
  exact hkey t.distinct h

theorem mem_of_get? {n : Node} (h : t.get? a = some n) (ha : a ≠ []) : (a, n) ∈ t.nodes := by
  obtain ⟨e, he, rfl⟩ := List.mem_map.1 (t.mem_nodes_of_get? h ha)
  have hn := get?_of_mem he
  rw [h] at hn
  obtain rfl := Option.some.inj hn
  exact he

theorem hasChildren_iff : t.hasChildren a = true ↔ ∃ n, t.get? (a ++ [n]) ≠ none := by
  rw [hasChildren, List.any_eq_true]
  constructor
  · rintro ⟨e, he, hc⟩
    have hne := (t.closed e.1 (List.mem_map_of_mem he)).1
    have ha := of_decide_eq_true hc
    refine ⟨e.1.getLast hne, ?_⟩
    rw [← ha, List.dropLast_concat_getLast, get?_of_mem he]
    simp
  · rintro ⟨n, hn⟩
    obtain ⟨node, hnode⟩ := Option.ne_none_iff_exists'.1 hn
    exact ⟨_, mem_of_get? hnode (by simp), by simp⟩

/-- The directories in a directory. -/
theorem forall_dir_in_iff {p : Text → Prop} : (∀ n, t.get? (d ++ [n]) = some .dir → p n)
    ↔ ∀ e ∈ t.nodes, e.2 = .dir → e.1.dropLast = d → p (e.1.getLastD []) := by
  constructor
  · intro h e he hdir hd
    have hne := (t.closed e.1 (List.mem_map_of_mem he)).1
    rw [List.getLastD_eq_getLast?, List.getLast?_eq_some_getLast hne, Option.getD_some]
    exact h _ (by rw [← hd, List.dropLast_concat_getLast, get?_of_mem he, hdir])
  · intro h n hn
    simpa using h _ (mem_of_get? hn (by simp)) rfl (by simp)

/-- All names in a tree are names that files can have. -/
def IsProper (t : Tree) : Prop := ∀ a n, t.get? a = some n → ∀ x ∈ a, IsFileName x

theorem isProper_iff : t.IsProper ↔ ∀ e ∈ t.nodes, ∀ x ∈ e.1, IsFileName x := by
  refine ⟨fun h e he => h e.1 e.2 (get?_of_mem he), fun h a n hn x hx => ?_⟩
  by_cases ha : a = []
  · rw [ha] at hx
    cases hx
  · exact h _ (mem_of_get? hn ha) x hx

/-! ### What is listed -/

theorem mem_namesBelow_iff_get? {s : Scope} {p : List Text → Node → Bool} {names : List Text} :
    names ∈ t.namesBelow s d p ↔ ∃ n, t.get? (d ++ names) = some n ∧ names ≠ []
      ∧ t.isListed d (d ++ names) = true ∧ s.reaches names = true
      ∧ leadsThroughSkipped names = false ∧ p names n = true := by
  rw [mem_namesBelow_iff]
  constructor
  · rintro ⟨e, he, hnames, hlisted, hrest⟩
    have hpre : d <+: e.1 ∧ d ≠ e.1 := by
      rw [isListed, Bool.and_eq_true, Bool.and_eq_true] at hlisted
      exact ⟨of_decide_eq_true hlisted.1.1, of_decide_eq_true hlisted.1.2⟩
    obtain ⟨⟨ms, hms⟩, hne⟩ := hpre
    have heq : ms = names := by rw [← hnames, ← hms, List.drop_left]
    subst heq
    refine ⟨e.2, hms ▸ get?_of_mem he, fun hc => hne (by rw [← hms, hc, List.append_nil]),
      hms ▸ hlisted, hrest⟩
  · rintro ⟨n, hg, hne, hlisted, hrest⟩
    exact ⟨_, mem_of_get? hg (by simp [hne]), List.drop_left, hlisted, hrest⟩

/-- A listing of modules, by addresses. -/
theorem mem_moduleNames_iff_get? {s : Scope} {names : List Text} :
    names ∈ t.moduleNames s d ↔ ∃ c, t.get? (d ++ names) = some (.file c) ∧ names ≠ []
      ∧ t.isListed d (d ++ names) = true ∧ s.reaches names = true
      ∧ leadsThroughSkipped names = false
      ∧ ∃ n, names.getLast? = some n ∧ isModuleName n = true ∧ n ∉ s.skip := by
  rw [moduleNames, List.mem_mergeSort, mem_namesBelow_iff_get?]
  constructor
  · rintro ⟨n, hg, hne, hlisted, hreaches, hskipped, hp⟩
    cases n with
    | dir => simp at hp
    | file c => exact ⟨c, hg, hne, hlisted, hreaches, hskipped, by simpa [Option.any_eq_true] using hp⟩
  · rintro ⟨c, hg, hne, hlisted, hreaches, hskipped, hp⟩
    exact ⟨_, hg, hne, hlisted, hreaches, hskipped, by simpa [Option.any_eq_true] using hp⟩

/-- A listing of directories, by addresses. -/
theorem mem_dirNames_iff_get? {s : Scope} {names : List Text} :
    names ∈ t.dirNames s d ↔ t.get? (d ++ names) = some .dir ∧ names ≠ []
      ∧ t.isListed d (d ++ names) = true ∧ s.reaches names = true
      ∧ leadsThroughSkipped names = false := by
  rw [dirNames, List.mem_mergeSort, mem_namesBelow_iff_get?]
  constructor
  · rintro ⟨n, hg, hne, hlisted, hreaches, hskipped, hp⟩
    obtain rfl := of_decide_eq_true hp
    exact ⟨hg, hne, hlisted, hreaches, hskipped⟩
  · rintro ⟨hg, hne, hlisted, hreaches, hskipped⟩
    exact ⟨_, hg, hne, hlisted, hreaches, hskipped, by simp⟩

theorem nodup_namesBelow (t : Tree) (s : Scope) (d : Address) (p : List Text → Node → Bool) :
    (t.namesBelow s d p).Nodup := by
  have hdistinct : t.nodes.Pairwise fun e e' => e.1 ≠ e'.1 := List.pairwise_map.1 t.distinct
  have haddress : ∀ {a : Address} {names : List Text} {r : Bool},
      (if t.isListed d a && r then some (a.drop d.length) else none) = some names →
      a = d ++ names := by
    intro a names r he
    split_ifs at he with hc
    obtain rfl := Option.some.inj he
    rw [Bool.and_eq_true, isListed, Bool.and_eq_true, Bool.and_eq_true, decide_eq_true_eq] at hc
    obtain ⟨ns, rfl⟩ := hc.1.1.1
    rw [List.drop_left]
  refine List.pairwise_filterMap.2 (hdistinct.imp fun hne names hnames names' hnames' he => hne ?_)
  simp only [Bool.and_assoc] at hnames hnames'
  rw [haddress hnames, haddress hnames', he]

theorem nodup_moduleNames (t : Tree) (s : Scope) (d : Address) : (t.moduleNames s d).Nodup :=
  (List.mergeSort_perm _ _).nodup_iff.2 (nodup_namesBelow t s d _)

/-- Modules are listed in order. -/
theorem pairwise_moduleNames (t : Tree) (s : Scope) (d : Address) :
    (t.moduleNames s d).Pairwise fun a b => namesLe a b := by
  have htrans : ∀ a b c : List Text, namesLe a b → namesLe b c → namesLe a c := fun _ _ _ hab hbc =>
    lexLe_trans charLt_strictLinear.lexLt hab hbc
  have htotal : ∀ a b : List Text, namesLe a b || namesLe b a :=
    lexLe_total charLt_strictLinear.lexLt
  exact List.pairwise_mergeSort htrans htotal _

theorem pairwise_dirNames (t : Tree) (s : Scope) (d : Address) :
    (t.dirNames s d).Pairwise fun a b => b.length ≤ a.length := by
  have htrans : ∀ a b c : List Text, deeperFirst a b → deeperFirst b c → deeperFirst a c := by
    intro a b c hab hbc
    simp only [deeperFirst, Bool.or_eq_true, Bool.and_eq_true, decide_eq_true_eq] at hab hbc ⊢
    rcases hab with hab | ⟨hab, hle⟩ <;> rcases hbc with hbc | ⟨hbc, hle'⟩
    · exact .inl (by omega)
    · exact .inl (by omega)
    · exact .inl (by omega)
    · exact .inr ⟨by omega, lexLe_trans charLt_strictLinear.lexLt hle hle'⟩
  have htotal : ∀ a b : List Text, deeperFirst a b || deeperFirst b a := by
    intro a b
    have := lexLe_total charLt_strictLinear.lexLt a b
    simp only [deeperFirst, namesLe, Bool.or_eq_true, Bool.and_eq_true, decide_eq_true_eq] at this ⊢
    rcases Nat.lt_trichotomy a.length b.length with h | h | h
    · exact .inr (.inl h)
    · rcases this with this | this
      · exact .inl (.inr ⟨h, this⟩)
      · exact .inr (.inr ⟨h.symm, this⟩)
    · exact .inl (.inl h)
  refine (List.pairwise_mergeSort htrans htotal _).imp fun {a b} hab => ?_
  simp only [deeperFirst, Bool.or_eq_true, Bool.and_eq_true, decide_eq_true_eq] at hab
  omega

/-! ### Rules -/

/-- Trees in which the same rules say what is left out of listings. Rules stand in files that are no
modules. -/
def SameRules (t t' : Tree) : Prop :=
  ∀ front n, isModuleName n = false → t'.rulesAt (front ++ [n]) = t.rulesAt (front ++ [n])

theorem sameRules_of_file_iff (h : ∀ front n, isModuleName n = false → ∀ c,
    t'.get? (front ++ [n]) = some (.file c) ↔ t.get? (front ++ [n]) = some (.file c)) :
    SameRules t t' := by
  intro front n hn
  rw [rulesAt, rulesAt]
  cases hg : t.get? (front ++ [n]) with
  | none =>
    cases hg' : t'.get? (front ++ [n]) with
    | none => rfl
    | some m =>
      cases m with
      | dir => rfl
      | file c =>
        rw [(h front n hn c).1 hg'] at hg
        cases hg
  | some m =>
    cases m with
    | file c => rw [(h front n hn c).2 hg]
    | dir =>
      cases hg' : t'.get? (front ++ [n]) with
      | none => rfl
      | some m =>
        cases m with
        | dir => rfl
        | file c =>
          rw [(h front n hn c).1 hg'] at hg
          cases hg

namespace SameRules

variable (h : SameRules t t')
include h

theorem verdictAt?_eq (a : Address) (isDir : Bool) : t'.verdictAt? a isDir = t.verdictAt? a isDir := by
  have hin : ∀ (front : Address) (n : Text) (dirs : List Address), isModuleName n = false →
      t'.verdictIn? (front ++ [n]) dirs a isDir = t.verdictIn? (front ++ [n]) dirs a isDir := by
    intro front n dirs hn
    rw [verdictIn?, verdictIn?]
    congr 1
    funext b
    rw [← List.append_assoc, h (b ++ front) n hn]
  have hignore := hin [] ".ignore" (above a) (by decide)
  have hgit := hin [] ".gitignore" (above a) (by decide)
  have hexclude := hin [".git", "info"] "exclude" (above a) (by decide)
  exact congrArg₂ Option.or hignore (congrArg₂ Option.or hgit hexclude)

theorem isLeftOut_eq (ha : t'.get? a = some .dir ↔ t.get? a = some .dir) :
    t'.isLeftOut a = t.isLeftOut a := by
  rw [isLeftOut, isLeftOut, h.verdictAt?_eq]
  simp only [ha]

/-- What stands in both trees, as a directory in both or in none, is listed in both or in none. -/
theorem isListed_eq (hdir : t'.get? a = some .dir ↔ t.get? a = some .dir) (ha : t.get? a ≠ none)
    (ha' : t'.get? a ≠ none) (b : Address) : t'.isListed b a = t.isListed b a := by
  rw [isListed, isListed]
  congr 1
  refine List.all_congr rfl fun i => ?_
  rw [h.isLeftOut_eq]
  by_cases he : a.take (b.length + i + 1) = a
  · rw [he, hdir]
  · obtain ⟨n, hn⟩ := Option.ne_none_iff_exists'.1 ha
    obtain ⟨n', hn'⟩ := Option.ne_none_iff_exists'.1 ha'
    have hpre := List.take_prefix (b.length + i + 1) a
    rw [get?_of_isPrefix hn hpre he, get?_of_isPrefix hn' hpre he]

end SameRules

/-! ### Modules that move up -/

/-- An address below another one. -/
def IsBelow (d a : Address) : Prop := d <+: a ∧ d ≠ a

instance : DecidableRel IsBelow := fun _ _ => inferInstanceAs (Decidable (_ ∧ _))

theorem IsBelow.trans_isPrefix (h : IsBelow d a) (hab : a <+: b) : IsBelow d b :=
  ⟨h.1.trans hab, fun he => h.2 (h.1.eq_of_length_le (he ▸ hab).length_le)⟩

theorem isBelow_append {ns : List Text} (hne : ns ≠ []) : IsBelow d (d ++ ns) :=
  ⟨List.prefix_append d ns, by simpa using hne⟩

theorem isBelow_of_append_isPrefix {ns : List Text} (hne : ns ≠ []) (h : d ++ ns <+: a) :
    IsBelow d a := (isBelow_append hne).trans_isPrefix h

theorem not_isBelow_of_isPrefix (h : a <+: d) : ¬ IsBelow d a := fun hb =>
  hb.2 (hb.1.eq_of_length_le h.length_le)

/-- A tree in which modules below a directory moved into it and directories below it are gone. -/
structure Flattens (d : Address) (t t' : Tree) : Prop where
  outside : ∀ a, ¬ IsBelow d a → t'.get? a = t.get? a
  dir : ∀ a, t'.get? a = some .dir → t.get? a = some .dir
  fresh : ∀ a c, t'.get? a = some (.file c) →
    t.get? a = some (.file c) ∨ ∃ ns n, a = d ++ [n] ∧ ns ≠ [] ∧ isModuleName n = true
      ∧ t.get? (d ++ (ns ++ [n])) = some (.file c)
  kept : ∀ a c, t.get? a = some (.file c) →
    t'.get? a = some (.file c) ∨ ∃ ns n, a = d ++ (ns ++ [n]) ∧ ns ≠ [] ∧ isModuleName n = true

/-- A place in a directory is none below another directory in it. -/
theorem nested_ne {ns : List Text} (n m : Text) (hns : ns ≠ []) : d ++ (ns ++ [n]) ≠ d ++ [m] := by
  intro he
  have := congrArg List.length he
  have := List.length_pos_iff.2 hns
  simp only [List.length_append, List.length_singleton] at *
  omega

namespace Flattens

theorem refl (d : Address) (t : Tree) : Flattens d t t where
  outside _ _ := rfl
  dir _ h := h
  fresh _ _ h := .inl h
  kept _ _ h := .inl h

theorem trans (h : Flattens d t t') (h' : Flattens d t' t'') : Flattens d t t'' where
  outside a ha := (h'.outside a ha).trans (h.outside a ha)
  dir a ha := h.dir a (h'.dir a ha)
  fresh a c hc := by
    rcases h'.fresh a c hc with hc | ⟨ns, n, ha, hns, hn, hc⟩
    · exact h.fresh a c hc
    · rcases h.fresh _ c hc with hc | ⟨-, m, he, -⟩
      · exact .inr ⟨ns, n, ha, hns, hn, hc⟩
      · exact absurd he (nested_ne n m hns)
  kept a c hc := (h.kept a c hc).elim (h'.kept a c) .inr

section

variable (h : Flattens d t t')
include h

/-- Names stay what files can have. -/
theorem isProper (ht : t.IsProper) : t'.IsProper := by
  intro a n hg
  cases n with
  | dir => exact ht a .dir (h.dir a hg)
  | file c =>
    rcases h.fresh a c hg with hg | ⟨ns, n, rfl, -, -, hg⟩
    · exact ht a _ hg
    · have hnames := ht _ _ hg
      intro m hm
      rcases List.mem_append.1 hm with hm | hm
      · exact hnames m (List.mem_append_left _ hm)
      · exact hnames m (List.mem_append_right _ (List.mem_append_right _ hm))

/-- Files that are no modules stay, and none appear. -/
theorem file_iff (ha : ∀ n, a.getLast? = some n → isModuleName n = false) (c : Content) :
    t'.get? a = some (.file c) ↔ t.get? a = some (.file c) := by
  constructor
  · intro hc
    rcases h.fresh a c hc with hc | ⟨-, n, rfl, -, hn, -⟩
    · exact hc
    · rw [ha n (by simp)] at hn
      cases hn
  · intro hc
    rcases h.kept a c hc with hc | ⟨ns, n, rfl, -, hn⟩
    · exact hc
    · rw [ha n (by rw [← List.append_assoc, List.getLast?_concat])] at hn
      cases hn

theorem sameRules : SameRules t t' :=
  sameRules_of_file_iff fun front n hn c => h.file_iff (fun m hm => by
    rw [List.getLast?_concat] at hm
    exact Option.some.inj hm ▸ hn) c

theorem mem_moduleNames {s : Scope} {names : List Text} (hm : names ∈ t'.moduleNames s b)
    (hg : ∀ c, t'.get? (b ++ names) = some (.file c) → t.get? (b ++ names) = some (.file c)) :
    names ∈ t.moduleNames s b := by
  obtain ⟨c, hc, hne, hlisted, hrest⟩ := mem_moduleNames_iff_get?.1 hm
  have hc' := hg c hc
  refine mem_moduleNames_iff_get?.2 ⟨c, hc', hne, ?_, hrest⟩
  rwa [← h.sameRules.isListed_eq (by simp [hc, hc']) (by simp [hc']) (by simp [hc])]

theorem mem_dirNames {s : Scope} {names : List Text} (hm : names ∈ t'.dirNames s b) :
    names ∈ t.dirNames s b := by
  obtain ⟨hg, hne, hlisted, hrest⟩ := mem_dirNames_iff_get?.1 hm
  have hg' := h.dir _ hg
  refine mem_dirNames_iff_get?.2 ⟨hg', hne, ?_, hrest⟩
  rwa [← h.sameRules.isListed_eq (by simp [hg, hg']) (by simp [hg']) (by simp [hg])]

/-- A directory that is listed and stays is listed afterwards. -/
theorem mem_dirNames_of_get? {s : Scope} {names : List Text} (hm : names ∈ t.dirNames s b)
    (hg : t'.get? (b ++ names) = some .dir) : names ∈ t'.dirNames s b := by
  obtain ⟨hg', hne, hlisted, hrest⟩ := mem_dirNames_iff_get?.1 hm
  refine mem_dirNames_iff_get?.2 ⟨hg, hne, ?_, hrest⟩
  rwa [h.sameRules.isListed_eq (by simp [hg, hg']) (by simp [hg']) (by simp [hg])]

end

end Flattens

end ElementModules.Tree
