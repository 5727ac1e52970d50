import ElementModules.Proofs.Descriptor.IndexHeader
import ElementModules.Proofs.Descriptor.Specifiers
import ElementModules.Proofs.Text.Utf8

/-!
# Reading an index module back

An index module names the modules of a library, each once and in the order of the bytes of their
names, so it depends on their set only (`indexModule_congr`). It is meant to be read back as one
comment with an import of every module below it (`ReadsBack`).

The name of the library and the names of the modules are written as they are, so this works if and
only if the name of the library leaves the header one comment and no name of a module needs escapes
(`indexModule_readsBack_iff`). That nothing else is read back is seen from the end of the index. Its
last statement is read as the last import, so it holds that import and nothing else
(`front_eq_of_lastImport`); what is left is an index with one module less (`front_eq_of_imports`).

## Main results

* `pairwise_sortedNames`, `eq_sortedNames`: the names in the order of their bytes.
* `front_eq_of_imports`: imports at the end of a text that are read as they are written.
* `indexModule_readsBack_iff`: which index modules are read back.
-/

namespace ElementModules.Descriptor

open Text Script

/-! ### The names in order -/

theorem mem_dedupAdjacent {n : Text} {l : List Text} : n ∈ dedupAdjacent l ↔ n ∈ l := by
  fun_induction dedupAdjacent l with
  | case1 => rfl
  | case2 => rfl
  | case3 b rest ih =>
    rw [ih]
    exact ⟨List.mem_cons_of_mem b, fun h => (List.mem_cons.1 h).elim (· ▸ List.mem_cons_self) id⟩
  | case4 a b rest _ ih => rw [List.mem_cons, ih, ← List.mem_cons]

theorem pairwise_dedupAdjacent {l : List Text} (h : l.Pairwise fun m n => Text.le m n = true) :
    (dedupAdjacent l).Pairwise fun m n => utf8 m < utf8 n := by
  fun_induction dedupAdjacent l with
  | case1 => exact .nil
  | case2 a => exact List.pairwise_singleton _ a
  | case3 b rest ih => exact ih (List.pairwise_cons.1 h).2
  | case4 a b rest hne ih =>
    obtain ⟨ha, hrest⟩ := List.pairwise_cons.1 h
    refine List.pairwise_cons.2 ⟨fun n hn => ?_, ih hrest⟩
    have hle := ha n (mem_dedupAdjacent.1 hn)
    refine utf8_lt_of_lexLe hle fun he => hne ?_
    -- A name that equals `a` behind `b` would come before `b`.
    subst he
    rcases List.mem_cons.1 (mem_dedupAdjacent.1 hn) with he | hn
    · exact he
    · exact lexLe_antisymm charLt_strictLinear (ha b List.mem_cons_self)
        ((List.pairwise_cons.1 hrest).1 a hn)

theorem mem_sortedNames {n : Text} {names : List Text} : n ∈ sortedNames names ↔ n ∈ names := by
  rw [sortedNames, mem_dedupAdjacent, List.mem_mergeSort]

/-- **The names of an index** ascend in the order of their bytes. -/
theorem pairwise_sortedNames (names : List Text) :
    (sortedNames names).Pairwise fun m n => utf8 m < utf8 n := by
  have htrans : ∀ a b c : Text, Text.le a b = true → Text.le b c = true → Text.le a c = true :=
    fun _ _ _ hab hbc => lexLe_trans charLt_strictLinear hab hbc
  have htotal : ∀ a b : Text, (Text.le a b || Text.le b a) = true :=
    lexLe_total charLt_strictLinear
  exact pairwise_dedupAdjacent (List.pairwise_mergeSort htrans htotal names)

/-- There is one list of the names in the order of their bytes. -/
theorem eq_sortedNames {listed names : List Text}
    (h : listed.Pairwise fun m n => utf8 m < utf8 n) (hm : ∀ n, n ∈ listed ↔ n ∈ names) :
    listed = sortedNames names := by
  have hs := pairwise_sortedNames names
  have hnodup : ∀ {l : List Text}, (l.Pairwise fun m n => utf8 m < utf8 n) → l.Nodup := fun hl =>
    hl.imp (S := (· ≠ ·)) fun hlt he => List.lt_irrefl _ (he ▸ hlt)
  have hperm : listed.Perm (sortedNames names) :=
    (List.perm_ext_iff_of_nodup (hnodup h) (hnodup hs)).2 fun n =>
      (hm n).trans mem_sortedNames.symm
  exact hperm.eq_of_pairwise (fun a b _ _ hab hba => absurd hba (List.lt_asymm hab)) h hs

/-- **An index depends on the set of the names** only. -/
theorem indexModule_congr {names names' : List Text} (h : ∀ n, n ∈ names ↔ n ∈ names')
    (library : Text) : indexModule library names = indexModule library names' := by
  have hsorted : sortedNames names = sortedNames names' :=
    eq_sortedNames (pairwise_sortedNames names) fun n => mem_sortedNames.trans (h n)
  exact congrArg (fun l => indexHeader library ++ l.flatMap indexLine) hsorted

/-! ### Imports at the end of a text -/

/-- Texts that end without a blank are the same if they are the same with blanks behind them. -/
theorem eq_of_append_blanks {s t b b' : Text} (hs : ∀ c ∈ s.getLast?, isBlank c = false)
    (ht : ∀ c ∈ t.getLast?, isBlank c = false) (hb : ∀ c ∈ b, isBlank c = true)
    (hb' : ∀ c ∈ b', isBlank c = true) (h : s ++ b = t ++ b') : s = t := by
  have htrim := congrArg trimEnd h
  rwa [trimEnd_append_blanks _ hb, trimEnd_append_blanks _ hb', trimEnd_eq_self hs,
    trimEnd_eq_self ht] at htrim

/-- A bare import ends with a semicolon, whatever stands in front. -/
theorem getLast?_append_bareImport (t path : Text) :
    ∀ c ∈ (t ++ bareImport path).getLast?, isBlank c = false := by
  rw [bareImport_eq, ← List.append_assoc, List.getLast?_concat]
  intro c hc
  obtain rfl := Option.some.inj hc
  rfl

theorem trim_bareImport_newline (path : Text) :
    trim (bareImport path ++ ['\n']) = bareImport path := by
  rw [trim_append_newline]
  exact trim_eq_self (head?_bareImport path) (getLast?_append_bareImport [] path)

theorem not_continues_newline (t : Text) : continues (marks ('\n' :: t)) = false := rfl

/-- Behind a line that ends without a blank a statement starts at once: a line feed in front of it
would belong to the statement above, or that one would have no end. -/
theorem eq_nil_of_seam {x p b q y : Text} (h : Seam p (b ++ q))
    (hb : ∀ c ∈ b, isBlank c = true) (hy : ∀ c ∈ y.getLast?, isBlank c = false)
    (he : x ++ p ++ b = y ++ ['\n']) : b = [] := by
  by_contra hne
  obtain ⟨b, c, rfl⟩ := (List.eq_nil_or_concat b).resolve_left hne
  rw [List.concat_eq_append, ← List.append_assoc] at he
  obtain ⟨he, hc⟩ := List.append_inj' he rfl
  obtain rfl : b = [] := by
    rcases List.eq_nil_or_concat b with rfl | ⟨b, d, rfl⟩
    · rfl
    · have hd := hy d (by rw [← he, List.concat_eq_append, ← List.append_assoc]; simp)
      rw [hb d (by simp)] at hd
      cases hd
  rcases h with hclosed | ⟨-, hcontinues⟩
  · have hlast := hy '\n' (by rw [← he]; simp [hclosed.getLast?])
    cases hlast
  · obtain rfl : c = '\n' := (List.cons.inj hc).1
    exact absurd hcontinues (by simp [not_continues_newline])

/-- **The last import of a text.** A statement that is read as the import at the end of a text holds
that import and the line feed behind it, and nothing else. -/
theorem front_eq_of_lastImport {x p q y m : Text} (hread : importedPath? (trim q) = some m)
    (hseam : Seam p q) (hy : ∀ c ∈ y.getLast?, isBlank c = false)
    (he : x ++ p ++ q = y ++ ['\n'] ++ (bareImport m ++ ['\n'])) :
    x ++ p = y ++ ['\n'] ∧ IsRaw m := by
  have hnewline : ∀ c ∈ ['\n'], isBlank c = true := by
    simp only [List.mem_singleton, forall_eq]
    rfl
  obtain ⟨b, b', hq, hb, hb'⟩ := exists_eq_blanks_trim_blanks q
  obtain ⟨w, hw, hbody, hm⟩ := importedPath?_eq_some_iff.1 hread
  rw [hw] at hq
  have himport : x ++ p ++ b ++ bareImport w = y ++ ['\n'] ++ bareImport m := by
    refine eq_of_append_blanks (getLast?_append_bareImport _ w) (getLast?_append_bareImport _ m)
      hb' hnewline ?_
    rw [hq] at he
    simpa only [List.append_assoc] using he
  obtain ⟨hfront, hraw⟩ := hbody.of_append_bareImport hm himport
  rw [hq, List.append_assoc] at hseam
  obtain rfl := eq_nil_of_seam hseam hb hy hfront
  exact ⟨by rwa [List.append_nil] at hfront, hraw⟩

/-- A listing of imports ends with a semicolon and a line feed. -/
theorem exists_append_newline {h : Text} (hh : ∀ c ∈ h.getLast?, isBlank c = false)
    (paths : List Text) :
    ∃ y, h ++ ['\n'] ++ listing (paths.map bareImport) = y ++ ['\n']
      ∧ ∀ c ∈ y.getLast?, isBlank c = false := by
  rcases List.eq_nil_or_concat paths with rfl | ⟨paths, m, rfl⟩
  · exact ⟨h, List.append_nil _, hh⟩
  · refine ⟨h ++ ['\n'] ++ listing (paths.map bareImport) ++ bareImport m, ?_,
      getLast?_append_bareImport _ m⟩
    rw [List.concat_eq_append, List.map_append, listing_append, List.map_singleton, listing_cons,
      listing_nil, List.append_nil]
    simp only [List.append_assoc]

/-- **Imports at the end of a text** that are read as they are written: the statement in front of
them is all that stands in front of them, and no path needs escapes. -/
theorem front_eq_of_imports {h : Text} (hh : ∀ c ∈ h.getLast?, isBlank c = false) {p : Text}
    {ps paths : List Text} (hread : ps.map (fun q => importedPath? (trim q)) = paths.map some)
    (hseams : (p :: ps).IsChain Seam)
    (he : (p :: ps).flatten = h ++ ['\n'] ++ listing (paths.map bareImport)) :
    p = h ++ ['\n'] ∧ ∀ m ∈ paths, IsRaw m := by
  -- The induction takes the imports from the end, where a statement is bounded on its other side
  -- already.
  induction paths using List.reverseRecOn generalizing ps with
  | nil =>
    obtain rfl := List.map_eq_nil_iff.1 hread
    exact ⟨by simpa using he, by simp⟩
  | append_singleton paths m ih =>
    rw [List.map_append, List.map_eq_append_iff] at hread
    obtain ⟨qs, last, rfl, hqs, hlast⟩ := hread
    obtain ⟨q, rfl, hq⟩ := List.map_eq_singleton_iff.1 hlast
    obtain ⟨x, r, hx⟩ := (List.eq_nil_or_concat (p :: qs)).resolve_left (List.cons_ne_nil p qs)
    rw [List.concat_eq_append] at hx
    rw [← List.cons_append] at hseams he
    obtain ⟨hfront, -, hmeet⟩ := List.isChain_append.1 hseams
    have hseam : Seam r q := hmeet r (by simp [hx]) q rfl
    obtain ⟨y, hy, hsolid⟩ := exists_append_newline hh paths
    have hflat : (p :: qs).flatten = x.flatten ++ r := by
      rw [hx, List.flatten_append, List.flatten_singleton]
    rw [List.flatten_append, List.flatten_singleton, hflat, List.map_append, listing_append,
      ← List.append_assoc, hy, List.map_singleton, listing_cons, listing_nil, List.append_nil] at he
    obtain ⟨hrest, hm⟩ := front_eq_of_lastImport hq hseam hsolid he
    obtain ⟨hp, hpaths⟩ := ih hqs hfront (by rw [hflat, hrest, hy])
    refine ⟨hp, fun n hn => ?_⟩
    rcases List.mem_append.1 hn with hn | hn
    · exact hpaths n hn
    · exact List.mem_singleton.1 hn ▸ hm

/-! ### Index modules -/

/-- The path by which an index imports a module. -/
def indexPath (name : Text) : Text := "./" ++ name

/-- A text that is read as one comment and below it, in this order, an import of each module. -/
def ListsModules (t : Text) (listed : List Text) : Prop :=
  ∃ head imports, segments t = head :: imports ∧ head.kind = .comment
    ∧ (∀ s ∈ imports, s.kind = .importDecl)
    ∧ imports.map (fun s => importedPath? s.trimmed) = (listed.map indexPath).map some

/-- The index of the modules is read back as an import of each of them, in the order of the bytes of
their names. -/
def ReadsBack (library : Text) (names : List Text) : Prop :=
  ∃ listed : List Text, (listed.Pairwise fun m n => utf8 m < utf8 n)
    ∧ (∀ n, n ∈ listed ↔ n ∈ names) ∧ ListsModules (indexModule library names) listed

theorem isRaw_indexPath_iff {name : Text} : IsRaw (indexPath name) ↔ IsRaw name := by
  constructor
  · exact fun h c hc => h c (List.mem_append_right _ hc)
  · intro h c hc
    have hdot : IsRaw "./" := by decide
    exact (List.mem_append.1 hc).elim (hdot c) (h c)

theorem indexLine_eq (name : Text) : indexLine name = bareImport (indexPath name) ++ ['\n'] := by
  have h₁ : ("import './" : Text) = ("import " : Text) ++ '\'' :: ("./" : Text) := by decide
  have h₂ : ("';\n" : Text) = ['\'', ';'] ++ ['\n'] := by decide
  have hsplit : ∀ i d : Text, i ++ '\'' :: d ++ name ++ (['\'', ';'] ++ ['\n'])
      = i ++ '\'' :: (d ++ name) ++ ['\'', ';'] ++ ['\n'] := by simp
  have h : indexLine name = ("import './" : Text) ++ name ++ ("';\n" : Text) := rfl
  rw [h, h₁, h₂]
  exact hsplit _ _

theorem indexModule_eq (library : Text) (names : List Text) :
    indexModule library names
      = indexHeader library ++ listing (((sortedNames names).map indexPath).map bareImport) := by
  have hlines (l : List Text) :
      l.flatMap indexLine = listing ((l.map indexPath).map bareImport) := by
    induction l with
    | nil => rfl
    | cons n l ih => rw [List.flatMap_cons, ih, indexLine_eq]; rfl
  exact congrArg (indexHeader library ++ ·) (hlines _)

/-- An index that is read back has one comment for its header and names that need no escapes. -/
theorem of_readsBack {library : Text} {names : List Text} (h : ReadsBack library names) :
    contents (indexHeader library) = [(.comment, indexHeader library)]
      ∧ ∀ n ∈ names, IsRaw n := by
  obtain ⟨listed, hsorted, hm, head, imports, hsegments, hhead, -, hread⟩ := h
  obtain rfl := eq_sortedNames hsorted hm
  have hpieces := map_text_segments (indexModule library names)
  have hseams := isChain_pieces (indexModule library names)
  have hflat := flatten_pieces (indexModule library names)
  obtain ⟨hpiece, hshape⟩ := of_mem_segments (hsegments ▸ List.mem_cons_self : head ∈ _)
  rw [hsegments, List.map_cons] at hpieces
  rw [← hpieces] at hseams hflat
  rw [indexModule_eq, indexHeader_eq_comment] at hflat
  obtain ⟨he, hraw⟩ := front_eq_of_imports (getLast?_indexComment library)
    (by rw [← hread, List.map_map]; rfl) hseams hflat
  rw [← indexHeader_eq_comment] at he
  rw [hhead, he] at hshape
  rw [he] at hpiece
  refine ⟨by rw [hpiece.contents_eq, ← hshape], fun n hn => ?_⟩
  exact isRaw_indexPath_iff.1 (hraw _ (List.mem_map_of_mem (mem_sortedNames.2 hn)))

/-- A listing of imports that need no escapes is read as these imports. -/
theorem contents_listing_bareImport {paths : List Text} (h : ∀ m ∈ paths, IsRaw m) :
    contents (listing (paths.map bareImport))
      = paths.map fun m => (.importDecl, bareImport m ++ ['\n']) := by
  rw [contents_listing, List.map_map]
  · exact List.map_congr_left fun m hm => congrArg (·, _) (h m hm).shape_bareImport
  · intro p hp
    obtain ⟨m, hm, rfl⟩ := List.mem_map.1 hp
    exact .inr (h m hm).isLine_bareImport.isEntry

theorem readsBack_of_contents {library : Text} {names : List Text}
    (hheader : contents (indexHeader library) = [(.comment, indexHeader library)])
    (hnames : ∀ n ∈ names, IsRaw n) : ReadsBack library names := by
  refine ⟨sortedNames names, pairwise_sortedNames names, fun _ => mem_sortedNames, ?_⟩
  have hpaths : ∀ m ∈ (sortedNames names).map indexPath, IsRaw m := by
    intro m hm
    obtain ⟨n, hn, rfl⟩ := List.mem_map.1 hm
    exact isRaw_indexPath_iff.2 (hnames n (mem_sortedNames.1 hn))
  have hseam : Seam (indexHeader library)
      (listing (((sortedNames names).map indexPath).map bareImport)) :=
    .inl (closedBy_indexHeader hheader)
  have hcontents := hseam.contents_append
  rw [← indexModule_eq, hheader, contents_listing_bareImport hpaths, List.singleton_append,
    ← map_content_segments, List.map_eq_cons_iff] at hcontents
  obtain ⟨head, imports, hsegments, hhead, himports⟩ := hcontents
  refine ⟨head, imports, hsegments, congrArg Prod.fst hhead, fun s hs => ?_, ?_⟩
  · have hmem : s.content ∈ imports.map Segment.content := List.mem_map_of_mem hs
    rw [himports] at hmem
    obtain ⟨m, -, hm⟩ := List.mem_map.1 hmem
    exact congrArg Prod.fst hm.symm
  · have hread := congrArg (List.map fun c => importedPath? (trim c.2)) himports
    rw [List.map_map, List.map_map] at hread
    refine hread.trans (List.map_congr_left fun m hm => ?_)
    exact (congrArg importedPath? (trim_bareImport_newline m)).trans
      (hpaths m hm).importedPath?_bareImport

/-- **An index is read back** if and only if its header is one comment and no name needs escapes. A
library whose name does not end the comment has such a header. In any case the index depends on the
set of the names only. -/
theorem indexModule_readsBack_iff (library : Text) (names : List Text) :
    (ReadsBack library names
      ↔ contents (indexHeader library) = [(.comment, indexHeader library)]
        ∧ ∀ n ∈ names, IsRaw n)
    ∧ (contains "*/" library = false →
      contents (indexHeader library) = [(.comment, indexHeader library)])
    ∧ ∀ names', (∀ n, n ∈ names ↔ n ∈ names') →
      indexModule library names = indexModule library names' :=
  ⟨⟨of_readsBack, fun h => readsBack_of_contents h.1 h.2⟩, contents_indexHeader,
    fun _ h => indexModule_congr h library⟩

/-- Modules that are given twice and out of order are listed once and in order. -/
theorem readsBack_repeatedNames :
    ReadsBack "a" ["b.js", "a.js", "b.js"]
      ∧ indexModule "a" ["b.js", "a.js", "b.js"] = indexModule "a" ["a.js", "b.js"] :=
  have h := indexModule_readsBack_iff "a" ["b.js", "a.js", "b.js"]
  ⟨h.1.2 ⟨h.2.1 (by decide), by decide⟩, h.2.2 ["a.js", "b.js"] (by simp [or_comm])⟩

/-- A quote in the name of a module ends the string that imports it, so the index is not read
back. -/
theorem not_readsBack_quotedName : ¬ ReadsBack "a" ["it's.js"] := fun h =>
  absurd ((of_readsBack h).2 _ List.mem_cons_self) (by decide)

end ElementModules.Descriptor
