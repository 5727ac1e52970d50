import ElementModules.Proofs.Text.Utf8
import ElementModules.Script.Identifier
import Mathlib.Data.List.Induction

/-!
# Labels

A label is made from a name in two steps: the name is cut into words, and each word is put in title
case. The words of a name are its runs: no separator, and no upper-case character behind the first
one. Runs with spaces between them are read back as they are (`labelWords_joinWith`), and for ASCII
characters title case makes runs into runs. So a label is its own label.

Where words begin is told by what has been read in front (`exists_labelWords_append`): the word that
goes on is empty behind a separator and at the beginning, and nowhere else.

## Main results

* `isRun_of_mem_labelWords`, `labelWords_joinWith`: the words of a name are runs, and runs are read
  back.
* `exists_labelWords_at`: which characters begin a word.
* `label_of_ascii`: what the label of an ASCII name shows of it, and that it is its own label.
-/

namespace ElementModules.Script

open Text

/-! ### Runs -/

/-- The text of a word: without separators, and without upper case behind the first character. -/
structure IsRun (w : Text) : Prop where
  ne_nil : w ≠ []
  solid : ∀ c ∈ w, isSeparator c = false
  tail : ∀ c ∈ w.tail, isUppercase c = false

theorem isRun_singleton {c : Char} (h : isSeparator c = false) : IsRun [c] :=
  ⟨List.cons_ne_nil c [], by simpa using h, by simp⟩

/-- A run goes on with a character that neither parts words nor begins one. -/
theorem IsRun.concat {w : Text} (h : IsRun w) {c : Char} (hc : isSeparator c = false)
    (hu : isUppercase c = false) : IsRun (w ++ [c]) := by
  obtain ⟨hne, hsolid, htail⟩ := h
  refine ⟨by simp, fun d hd => ?_, fun d hd => ?_⟩
  · rcases List.mem_append.1 hd with hd | hd
    · exact hsolid d hd
    · rwa [List.mem_singleton.1 hd]
  · rw [List.tail_append_of_ne_nil hne] at hd
    rcases List.mem_append.1 hd with hd | hd
    · exact htail d hd
    · rwa [List.mem_singleton.1 hd]

/-- The words of a name are runs. -/
theorem isRun_of_mem_labelWords {word : Text} (hword : word ≠ [] → IsRun word) (t : Text) :
    ∀ w ∈ labelWords word t, IsRun w := by
  induction t generalizing word with
  | nil =>
    rw [labelWords]
    split
    · simp
    next hne => simpa using hword (by simpa using hne)
  | cons c t ih =>
    have hnil : ∀ w ∈ labelWords [] t, IsRun w := ih fun h => absurd rfl h
    rw [labelWords]
    split
    · split
      · exact hnil
      next hne => exact List.forall_mem_cons.2 ⟨hword (by simpa using hne), hnil⟩
    next hc =>
      have hc : isSeparator c = false := by simpa using hc
      split
      next hu =>
        simp only [Bool.and_eq_true, Bool.not_eq_true', List.isEmpty_eq_false_iff] at hu
        exact List.forall_mem_cons.2 ⟨hword hu.2, ih fun _ => isRun_singleton hc⟩
      next hu =>
        refine ih fun _ => ?_
        by_cases hne : word = []
        · rw [hne]
          exact isRun_singleton hc
        · refine (hword hne).concat hc ?_
          simpa [hne] using hu

/-- A run is read as one word. -/
theorem labelWords_append_of_isRun {word w : Text} (h : IsRun (word ++ w)) (t : Text) :
    labelWords word (w ++ t) = labelWords (word ++ w) t := by
  induction w generalizing word with
  | nil => rw [List.append_nil, List.nil_append]
  | cons c w ih =>
    have hassoc : word ++ c :: w = word ++ [c] ++ w := by simp
    have hc : isSeparator c = false := h.solid c (by simp)
    have hu : (isUppercase c && !word.isEmpty) = false := by
      by_cases hne : word = []
      · simp [hne]
      · have hmem : c ∈ (word ++ c :: w).tail := by
          rw [List.tail_append_of_ne_nil hne]
          simp
        simp [h.tail c hmem]
    rw [hassoc] at h ⊢
    rw [List.cons_append, labelWords, hc, hu, ← ih h]
    simp

theorem joinWith_cons (w : Text) (ws : List Text) :
    joinWith [' '] (w :: ws) = w ++ if ws = [] then [] else ' ' :: joinWith [' '] ws := by
  cases ws with
  | nil => simp [joinWith]
  | cons v ws => simp [joinWith]

/-- **Runs with spaces between them** are read back. -/
theorem labelWords_joinWith {ws : List Text} (h : ∀ w ∈ ws, IsRun w) :
    labelWords [] (joinWith [' '] ws) = ws := by
  induction ws with
  | nil => rfl
  | cons w ws ih =>
    obtain ⟨hw, hws⟩ := List.forall_mem_cons.1 h
    have hempty : w.isEmpty = false := List.isEmpty_eq_false_iff.2 hw.ne_nil
    have hrun : IsRun ([] ++ w) := hw
    rw [joinWith_cons, labelWords_append_of_isRun hrun, List.nil_append]
    split
    next hnil => rw [labelWords, hempty, hnil]; rfl
    next =>
      have hspace : isSeparator ' ' = true := by decide
      rw [labelWords, hspace, hempty, ih hws]
      rfl

/-! ### Where words begin -/

/-- **Behind a first part** of a name some words are finished and one goes on. It is empty behind a
separator and at the beginning. -/
theorem exists_labelWords_append (a : Text) :
    ∃ done word, (∀ b, labelWords [] (a ++ b) = done ++ labelWords word b)
      ∧ done.flatten ++ word = (a.filter fun c => !isSeparator c)
      ∧ (word = [] ↔ a.getLast?.all isSeparator = true) := by
  induction a using List.reverseRecOn with
  | nil => exact ⟨[], [], fun b => rfl, rfl, by simp⟩
  | append_singleton a c ih =>
    obtain ⟨done, word, hread, hkept, -⟩ := ih
    have hnext : ∀ b, labelWords [] (a ++ [c] ++ b) = done ++ labelWords word (c :: b) := by
      intro b
      rw [List.append_assoc, hread]
      rfl
    cases hc : isSeparator c with
    | true =>
      refine ⟨done ++ if word.isEmpty then [] else [word], [], fun b => ?_, ?_, by simp [hc]⟩
      · rw [hnext, labelWords, hc]
        cases word <;> simp
      · rw [List.filter_append, ← hkept]
        cases word <;> simp [hc]
    | false =>
      by_cases hu : (isUppercase c && !word.isEmpty) = true
      · refine ⟨done ++ [word], [c], fun b => ?_, ?_, by simp [hc]⟩
        · rw [hnext, labelWords, hc, hu]
          simp
        · rw [List.filter_append, ← hkept]
          simp [hc]
      · refine ⟨done, word ++ [c], fun b => ?_, ?_, by simp [hc]⟩
        · rw [hnext, labelWords, hc, if_neg Bool.false_ne_true, if_neg hu]
        · rw [List.filter_append, ← hkept]
          simp [hc]

/-- A word that has begun goes on. -/
theorem exists_labelWords_cons {word : Text} (h : word ≠ []) (t : Text) :
    ∃ x ws, labelWords word t = (word ++ x) :: ws := by
  have hempty : word.isEmpty = false := List.isEmpty_eq_false_iff.2 h
  induction t generalizing word with
  | nil => exact ⟨[], [], by rw [labelWords, hempty]; simp⟩
  | cons c t ih =>
    rw [labelWords, hempty]
    split
    · exact ⟨[], _, by rw [List.append_nil]; rfl⟩
    · split
      · exact ⟨[], _, by rw [List.append_nil]⟩
      · obtain ⟨x, ws, hx⟩ := @ih (word ++ [c]) (by simp) (by simp)
        exact ⟨c :: x, ws, by rw [hx]; simp⟩

/-- **Which characters begin a word**: the first one that is kept, those behind a separator, and those
in upper case. -/
theorem exists_labelWords_at {c : Char} (hc : isSeparator c = false) (a b : Text) :
    ∃ pre u x post, labelWords [] (a ++ c :: b) = pre ++ (u ++ c :: x) :: post
      ∧ pre.flatten ++ u = (a.filter fun c => !isSeparator c)
      ∧ (u = [] ↔ a.getLast?.all isSeparator = true ∨ isUppercase c = true) := by
  obtain ⟨done, word, hread, hkept, hword⟩ := exists_labelWords_append a
  rw [hread, labelWords, hc, if_neg Bool.false_ne_true, ← hword, ← hkept]
  split
  next hu =>
    simp only [Bool.and_eq_true, Bool.not_eq_true', List.isEmpty_eq_false_iff] at hu
    obtain ⟨x, ws, hx⟩ := exists_labelWords_cons (List.cons_ne_nil c []) b
    exact ⟨done ++ [word], [], x, ws, by rw [hx]; simp, by simp, by simp [hu.1]⟩
  next hu =>
    obtain ⟨x, ws, hx⟩ := exists_labelWords_cons (List.concat_ne_nil c word) b
    refine ⟨done, word, x, ws, by rw [hx]; simp, rfl, ?_⟩
    simp only [Bool.and_eq_true, Bool.not_eq_true', List.isEmpty_eq_false_iff, not_and,
      not_not] at hu
    exact ⟨.inl, fun h => h.elim id hu⟩

/-- **Where a name is parted**: in front of a character that is kept, if another one is kept before it
and a separator stands between them or the character is in upper case. -/
theorem exists_parted_at {c : Char} (hc : isSeparator c = false) (a b : Text) :
    ∃ pre u x post, labelWords [] (a ++ c :: b) = pre ++ (u ++ c :: x) :: post
      ∧ pre.flatten ++ u = (a.filter fun c => !isSeparator c)
      ∧ (pre ≠ [] ∧ u = [] ↔ (∃ d ∈ a, isSeparator d = false)
          ∧ (a.getLast?.any isSeparator = true ∨ isUppercase c = true)) := by
  obtain ⟨pre, u, x, post, hwords, hkept, hbegins⟩ := exists_labelWords_at hc a b
  refine ⟨pre, u, x, post, hwords, hkept, ?_⟩
  have hkeeps : (∃ d ∈ a, isSeparator d = false) ↔ pre.flatten ++ u ≠ [] := by
    rw [hkept, Ne, List.filter_eq_nil_iff]
    simp
  have hlast : a ≠ [] → (a.getLast?.all isSeparator = a.getLast?.any isSeparator) := fun hne => by
    rw [List.getLast?_eq_some_getLast hne]
    rfl
  constructor
  · rintro ⟨hp, rfl⟩
    obtain ⟨w, hw⟩ := List.exists_mem_of_ne_nil pre hp
    have hrun : IsRun w := isRun_of_mem_labelWords (fun hn => absurd rfl hn) (a ++ c :: b) w
      (hwords ▸ List.mem_append_left _ hw)
    have hany : ∃ d ∈ a, isSeparator d = false := by
      rw [hkeeps, List.append_nil, Ne, List.flatten_eq_nil_iff]
      exact fun hnil => hrun.ne_nil (hnil w hw)
    have ⟨d, hd, _⟩ := hany
    exact ⟨hany, (hbegins.1 rfl).imp_left (hlast (List.ne_nil_of_mem hd) ▸ ·)⟩
  · rintro ⟨hany, hbreak⟩
    have ⟨d, hd, _⟩ := hany
    have hu : u = [] := hbegins.2 (hbreak.imp_left (hlast (List.ne_nil_of_mem hd) ▸ ·))
    refine ⟨?_, hu⟩
    rintro rfl
    rw [hkeeps, hu] at hany
    exact hany rfl

/-! ### Title case of ASCII characters -/

/-- What holds of the first 128 characters holds of every ASCII character. -/
theorem of_isAscii {P : Char → Prop} (h : ∀ n : Fin 128, P (Char.ofNat n)) {c : Char}
    (hc : isAscii c = true) : P c := by
  have hlt : c.toNat < 128 := by simpa [isAscii, UInt32.lt_iff_toNat_lt] using hc
  have := h ⟨c.toNat, hlt⟩
  rwa [Char.ofNat_toNat] at this

section Ascii

variable {c : Char} (hc : isAscii c = true)
include hc

theorem isUppercase_of_isAscii : isUppercase c = c.isUpper :=
  of_isAscii (P := fun c => isUppercase c = c.isUpper) (by decide +kernel) hc

theorem toUpper_of_isAscii : isAscii c.toUpper = true ∧ isSeparator c.toUpper = isSeparator c
    ∧ c.toUpper.isLower = false ∧ c.toUpper.toUpper = c.toUpper ∧ c.toUpper.toLower = c.toLower :=
  of_isAscii (P := fun c => isAscii c.toUpper = true ∧ isSeparator c.toUpper = isSeparator c
    ∧ c.toUpper.isLower = false ∧ c.toUpper.toUpper = c.toUpper ∧ c.toUpper.toLower = c.toLower)
    (by decide +kernel) hc

theorem toLower_of_isAscii : isAscii c.toLower = true ∧ isSeparator c.toLower = isSeparator c
    ∧ c.toLower.isUpper = false ∧ c.toLower.toLower = c.toLower :=
  of_isAscii (P := fun c => isAscii c.toLower = true ∧ isSeparator c.toLower = isSeparator c
    ∧ c.toLower.isUpper = false ∧ c.toLower.toLower = c.toLower) (by decide +kernel) hc

end Ascii

/-- Title case of an ASCII word. -/
theorem capitalized_of_ascii {c : Char} {w : Text} (h : ∀ d ∈ c :: w, isAscii d = true) :
    capitalized (c :: w) = c.toUpper :: w.map Char.toLower := by
  have hlt : ∀ d ∈ c :: w, d.toNat < 0x80 := fun d hd => by
    simpa [isAscii, UInt32.lt_iff_toNat_lt] using h d hd
  have hlower : w.flatMap lower = w.map Char.toLower := by
    rw [← List.flatMap_singleton' (w.map Char.toLower), List.flatMap_map]
    exact List.flatMap_congr fun d hd => lower_of_ascii (hlt d (List.mem_cons_of_mem c hd))
  rw [capitalized, hlower, upper_of_ascii (hlt c List.mem_cons_self)]
  rfl

/-- A word of a label: it does not begin with a lower-case letter, and its other characters are no
upper-case letters. -/
structure IsLabelWord (w : Text) : Prop where
  ne_nil : w ≠ []
  solid : ∀ c ∈ w, isSeparator c = false
  head : ∀ c ∈ w.head?, c.isLower = false
  tail : ∀ c ∈ w.tail, c.isUpper = false

section Word

variable {w : Text} (h : ∀ c ∈ w, isAscii c = true)
include h

theorem length_capitalized : (capitalized w).length = w.length := by
  cases w with
  | nil => rfl
  | cons c w => rw [capitalized_of_ascii h, List.length_cons, List.length_map, List.length_cons]

theorem isAscii_capitalized : ∀ c ∈ capitalized w, isAscii c = true := by
  cases w with
  | nil => exact fun c hc => absurd hc List.not_mem_nil
  | cons d w =>
    obtain ⟨hd, hw⟩ := List.forall_mem_cons.1 h
    rw [capitalized_of_ascii h]
    refine List.forall_mem_cons.2 ⟨(toUpper_of_isAscii hd).1, List.forall_mem_map.2 fun c hc => ?_⟩
    exact (toLower_of_isAscii (hw c hc)).1

/-- Title case changes the case of letters only. -/
theorem map_toLower_capitalized : (capitalized w).map Char.toLower = w.map Char.toLower := by
  cases w with
  | nil => rfl
  | cons c w =>
    obtain ⟨hc, hw⟩ := List.forall_mem_cons.1 h
    rw [capitalized_of_ascii h, List.map_cons, List.map_map, List.map_cons,
      (toUpper_of_isAscii hc).2.2.2.2]
    congr 1
    exact List.map_congr_left fun d hd => (toLower_of_isAscii (hw d hd)).2.2.2

theorem capitalized_capitalized : capitalized (capitalized w) = capitalized w := by
  have hascii := isAscii_capitalized h
  cases w with
  | nil => rfl
  | cons c w =>
    obtain ⟨hc, hw⟩ := List.forall_mem_cons.1 h
    rw [capitalized_of_ascii h] at hascii ⊢
    rw [capitalized_of_ascii hascii, (toUpper_of_isAscii hc).2.2.2.1, List.map_map]
    congr 1
    exact List.map_congr_left fun d hd => (toLower_of_isAscii (hw d hd)).2.2.2

/-- The first part of a word in title case. -/
theorem exists_capitalized_append {u x : Text} {c : Char} (hw : w = u ++ c :: x) :
    ∃ c' x', capitalized w = capitalized u ++ c' :: x' := by
  subst hw
  cases u with
  | nil => exact ⟨_, _, by rw [List.nil_append, capitalized_of_ascii h]; rfl⟩
  | cons d u =>
    have hu : ∀ e ∈ d :: u, isAscii e = true := fun e he => h e (List.mem_append_left _ he)
    rw [List.cons_append] at h ⊢
    rw [capitalized_of_ascii h, capitalized_of_ascii hu, List.map_append, List.map_cons]
    exact ⟨_, _, rfl⟩

/-- A run in title case is a word of a label. -/
theorem IsRun.isLabelWord (hrun : IsRun w) : IsLabelWord (capitalized w) := by
  obtain ⟨hne, hsolid, -⟩ := hrun
  cases w with
  | nil => exact absurd rfl hne
  | cons c w =>
    obtain ⟨hc, hw⟩ := List.forall_mem_cons.1 h
    obtain ⟨hsc, hsw⟩ := List.forall_mem_cons.1 hsolid
    rw [capitalized_of_ascii h]
    refine ⟨List.cons_ne_nil _ _, List.forall_mem_cons.2 ⟨?_, List.forall_mem_map.2 fun d hd => ?_⟩,
      ?_, List.forall_mem_map.2 fun d hd => (toLower_of_isAscii (hw d hd)).2.2.1⟩
    · rw [(toUpper_of_isAscii hc).2.1, hsc]
    · rw [(toLower_of_isAscii (hw d hd)).2.1, hsw d hd]
    · intro d hd
      obtain rfl := Option.some.inj hd
      exact (toUpper_of_isAscii hc).2.2.1

/-- A word of a label is a run. -/
theorem IsLabelWord.isRun (hw : IsLabelWord w) : IsRun w :=
  ⟨hw.ne_nil, hw.solid, fun c hc => by
    rw [isUppercase_of_isAscii (h c (List.mem_of_mem_tail hc)), hw.tail c hc]⟩

end Word

theorem IsLabelWord.space_not_mem {w : Text} (h : IsLabelWord w) : ' ' ∉ w := fun hc => by
  have := h.solid ' ' hc
  revert this
  decide

/-! ### Words with spaces between them -/

/-- A word stands behind the words in front of it, each with a space. -/
theorem joinWith_append_cons (pre : List Text) (w : Text) (post : List Text) :
    joinWith [' '] (pre ++ w :: post)
      = pre.flatMap (· ++ [' ']) ++ w ++ post.flatMap (' ' :: ·) := by
  induction pre with
  | nil =>
    induction post generalizing w with
    | nil => simp [joinWith]
    | cons v post ih =>
      have hv := ih v
      rw [List.nil_append] at hv ⊢
      rw [joinWith_cons, if_neg (List.cons_ne_nil v post), hv]
      simp
  | cons v pre ih =>
    rw [List.cons_append, joinWith_cons, if_neg (by simp), ih]
    simp

theorem filter_ne_space {w : Text} (h : ' ' ∉ w) : w.filter (· ≠ ' ') = w :=
  List.filter_eq_self.2 fun _ hc => decide_eq_true (ne_of_mem_of_not_mem hc h)

section Spaces

variable {ws : List Text} (h : ∀ w ∈ ws, ' ' ∉ w)
include h

theorem filter_flatMap_space :
    ((ws.flatMap (· ++ [' '])).filter (· ≠ ' ')) = ws.flatten := by
  induction ws with
  | nil => rfl
  | cons w ws ih =>
    obtain ⟨hw, hws⟩ := List.forall_mem_cons.1 h
    rw [List.flatMap_cons, List.filter_append, List.filter_append, filter_ne_space hw, ih hws,
      List.flatten_cons]
    simp

theorem filter_joinWith_space : ((joinWith [' '] ws).filter (· ≠ ' ')) = ws.flatten := by
  induction ws with
  | nil => rfl
  | cons w ws ih =>
    obtain ⟨hw, hws⟩ := List.forall_mem_cons.1 h
    rw [joinWith_cons, List.filter_append, filter_ne_space hw, List.flatten_cons]
    split
    next hnil => rw [hnil]; rfl
    next => rw [List.filter_cons_of_neg (by simp), ih hws]

end Spaces

/-- A space stands behind words that are followed by nothing. -/
theorem getLast?_flatMap_space {u : Text} (hu : ' ' ∉ u) (ws : List Text) :
    (ws.flatMap (· ++ [' ']) ++ u).getLast? = some ' ' ↔ ws ≠ [] ∧ u = [] := by
  by_cases hne : u = []
  · rcases List.eq_nil_or_concat ws with rfl | ⟨front, w, rfl⟩
    · simp [hne]
    · simp [hne, List.concat_eq_append]
  · rw [List.getLast?_append_of_ne_nil _ hne]
    simp only [hne, and_false, iff_false]
    exact fun hl => hu (List.mem_of_getLast? hl)

/-! ### Labels of ASCII names -/

section Label

variable {s : Text} (h : ∀ c ∈ s, isAscii c = true)
include h

/-- The words of an ASCII name are ASCII. -/
theorem isAscii_of_mem_labelWords : ∀ w ∈ labelWords [] s, ∀ c ∈ w, isAscii c = true := by
  intro w hw c hc
  have hmem : c ∈ (labelWords [] s).flatten := List.mem_flatten.2 ⟨w, hw, hc⟩
  rw [flatten_labelWords, List.nil_append] at hmem
  exact h c (List.mem_filter.1 hmem).1

theorem isLabelWord_of_mem : ∀ w ∈ (labelWords [] s).map capitalized, IsLabelWord w :=
  List.forall_mem_map.2 fun w hw => IsRun.isLabelWord (isAscii_of_mem_labelWords h w hw)
    (isRun_of_mem_labelWords (fun hne => absurd rfl hne) s w hw)

/-- **A label is its own label.** -/
theorem label_label : label (label s) = label s := by
  have hruns : ∀ w ∈ (labelWords [] s).map capitalized, IsRun w := fun w hw => by
    obtain ⟨v, hv, rfl⟩ := List.mem_map.1 hw
    exact (isLabelWord_of_mem h _ hw).isRun (isAscii_capitalized (isAscii_of_mem_labelWords h v hv))
  rw [label, label, labelWords_joinWith hruns, List.map_map]
  congr 1
  exact List.map_congr_left fun w hw => capitalized_capitalized (isAscii_of_mem_labelWords h w hw)

/-- A label has the characters of the name, but for the case of letters and for separators. -/
theorem map_toLower_label : ((label s).filter (· ≠ ' ')).map Char.toLower
    = (s.filter fun c => !isSeparator c).map Char.toLower := by
  rw [label, filter_joinWith_space fun w hw => (isLabelWord_of_mem h w hw).space_not_mem,
    ← List.nil_append (s.filter _), ← flatten_labelWords, List.map_flatten, List.map_flatten,
    List.map_map]
  congr 1
  exact List.map_congr_left fun w hw => map_toLower_capitalized (isAscii_of_mem_labelWords h w hw)

/-- **Where a word of the label begins.** -/
theorem exists_label_at {a b : Text} {c : Char} (hs : s = a ++ c :: b) (hc : isSeparator c = false) :
    ∃ a' c' b', label s = a' ++ c' :: b' ∧ c' ≠ ' '
      ∧ (a'.filter (· ≠ ' ')).length = (a.filter fun c => !isSeparator c).length
      ∧ (a'.getLast? = some ' ' ↔ (∃ d ∈ a, isSeparator d = false)
          ∧ (a.getLast?.any isSeparator = true ∨ c.isUpper = true)) := by
  obtain ⟨pre, u, x, post, hwords, hkept, hparted⟩ := exists_parted_at hc a b
  rw [← hs] at hwords
  have hmem : ∀ {w}, w ∈ pre ++ (u ++ c :: x) :: post → w ∈ labelWords [] s := fun hw => hwords ▸ hw
  have hascii := isAscii_of_mem_labelWords h (u ++ c :: x) (hmem (by simp))
  have hu : ∀ d ∈ u, isAscii d = true := fun d hd => hascii d (List.mem_append_left _ hd)
  have hpre : ∀ w ∈ pre, ∀ d ∈ w, isAscii d = true := fun w hw =>
    isAscii_of_mem_labelWords h w (hmem (List.mem_append_left _ hw))
  have hword : ∀ w ∈ pre ++ (u ++ c :: x) :: post, ' ' ∉ capitalized w := fun w hw =>
    (isLabelWord_of_mem h _ (List.mem_map_of_mem (hmem hw))).space_not_mem
  obtain ⟨c', x', hcap⟩ := exists_capitalized_append hascii rfl
  have hsolid := hword (u ++ c :: x) (by simp)
  rw [hcap, List.mem_append, List.mem_cons, not_or, not_or] at hsolid
  have hspaces : ∀ w ∈ pre.map capitalized, ' ' ∉ w :=
    List.forall_mem_map.2 fun w hw => hword w (List.mem_append_left _ hw)
  refine ⟨(pre.map capitalized).flatMap (· ++ [' ']) ++ capitalized u, c',
    x' ++ (post.map capitalized).flatMap (' ' :: ·), ?_, Ne.symm hsolid.2.1, ?_, ?_⟩
  · rw [label, hwords, List.map_append, List.map_cons, joinWith_append_cons, hcap]
    simp
  · rw [List.filter_append, filter_flatMap_space hspaces, filter_ne_space hsolid.1, ← hkept,
      List.length_append, List.length_append, length_capitalized hu, List.length_flatten,
      List.length_flatten, List.map_map]
    congr 2
    exact List.map_congr_left fun w hw => length_capitalized (hpre w hw)
  · have hnil : capitalized u = [] ↔ u = [] := by
      rw [← List.length_eq_zero_iff, length_capitalized hu, List.length_eq_zero_iff]
    rw [getLast?_flatMap_space hsolid.1, Ne, List.map_eq_nil_iff, hnil, hparted,
      isUppercase_of_isAscii (hascii c (by simp))]

end Label

/-- What a label shows of the name it was made from. -/
structure IsLabelOf (s l : Text) : Prop where
  /-- It is made of words with single spaces between them. -/
  words : ∃ ws : List Text, l = joinWith [' '] ws ∧ ∀ w ∈ ws, IsLabelWord w
  /-- No space stands at either end. -/
  trimmed : l.head? ≠ some ' ' ∧ l.getLast? ≠ some ' '
  /-- It has the characters of the name that are no separators, but for their case. -/
  letters : (l.filter (· ≠ ' ')).map Char.toLower
    = (s.filter fun c => !isSeparator c).map Char.toLower
  /-- The words are parted where a separator stands between two characters that are kept, and in
  front of an upper-case letter that is not the first character that is kept. -/
  parted : ∀ a c b, s = a ++ c :: b → isSeparator c = false →
    ∃ a' c' b', l = a' ++ c' :: b' ∧ c' ≠ ' '
      ∧ (a'.filter (· ≠ ' ')).length = (a.filter fun c => !isSeparator c).length
      ∧ (a'.getLast? = some ' ' ↔ (∃ d ∈ a, isSeparator d = false)
          ∧ (a.getLast?.any isSeparator = true ∨ c.isUpper = true))

/-- Words with spaces between them have no space at their ends. -/
theorem joinWith_space_trimmed {ws : List Text} (h : ∀ w ∈ ws, IsLabelWord w) :
    (joinWith [' '] ws).head? ≠ some ' ' ∧ (joinWith [' '] ws).getLast? ≠ some ' ' := by
  constructor
  · cases ws with
    | nil => simp [joinWith]
    | cons w ws =>
      have hw := h w List.mem_cons_self
      obtain ⟨c, w', rfl⟩ := List.exists_cons_of_ne_nil hw.ne_nil
      rw [joinWith_cons]
      exact fun he => hw.space_not_mem (Option.some.inj he ▸ List.mem_cons_self)
  · rcases List.eq_nil_or_concat ws with rfl | ⟨front, w, rfl⟩
    · simp [joinWith]
    · rw [List.concat_eq_append] at h ⊢
      have hw := h w (by simp)
      rw [joinWith_append_cons, List.flatMap_nil, List.append_nil, Ne,
        getLast?_flatMap_space hw.space_not_mem]
      exact fun he => hw.ne_nil he.2

/-- **The label of an ASCII name** consists of words in title case with single spaces between them. It
has the letters of the name, it is parted where the name is, and it is its own label. -/
theorem label_of_ascii {s : Text} (h : ∀ c ∈ s, isAscii c = true) :
    IsLabelOf s (label s) ∧ label (label s) = label s :=
  ⟨{ words := ⟨_, rfl, isLabelWord_of_mem h⟩
     trimmed := joinWith_space_trimmed (isLabelWord_of_mem h)
     letters := map_toLower_label h
     parted := fun _ _ _ hs hc => exists_label_at h hs hc }, label_label h⟩

/-- A name with separators at its ends and next to each other, a digit, and upper-case letters. -/
def tangledName : Text := "_ledRGB--7 \tx_Y2-"

theorem label_tangledName : (∀ c ∈ tangledName, isAscii c = true)
    ∧ IsLabelOf tangledName (label tangledName) ∧ label (label tangledName) = label tangledName
    ∧ label tangledName = "Led R G B 7 X Y2".toList := by
  have hascii : ∀ c ∈ tangledName, isAscii c = true := List.all_eq_true.1 (by decide)
  obtain ⟨hlabel, hown⟩ := label_of_ascii hascii
  exact ⟨hascii, hlabel, hown, by decide⟩

end ElementModules.Script
