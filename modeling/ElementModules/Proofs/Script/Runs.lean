import ElementModules.Proofs.Script.Content

/-!
# Runs of fields

A program that writes the body of a literal writes one field behind the other, each with a comma and
a line feed. Such a **run** of fields is scanned on its own, and its keys can be told from its text
alone, so runs are put together like their keys (`IsFieldRun.append`).

A single field may hold texts from elsewhere: strings and values. It is written in parts, and every
part **fits** if no comma between fields stands in it and no bracket that was open before is closed
(`Fits`). The part that ends the field is told by its last two characters (`EndsField`).

## Main results

* `fieldKeys_append`, `IsFieldRun.append`: the keys of fields that are written one behind the other.
* `IsFieldRun.of_key`: a field that is written in parts.
-/

namespace ElementModules.Script

open Text

/-! ### Keys -/

/-- The keys of the fields of a body. -/
def fieldKeys (t : Text) : List (Option Text) := (fields t).map Field.key

theorem fieldKeys_eq (t : Text) : fieldKeys t = (gists t).map Prod.fst := by
  rw [fieldKeys, gists, List.map_map]
  rfl

/-- The fields in front of a comma and those behind it. -/
theorem gists_append_comma {p : Text} (h : (endState p).IsTopLevelAt ',') (b : Text) :
    gists (p ++ ',' :: b) = gists p ++ gists b := by
  induction p using comma_induction with
  | last p hp => rw [gists_comma hp h, gists_last hp]
  | comma p q hp htop ih =>
    rw [endState_comma htop] at h
    rw [List.append_assoc, List.cons_append, gists_comma hp htop, gists_comma hp htop, ih h,
      List.append_assoc]

/-- A line feed in front of a piece is no part of its field. -/
theorem gistsOf_newline (ms : List Mark) : gistsOf (⟨'\n', .code, 0⟩ :: ms) = gistsOf ms := by
  have hchars : chars (⟨'\n', .code, 0⟩ :: ms) = '\n' :: chars ms := rfl
  have hblank : isBlankText ('\n' :: chars ms) = isBlankText (chars ms) := rfl
  have htrim : trim ('\n' :: chars ms) = trim (chars ms) := rfl
  have hcontent : contentOf (⟨'\n', .code, 0⟩ :: ms) = contentOf ms :=
    List.dropWhile_cons_of_pos rfl
  simp only [gistsOf, fieldsOf, hchars, hblank, htrim, hcontent]
  split
  · rfl
  · rfl

theorem gists_newline (b : Text) : gists ('\n' :: b) = gists b := by
  have hmarks : ∀ p, marks ('\n' :: p) = ⟨'\n', .code, 0⟩ :: marks p := fun _ => rfl
  have hfree : ∀ {p}, IsCommaFree p → IsCommaFree ('\n' :: p) := by
    intro p hp m hm
    rcases List.mem_cons.1 hm with rfl | hm
    · rfl
    · exact hp m hm
  induction b using comma_induction with
  | last p hp => rw [gists_last (hfree hp), gists_last hp, hmarks, gistsOf_newline]
  | comma p b hp htop _ =>
    rw [← List.cons_append, gists_comma (hfree hp) htop, gists_comma hp htop, hmarks, gistsOf_newline]

/-- **Behind a comma and a line feed** the keys start anew. -/
theorem fieldKeys_append {p : Text} (h : (endState p).IsTopLevelAt ',') (b : Text) :
    fieldKeys (p ++ ',' :: '\n' :: b) = fieldKeys p ++ fieldKeys b := by
  rw [fieldKeys_eq, gists_append_comma h, gists_newline, List.map_append, ← fieldKeys_eq,
    ← fieldKeys_eq]

/-- The key of a field that begins with it. -/
theorem keyOf_name {key : Text} (hk : isName key = true)
    (hm : key ∉ (["async", "get", "set"] : List Text)) {c : Char} (hc : Token.isNameChar c = false)
    (r : Text) : (keyOf (key ++ c :: r)).1 = some key := by
  have hspread : startsWith (key ++ c :: r) "..." = false := by
    obtain ⟨x, k, rfl⟩ := List.exists_cons_of_ne_nil (ne_nil_of_isName hk)
    have hx : '.' ≠ x := (ne_of_class (isNameChar_of_mem hk List.mem_cons_self) rfl).symm
    have hdots : ("..." : Text) = ['.', '.', '.'] := by decide
    rw [startsWith, hdots, List.cons_append, List.isPrefixOf, beq_false_of_ne hx, Bool.false_and]
  have hmethod : modifiedMethod? (key ++ c :: r) = none := by
    rw [modifiedMethod?_eq, List.findSome?_eq_none_iff]
    intro modifier hmem
    have hword : ∀ w ∈ (["async", "get", "set"] : List Text), w.all Token.isNameChar = true := by
      decide
    rw [Token.word?_append_of_ne (List.all_eq_true.1 (hword modifier hmem))
      (fun _ => isNameChar_of_mem hk) (fun he => hm (he ▸ hmem)) (by simp [hc])]
    rfl
  rw [keyOf_eq, hspread, hmethod, Token.name?_append hk (by simp [hc])]
  rfl

/-! ### Runs -/

/-- Fields of a body, each with a comma and a line feed behind it. -/
structure IsFieldRun (keys : List Text) (w : Text) : Prop where
  closed : ∃ p, w = p ++ [',', '\n'] ∧ (endState p).IsTopLevelAt ','
  strayless : IsStrayless (marks w)
  keys : fieldKeys w = keys.map some

namespace IsFieldRun

variable {keys : List Text} {w : Text} (h : IsFieldRun keys w)
include h

theorem closedBy : ClosedBy '\n' w := by
  obtain ⟨p, rfl, hp⟩ := h.closed
  refine ⟨p ++ [','], by simp, ?_⟩
  rw [endState_comma hp]
  exact ⟨rfl, rfl⟩

/-- Behind the fields the scan starts anew. -/
theorem endState_eq : endState w = .start := Closed.endState (.inl h.closedBy)

/-- Fields alone can stand between braces. -/
theorem isBody : IsBody w := ⟨h.strayless, by rw [h.endState_eq]; exact ⟨rfl, rfl⟩⟩

theorem fieldKeys_append (b : Text) : fieldKeys (w ++ b) = keys.map some ++ fieldKeys b := by
  obtain ⟨p, rfl, hp⟩ := h.closed
  have hkeys := h.keys
  have hnone : fieldKeys [] = [] := rfl
  rw [Script.fieldKeys_append hp, hnone, List.append_nil] at hkeys
  rw [List.append_assoc, ← hkeys]
  exact Script.fieldKeys_append hp b

/-- **Runs of fields** one behind the other. -/
theorem append {keys' : List Text} {w' : Text} (h' : IsFieldRun keys' w') :
    IsFieldRun (keys ++ keys') (w ++ w') where
  closed := by
    obtain ⟨p, rfl, hp⟩ := h'.closed
    refine ⟨w ++ p, by simp, ?_⟩
    rwa [endState_append, h.endState_eq]
  strayless := by
    intro m hm
    rw [Closed.marks_append (.inl h.closedBy), List.mem_append] at hm
    exact hm.elim (h.strayless m) (h'.strayless m)
  keys := by rw [h.fieldKeys_append, h'.keys, List.map_append]

end IsFieldRun

/-! ### Fields in parts -/

/-- A mark that neither parts fields nor closes a bracket around them. -/
def isHarmless (m : Mark) : Bool := !isComma m && !closes 0 m

/-- A part of a field that takes the scan from some open enclosures to others. -/
def Fits (st : List Enclosure) (w : Text) (st' : List Enclosure) : Prop :=
  ∃ ms, Scans st w ms st' ∧ ∀ m ∈ ms, isHarmless m = true

/-- The last part of a field, with the comma and the line feed behind it. -/
def EndsField (st : List Enclosure) (w : Text) : Prop :=
  ∃ ms, Scans st w (ms ++ [⟨',', .code, 0⟩, ⟨'\n', .code, 0⟩]) []
    ∧ ∀ m ∈ ms, isHarmless m = true

/-- A text that does not end with a slash is scanned whatever follows it. -/
theorem Scans.of_run {st st' : List Enclosure} {w : Text}
    (h : State.run ⟨.code, st⟩ w = ⟨.code, st'⟩) (hl : w.getLast? ≠ some '/') :
    Scans st w (marksFrom ⟨.code, st⟩ w) st' where
  run := h
  marks t := by rw [marksFrom_append_eq (fun he => absurd he hl), h]

namespace Fits

variable {st st₁ st₂ : List Enclosure}

theorem append {w w' : Text} (h : Fits st w st₁) (h' : Fits st₁ w' st₂) : Fits st (w ++ w') st₂ := by
  obtain ⟨ms, hs, hm⟩ := h
  obtain ⟨ms', hs', hm'⟩ := h'
  exact ⟨_, hs.append hs', List.forall_mem_append.2 ⟨hm, hm'⟩⟩

/-- Whether a fixed text fits. -/
def holds (st : List Enclosure) (w : Text) (st' : List Enclosure) : Bool :=
  State.run ⟨.code, st⟩ w = ⟨.code, st'⟩ && w.getLast? != some '/'
    && (marksFrom ⟨.code, st⟩ w).all isHarmless

theorem of_holds {w : Text} (st₁ : List Enclosure) (h : holds st w st₁ = true) : Fits st w st₁ := by
  simp only [holds, Bool.and_eq_true, decide_eq_true_eq, bne_iff_ne, List.all_eq_true] at h
  exact ⟨_, .of_run h.1.1 h.1.2, h.2⟩

/-- A quoted string fits everywhere. -/
theorem quote (v : Text) (st : List Enclosure) : Fits st (quote v) st := by
  refine ⟨_, .quote v st, fun m hm => ?_⟩
  obtain ⟨c, -, rfl⟩ := List.mem_map.1 hm
  simp [isHarmless, isComma, closes, Mark.isTopLevel, Mark.isCode]

end Fits

namespace EndsField

variable {st : List Enclosure} {w : Text}

/-- A field that ends behind a part of it. -/
theorem behind {st' : List Enclosure} {w' : Text} (h : Fits st w st') (h' : EndsField st' w') :
    EndsField st (w ++ w') := by
  obtain ⟨ms, hs, hm⟩ := h
  obtain ⟨ms', hs', hm'⟩ := h'
  refine ⟨ms ++ ms', ?_, List.forall_mem_append.2 ⟨hm, hm'⟩⟩
  rw [List.append_assoc]
  exact hs.append hs'

/-- Whether a fixed text ends a field. -/
def holds (st : List Enclosure) (w : Text) : Bool :=
  State.run ⟨.code, st⟩ w = ⟨.code, []⟩
    && (marksFrom ⟨.code, st⟩ w).reverse.take 2 = [⟨'\n', .code, 0⟩, ⟨',', .code, 0⟩]
    && ((marksFrom ⟨.code, st⟩ w).reverse.drop 2).all isHarmless

theorem of_holds (h : holds st w = true) : EndsField st w := by
  simp only [holds, Bool.and_eq_true, decide_eq_true_eq, List.all_eq_true] at h
  obtain ⟨⟨hrun, hend⟩, hinner⟩ := h
  have hmarks : marksFrom ⟨.code, st⟩ w = ((marksFrom ⟨.code, st⟩ w).reverse.drop 2).reverse
      ++ [⟨',', .code, 0⟩, ⟨'\n', .code, 0⟩] := by
    have hsplit := List.take_append_drop 2 (marksFrom ⟨.code, st⟩ w).reverse
    rw [hend] at hsplit
    have := congrArg List.reverse hsplit
    simpa using this.symm
  have hlast : w.getLast? ≠ some '/' := by
    have hchars := congrArg chars hmarks
    rw [chars_marksFrom] at hchars
    rw [hchars]
    simp [chars]
  refine ⟨_, hmarks ▸ .of_run hrun hlast, fun m hm => hinner m (List.mem_reverse.1 hm)⟩

/-- The marks of a field and of what ends it. -/
theorem exists_eq (h : EndsField [] w) : ∃ p, w = p ++ [',', '\n'] ∧ (endState p).IsTopLevelAt ','
    ∧ ∀ m ∈ marks p, isHarmless m = true := by
  obtain ⟨ms, hs, hm⟩ := h
  have hmarks := hs.marks_eq
  have hw : w = chars ms ++ ',' :: ['\n'] := by
    rw [← chars_marks w, hmarks, chars_append]
    rfl
  obtain ⟨q, hq, he⟩ := marks_append_cons (chars ms) ',' ['\n']
  rw [← hw, hmarks] at he
  obtain ⟨rfl, htail⟩ := List.append_inj he (by rw [hq]; simp [chars])
  obtain ⟨hcomma, -⟩ := List.cons.inj htail
  have htop : (endState (chars ms)).IsTopLevelAt ',' := by
    have hlayer := congrArg Mark.layer hcomma
    have hdepth := congrArg Mark.depth hcomma
    refine ⟨?_, List.length_eq_zero_iff.1 hdepth.symm⟩
    rw [State.layer_of_ne_slash (by decide) _ none (some '\n')]
    exact hlayer.symm
  refine ⟨chars ms, hw, htop, ?_⟩
  have hsplit := marks_comma htop ['\n']
  rw [← hw, hmarks] at hsplit
  obtain ⟨hms, -⟩ := List.append_inj hsplit (by
    have := congrArg List.length (chars_marks (chars ms))
    simpa [chars] using this.symm)
  rw [← hms]
  exact hm

end EndsField

/-- A text that begins with a key, in front of a comma and a line feed. -/
theorem exists_eq_of_append_comma {front p r : Text} {c : Char} (hc : c = ':' ∨ c = '(')
    (h : p ++ [',', '\n'] = (front ++ [c]) ++ r) : ∃ r', p = front ++ c :: r' := by
  rcases List.append_eq_append_iff.1 h with ⟨a, ha, htail⟩ | ⟨a, rfl, -⟩
  · by_cases hne : a = []
    · exact ⟨[], by simpa [hne] using ha.symm⟩
    · have hlast := congrArg List.getLast? ha
      rw [List.getLast?_concat, List.getLast?_append_of_ne_nil _ hne] at hlast
      have hmem : c ∈ [',', '\n'] :=
        htail ▸ List.mem_append_left r (List.mem_of_getLast? hlast.symm)
      rcases hc with rfl | rfl <;> simp at hmem
  · exact ⟨a, by simp⟩

section Key

variable {key : Text} {c : Char} (hk : isName key = true) (hc : c = ':' ∨ c = '(')
include hk

theorem contentOf_key (r : Text) : contentOf (marks (' ' :: ' ' :: (key ++ c :: r)))
    = codeMarks 0 key ++ marks (c :: r) := by
  have hplain : ∀ d ∈ key, isPlain d = true := fun d hd =>
    isPlain_of_isNameChar (isNameChar_of_mem hk hd)
  have hmarks : marks (' ' :: ' ' :: (key ++ c :: r))
      = codeMarks 0 [' ', ' '] ++ (codeMarks 0 key ++ marks (c :: r)) := by
    have hrest : marks (key ++ c :: r) = codeMarks 0 key ++ marks (c :: r) :=
      (Scans.plain hplain []).marks (c :: r)
    rw [← hrest]
    rfl
  obtain ⟨x, k, rfl⟩ := List.exists_cons_of_ne_nil (ne_nil_of_isName hk)
  have hblanks : ∀ m ∈ codeMarks 0 [' ', ' '],
      (isAsciiBlank m.char || m.layer = .comment) = true := by decide
  have hfirst : ¬ (isAsciiBlank x || decide (Layer.code = .comment)) = true := by
    simp [(isHeadChar_of_isNameChar (isNameChar_of_mem hk List.mem_cons_self)).1]
  rw [hmarks, contentOf, List.dropWhile_append_of_pos hblanks]
  exact List.dropWhile_cons_of_neg hfirst

include hc in
/-- The key of a field that begins with two spaces and a name. -/
theorem keys_of_key (hm : key ∉ (["async", "get", "set"] : List Text)) (r : Text) :
    (gistsOf (marks (' ' :: ' ' :: (key ++ c :: r)))).map Prod.fst = [some key] := by
  have hname : Token.isNameChar c = false := by rcases hc with rfl | rfl <;> rfl
  have hblank : isBlankText (' ' :: ' ' :: (key ++ c :: r)) = false := by
    obtain ⟨x, k, rfl⟩ := List.exists_cons_of_ne_nil (ne_nil_of_isName hk)
    rw [isBlankText, List.all_eq_false]
    exact ⟨x, by simp, by rw [isBlank_of_isNameChar (isNameChar_of_mem hk List.mem_cons_self)]; simp⟩
  have hcores : ∀ ms : List Mark, (gistsOf ms).map Prod.fst = (coresOf ms).map Prod.fst := fun ms => by
    rw [coresOf, List.map_map]
    rfl
  rw [hcores, coresOf_eq, chars_marks, hblank, contentOf_key hk, chars_append, chars_codeMarks,
    chars_marks, if_neg (by simp), List.map_singleton, keyOf_name hk hm hname]

end Key

/-- **A field that is written in parts**, two spaces and the key first. -/
theorem IsFieldRun.of_key {key w r : Text} {c : Char} (hw : w = ' ' :: ' ' :: (key ++ c :: r))
    (hk : isName key = true) (hm : key ∉ (["async", "get", "set"] : List Text))
    (hc : c = ':' ∨ c = '(') (hend : EndsField [] w) : IsFieldRun [key] w := by
  obtain ⟨p, hp, htop, hinner⟩ := hend.exists_eq
  have hharmless : ∀ m ∈ marks p, isComma m = false ∧ closes 0 m = false := by
    intro m hmem
    simpa [isHarmless] using hinner m hmem
  have hfree : IsCommaFree p := fun m hmem => (hharmless m hmem).1
  have hfront : p ++ [',', '\n'] = (' ' :: ' ' :: key ++ [c]) ++ r := by simp [← hp, hw]
  obtain ⟨r', rfl⟩ := exists_eq_of_append_comma hc hfront
  refine ⟨⟨_, hp, htop⟩, ?_, ?_⟩
  · intro m hmem
    rw [hp, marks_comma htop, List.mem_append, List.mem_cons] at hmem
    rcases hmem with hmem | rfl | hmem
    · exact (hharmless m hmem).2
    · rfl
    · obtain rfl := List.mem_singleton.1 hmem
      rfl
  · have hnone : fieldKeys [] = [] := rfl
    rw [hp, Script.fieldKeys_append htop, hnone, List.append_nil, fieldKeys_eq, gists_last hfree]
    exact keys_of_key hk hc hm r'

/-- Whether a fixed text is a run of fields. -/
def IsFieldRun.holds (keys : List Text) (w : Text) : Bool :=
  w.dropLast.dropLast ++ [',', '\n'] = w && endState w.dropLast.dropLast = .start
    && ((marks w).all fun m => !closes 0 m) && fieldKeys w = keys.map some

theorem IsFieldRun.of_holds {keys : List Text} {w : Text} (h : holds keys w = true) :
    IsFieldRun keys w := by
  simp only [holds, Bool.and_eq_true, decide_eq_true_eq, List.all_eq_true, Bool.not_eq_true'] at h
  obtain ⟨⟨⟨hw, hend⟩, hstray⟩, hkeys⟩ := h
  exact ⟨⟨_, hw.symm, by rw [hend]; exact ⟨rfl, rfl⟩⟩, hstray, hkeys⟩

end ElementModules.Script
