import ElementModules.Proofs.Descriptor.Lines

/-!
# The path of a bare import

A **bare import** is a statement `import '…';` whose path is a string between single quotes. The
string ends at the first quote that no backslash escapes, and a line feed may stand in it only
behind a backslash (`IsStringBody`). What the import loads is the string with its escapes undone.

A path that needs no escapes is read back, and its import is one statement
(`IsRaw.isLine_bareImport`). Conversely, where a text ends with the import of a path and the
last bare import in it loads that path, the path needs no escapes: what is read is never longer than
what is written, and as long only if no escape is in it (`IsStringBody.of_append_bareImport`).

## Main results

* `importedPath?_eq_some_iff`: which statements are bare imports of a path.
* `IsRaw.importedPath?_bareImport`: a path that needs no escapes is read back.
* `IsStringBody.of_append_bareImport`: a path that is read back needs no escapes.
-/

namespace ElementModules.Descriptor

open Text Script

/-! ### Strings between single quotes -/

/-- A character that stands for itself between single quotes. -/
def IsRawChar (c : Char) : Prop := c ≠ '\'' ∧ c ≠ '\\' ∧ c ≠ '\n'

instance : DecidablePred IsRawChar := fun _ => instDecidableAnd

/-- A text that stands for itself between single quotes. -/
def IsRaw (t : Text) : Prop := ∀ c ∈ t, IsRawChar c

instance : DecidablePred IsRaw := fun t => List.decidableBAll _ t

/-- What may stand between single quotes. -/
inductive IsStringBody : Text → Prop
  | nil : IsStringBody []
  | char {c : Char} {w : Text} (hc : IsRawChar c) (hw : IsStringBody w) : IsStringBody (c :: w)
  | escape (d : Char) {w : Text} (hw : IsStringBody w) : IsStringBody ('\\' :: d :: w)

/-- What stands up to the next single quote that is not escaped, and what follows it. -/
def quotedRest? : Text → Option (Text × Text)
  | [] => none
  | [c] => if c = '\'' then some ([], []) else none
  | c :: d :: t =>
    if c = '\'' then some ([], d :: t)
    else if c = '\n' then none
    else if c = '\\' then (quotedRest? t).map fun r => (c :: d :: r.1, r.2)
    else (quotedRest? (d :: t)).map fun r => (c :: r.1, r.2)

theorem exists_of_quotedRest? {t w r : Text} (h : quotedRest? t = some (w, r)) :
    t = w ++ '\'' :: r ∧ IsStringBody w := by
  fun_induction quotedRest? t generalizing w with
  | case1 => cases h
  | case2 =>
    obtain ⟨rfl, rfl⟩ := Prod.mk.inj (Option.some.inj h)
    exact ⟨rfl, .nil⟩
  | case3 => cases h
  | case4 =>
    obtain ⟨rfl, rfl⟩ := Prod.mk.inj (Option.some.inj h)
    exact ⟨rfl, .nil⟩
  | case5 => cases h
  | case6 d t _ _ ih =>
    obtain ⟨⟨w', r'⟩, hr, he⟩ := Option.map_eq_some_iff.1 h
    obtain ⟨rfl, rfl⟩ := Prod.mk.inj he
    obtain ⟨rfl, hw⟩ := ih hr
    exact ⟨rfl, .escape d hw⟩
  | case7 c d t hq hn hb ih =>
    obtain ⟨⟨w', r'⟩, hr, he⟩ := Option.map_eq_some_iff.1 h
    obtain ⟨rfl, rfl⟩ := Prod.mk.inj he
    obtain ⟨ht, hw⟩ := ih hr
    exact ⟨by rw [ht]; rfl, .char ⟨hq, hb, hn⟩ hw⟩

theorem IsStringBody.quotedRest?_eq {w : Text} (h : IsStringBody w) (r : Text) :
    quotedRest? (w ++ '\'' :: r) = some (w, r) := by
  induction h with
  | nil => cases r <;> rfl
  | @char c w hc _ ih =>
    cases hw : w ++ '\'' :: r with
    | nil => exact absurd hw (by simp)
    | cons d t =>
      rw [hw] at ih
      rw [List.cons_append, hw, quotedRest?, if_neg hc.1, if_neg hc.2.2, if_neg hc.2.1, ih]
      rfl
  | escape d _ ih =>
    rw [List.cons_append, List.cons_append, quotedRest?, if_neg (by decide), if_neg (by decide),
      if_pos rfl, ih]
    rfl

theorem IsRaw.isStringBody {t : Text} (h : IsRaw t) : IsStringBody t := by
  induction t with
  | nil => exact .nil
  | cons c t ih =>
    obtain ⟨hc, ht⟩ := List.forall_mem_cons.1 h
    exact .char hc (ih ht)

theorem IsRaw.unescape_eq {t : Text} (h : IsRaw t) : unescape t = t := by
  induction t with
  | nil => rfl
  | cons c t ih =>
    obtain ⟨hc, ht⟩ := List.forall_mem_cons.1 h
    rw [unescape_cons hc.2.1, ih ht]

theorem length_unescape_le (t : Text) : (unescape t).length ≤ t.length := by
  fun_induction unescape t with
  | case1 => exact Nat.le_refl _
  | case2 => exact Nat.le_refl _
  | case3 _ _ ih => simp only [List.length_cons]; omega
  | case4 _ _ _ _ ih => simp only [List.length_cons] at ih ⊢; omega

namespace IsStringBody

variable {w : Text} (h : IsStringBody w)
include h

/-- A quote in a string stands behind a backslash. -/
theorem getLast?_of_quote {u v : Text} (hw : w = u ++ '\'' :: v) : u.getLast? = some '\\' := by
  induction h generalizing u with
  | nil => simp at hw
  | @char c w hc _ ih =>
    rcases List.cons_eq_append_iff.1 hw with ⟨rfl, he⟩ | ⟨u, rfl, he⟩
    · exact absurd (List.cons.inj he).1.symm hc.1
    · rw [List.getLast?_cons, ih he]
      rfl
  | @escape d w _ ih =>
    rcases List.cons_eq_append_iff.1 hw with ⟨rfl, he⟩ | ⟨u, rfl, he⟩
    · exact absurd (List.cons.inj he).1 (by decide)
    · rcases List.cons_eq_append_iff.1 he with ⟨rfl, -⟩ | ⟨u, rfl, hrest⟩
      · rfl
      · rw [List.getLast?_cons_cons, List.getLast?_cons, ih hrest]
        rfl

/-- **A string that is read as it is written** holds no escapes: each one is read as less than it
is. -/
theorem isRaw (hw : unescape w = w) : IsRaw w := by
  induction h with
  | nil => exact fun c hc => nomatch hc
  | char hc _ ih =>
    rw [unescape_cons hc.2.1] at hw
    exact List.forall_mem_cons.2 ⟨hc, ih (List.cons.inj hw).2⟩
  | @escape d w _ _ =>
    have hlen := congrArg List.length hw
    have hle := length_unescape_le w
    rw [unescape, if_pos rfl] at hlen
    simp only [List.length_cons] at hlen
    omega

end IsStringBody

/-! ### Bare imports -/

/-- The statement that imports a path for its effects, the path written as it is. -/
def bareImport (path : Text) : Text :=
  "import " ++ '\'' :: path ++ ['\'', ';']

theorem bareImport_eq (path : Text) :
    bareImport path = ("import " : Text) ++ ('\'' :: path ++ ['\'']) ++ [';'] := by
  have hsplit : ∀ w : Text,
      w ++ '\'' :: path ++ ['\'', ';'] = w ++ ('\'' :: path ++ ['\'']) ++ [';'] := by
    simp
  exact hsplit _

/-- The path that a bare import loads. -/
def importedPath? (t : Text) : Option Text :=
  match ((dropLeading? "import " t).bind (Token.char? '\'')).bind quotedRest? with
  | some (w, [';']) => some (unescape w)
  | _ => none

theorem dropLeading?_eq_some_iff {w t r : Text} : dropLeading? w t = some r ↔ t = w ++ r := by
  rw [dropLeading?, Option.ite_none_right_eq_some, List.isPrefixOf_iff_prefix, Option.some.injEq]
  constructor
  · rintro ⟨⟨v, rfl⟩, rfl⟩
    rw [List.drop_left]
  · rintro rfl
    exact ⟨List.prefix_append w r, List.drop_left⟩

theorem char?_eq_some_iff {c : Char} {t r : Text} : Token.char? c t = some r ↔ t = c :: r := by
  cases t with
  | nil => simp [Token.char?]
  | cons d t => simp [Token.char?]

/-- **A bare import** holds a string for its path. -/
theorem importedPath?_eq_some_iff {t path : Text} :
    importedPath? t = some path ↔ ∃ w, t = bareImport w ∧ IsStringBody w ∧ unescape w = path := by
  have hsplit : ∀ w, bareImport w = ("import " : Text) ++ '\'' :: (w ++ ['\'', ';']) := fun w =>
    List.append_assoc _ _ _
  rw [importedPath?]
  constructor
  · intro h
    split at h
    next w hread =>
      obtain ⟨inside, hinside, hquoted⟩ := Option.bind_eq_some_iff.1 hread
      obtain ⟨rest, hrest, hquote⟩ := Option.bind_eq_some_iff.1 hinside
      obtain ⟨rfl, hw⟩ := exists_of_quotedRest? hquoted
      refine ⟨w, ?_, hw, Option.some.inj h⟩
      rw [dropLeading?_eq_some_iff.1 hrest, char?_eq_some_iff.1 hquote, hsplit]
    next => cases h
  · rintro ⟨w, rfl, hw, rfl⟩
    rw [dropLeading?_eq_some_iff.2 (hsplit w), Option.bind_some, char?_eq_some_iff.2 rfl,
      Option.bind_some, hw.quotedRest?_eq]
    rfl

/-- A string between quotes with a blank in front does not end with another one: the opening quote
of the second would stand in the first, behind a blank and not behind a backslash. -/
theorem IsStringBody.eq_nil_of_append {i w m u : Text} (h : IsStringBody w)
    (hi : i.getLast? = some ' ')
    (he : i ++ '\'' :: w ++ ['\'', ';'] = u ++ (i ++ '\'' :: m ++ ['\'', ';'])) : u = [] := by
  by_contra hu
  have hcut : i ++ '\'' :: w = (u ++ i) ++ '\'' :: m := by
    rw [← List.append_assoc, List.append_left_inj] at he
    rw [he, List.append_assoc]
  rcases List.append_eq_append_iff.1 hcut with ⟨a, ha, hw⟩ | ⟨a, ha, -⟩
  · cases a with
    | nil =>
      rw [List.append_nil] at ha
      exact hu (List.append_left_eq_self.1 ha)
    | cons c v =>
      -- The second quote stands in the string, so a backslash must stand in front of it.
      obtain ⟨rfl, hbody⟩ := List.cons.inj hw
      have hlast := congrArg List.getLast? ha
      rw [List.getLast?_append, List.getLast?_append, hi, List.getLast?_cons,
        h.getLast?_of_quote hbody] at hlast
      exact absurd (Option.some.inj hlast) (by decide)
  · have hlen := congrArg List.length ha
    simp only [List.length_append] at hlen
    exact hu (List.length_eq_zero_iff.1 (by omega))

/-- **A bare import does not end with another one.** -/
theorem IsStringBody.eq_nil_of_bareImport {w m u : Text} (h : IsStringBody w)
    (he : bareImport w = u ++ bareImport m) : u = [] :=
  h.eq_nil_of_append (i := "import ") (by decide) he

theorem length_quotedBehind (i w : Text) :
    (i ++ '\'' :: w ++ ['\'', ';']).length = w.length + (i.length + 3) := by
  simp only [List.length_append, List.length_cons, List.length_nil]
  omega

theorem length_bareImport (path : Text) :
    (bareImport path).length = path.length + (("import " : Text).length + 3) :=
  length_quotedBehind _ path

theorem head?_bareImport (path : Text) : ∀ c ∈ (bareImport path).head?, isBlank c = false := by
  intro c hc
  obtain rfl : 'i' = c := Option.some.inj hc
  rfl

theorem bareImport_injective : Function.Injective bareImport := fun _ _ h =>
  (List.cons.inj (List.append_cancel_left (List.append_cancel_right h))).2

/-- **An import at the end of a text** whose path is read as it is written is all there is of the
last import, and the path needs no escapes. -/
theorem IsStringBody.of_append_bareImport {w m a b : Text} (h : IsStringBody w)
    (hm : unescape w = m) (he : a ++ bareImport w = b ++ bareImport m) : a = b ∧ IsRaw m := by
  have hlen : (bareImport m).length ≤ (bareImport w).length := by
    rw [length_bareImport, length_bareImport, ← hm]
    exact Nat.add_le_add_right (length_unescape_le w) _
  obtain ⟨u, hu⟩ : bareImport m <:+ bareImport w :=
    List.suffix_of_suffix_length_le (he ▸ List.suffix_append b _) (List.suffix_append a _) hlen
  obtain rfl := h.eq_nil_of_bareImport hu.symm
  obtain rfl : m = w := bareImport_injective hu
  exact ⟨List.append_cancel_right he, h.isRaw hm⟩

section

variable {path : Text} (h : IsRaw path)
include h

/-- A path that needs no escapes is read back. -/
theorem IsRaw.importedPath?_bareImport : importedPath? (bareImport path) = some path :=
  importedPath?_eq_some_iff.2 ⟨path, rfl, h.isStringBody, h.unescape_eq⟩

theorem IsRaw.staysQuoted : StaysQuoted '\'' path := by
  induction path with
  | nil => exact .nil
  | cons c path ih =>
    obtain ⟨hc, hpath⟩ := List.forall_mem_cons.1 h
    exact (StaysQuoted.char hc.2.1 hc.2.2 hc.1).append (ih hpath)

theorem IsRaw.scans_bareImport :
    Scans [] (("import " : Text) ++ ('\'' :: path ++ ['\'']))
      (codeMarks 0 "import " ++ literalMarks 0 ('\'' :: path ++ ['\''])) [] := by
  have hplain : Scans [] ("import " : Text) (codeMarks 0 "import ") [] :=
    .plain (List.all_eq_true.1 (by decide)) []
  have hquoted : Scans [] ('\'' :: path ++ ['\'']) (literalMarks 0 ('\'' :: path ++ ['\''])) [] :=
    .quoted (.inl rfl) h.staysQuoted []
  exact hplain.append hquoted

theorem IsRaw.not_isBound_literalMarks :
    ∀ m ∈ literalMarks 0 ('\'' :: path ++ ['\'']), ¬ m.IsBound := by
  intro m hm
  obtain ⟨c, hc, rfl⟩ := List.mem_map.1 hm
  rintro (hb | ⟨-, hb⟩)
  · obtain rfl : c = '\n' := hb
    have hpath : '\n' ∈ path := by simpa using hc
    exact (h _ hpath).2.2 rfl
  · cases hb

/-- The import of a path that needs no escapes is one statement. -/
theorem IsRaw.isLine_bareImport : IsLine (bareImport path) := by
  rw [bareImport_eq]
  refine .of_scans h.scans_bareImport fun m hm => (List.mem_append.1 hm).elim ?_ ?_
  · exact not_isBound_codeMarks (List.all_iff_forall_prop.1 (by decide)) m
  · exact h.not_isBound_literalMarks m

theorem IsRaw.shape_bareImport : shape (bareImport path) = .importDecl := by
  rw [shape_eq_statementKind h.isLine_bareImport (head?_bareImport path)]
  exact if_pos rfl

end

end ElementModules.Descriptor
